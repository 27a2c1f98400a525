import GraphQuery.Proofs.Binding.Inclusion
import GraphQuery.Proofs.Completion.Fatal
import GraphQuery.Proofs.Completion.Listing
import GraphQuery.Proofs.Completion.Reached
import GraphQuery.Proofs.Future.Ready

/-!
# Invocations of a run

Which resolvers a run starts, and in which order, if all of them are ready at once. Main statement:
they are those that the response calls for, depth first, each of them once.
-/

namespace GraphQuery

def Event.invocation? : Event → Option Invocation
  | .started path object context => some { path, object, context }
  | _ => none

/-- The resolvers that a future starts, in order. -/
def Future.invocations {α : Type} (future : Future Event α) : List Invocation :=
  future.events.filterMap Event.invocation?

private theorem Future.invocations_bind {α β : Type} (future : Future Event α)
    (next : α → Future Event β) :
    (future.bind next).invocations = future.invocations ++ (next future.value).invocations := by
  rw [invocations, events_bind, List.filterMap_append]
  rfl

/-- Resolvers of fields never wait. -/
def Delays.Immediate (delays : Delays) (resolvers : ResolverTable) : Prop :=
  ∀ type field answer, resolvers type field = .custom answer → ∀ path, delays type field path = 0

/-- No directive of the field has a hook. -/
def FieldNode.Unwrapped (node : FieldNode) (schema : Schema) : Prop :=
  ∀ use ∈ node.directives, ∀ spec, schema.directive? use.name = some spec → spec.hook = none

/-- No field that the operation reaches has a directive with a hook. -/
def Operation.Unwrapped (operation : Operation) (schema : Schema) (fragments : List Fragment) :
    Prop :=
  ∀ node selections, operation.Reaches fragments (.field node selections) →
    ∀ use ∈ node.directives, ∀ spec, schema.directive? use.name = some spec → spec.hook = none

/-- Siblings that are ready at once are ready at once together, and they run in order. -/
def Schedule.Prompt (schedule : Schedule) : Prop :=
  ∀ path futures, (∀ future ∈ futures, future.waits = 0) →
    (schedule path futures).waits = 0 ∧
      (schedule path futures).events = futures.flatMap Future.events

namespace Plan

section

variable {plan : Plan} {α β : Type} {place child : Place} {path : ResponsePath}
  {segment : PathSegment}

/-- The future is ready at once and starts the resolvers that are listed for the place. -/
structure Performs (plan : Plan) (place : Place) (path : ResponsePath) (future : Future Event α) :
    Prop where
  ready : future.waits = 0
  lists : plan.Lists place path future.invocations

/-- The future is ready at once and starts the resolvers of the part of a place. -/
structure PerformsPart (plan : Plan) (place : Place) (path : ResponsePath) (segment : PathSegment)
    (child : Place) (future : Future Event α) : Prop where
  ready : future.waits = 0
  lists : plan.ListsPart place path segment child future.invocations

private theorem performs_done {view : View} (hview : plan.view place path = view)
    (houter : view.isInner = false) (a : α) :
    plan.Performs place path (.done a : Future Event α) := ⟨rfl, lists_nil (hview ▸ houter)⟩

private theorem Performs.bind_done {future : Future Event α} (h : plan.Performs place path future)
    (f : α → β) : plan.Performs place path (future.bind fun a => .done (f a)) := by
  refine ⟨?_, ?_⟩
  · rw [Future.waits_bind, h.ready]
    rfl
  · rw [Future.invocations_bind]
    exact (List.append_nil future.invocations).symm ▸ h.lists

/-- Siblings that perform the parts of a place perform the place together. -/
theorem performs_schedule {schedule : Schedule} (hschedule : schedule.Prompt)
    {futures : List (Future Event Completion)}
    (hlength : futures.length = (plan.inside place path).length)
    (hparts : ∀ (i : Nat) segment child future,
      (plan.inside place path)[i]? = some (segment, child) →
      futures[i]? = some future → plan.PerformsPart place path segment child future) :
    plan.Performs place path (schedule path futures) := by
  have hready : ∀ future ∈ futures, future.waits = 0 := by
    intro future hmem
    obtain ⟨i, hi⟩ := List.mem_iff_getElem?.1 hmem
    obtain ⟨⟨segment, child⟩, hchild⟩ := exists_getElem?_of_length_eq hlength hi
    exact (hparts i segment child future hchild hi).ready
  obtain ⟨hwaits, hevents⟩ := hschedule path futures hready
  have hinvocations : (schedule path futures).invocations =
      (futures.map Future.invocations).flatten := by
    rw [Future.invocations, hevents, List.filterMap_flatMap, List.flatMap_def]
    rfl
  refine ⟨hwaits, ?_⟩
  rw [hinvocations]
  have hlength' : (futures.map Future.invocations).length = (plan.inside place path).length := by
    rw [List.length_map, hlength]
  refine lists_flatten hlength' fun i segment child part hchild hpart => ?_
  rw [List.getElem?_map, Option.map_eq_some_iff] at hpart
  obtain ⟨future, hfuture, rfl⟩ := hpart
  exact (hparts i segment child future hchild hfuture).lists

/-- The level performs the objects on which reached selections are made that fit it. -/
def PerformsLevel (plan : Plan) (level : Level) (depth : Nat) : Prop :=
  ∀ place object selections value path, plan.ObjectAt place path object selections value →
    plan.FitsReached plan.operation depth selections →
    plan.Performs place path (level object selections value path)

private theorem performs_named {level : Level} {depth : Nat}
    (hlevel : plan.PerformsLevel level depth)
    {site : FieldSite} (hfits : plan.FitsReached plan.operation depth site.selections)
    {name : String} {nullable : Bool} {value : Json} (hnull : value.isNull = false)
    (path : ResponsePath) :
    plan.Performs (.value site (.named name nullable) (.ok value)) path
      (plan.completeNamed level site name value path) := by
  have hshows := plan.shows_namedView site name nullable hnull path
  generalize plan.namedView site name value path = view at hshows
  have hview := view_of_shows hshows
  cases hshows with
  | fields hat | uncollected hat =>
    rw [completeNamed_object hat]
    cases hat with
    | object _ hget => exact hlevel _ _ _ _ path (.object hnull hget) hfits
    | abstract _ hget habstract hruntime =>
      exact hlevel _ _ _ _ path (.abstract hnull hget habstract hruntime) hfits
  | null h | nonNull h => exact absurd h (Bool.not_eq_true _ ▸ hnull)
  | unknown _ hget =>
    simp only [completeNamed, hget]
    exact performs_done hview rfl _
  | impossible _ hget habstract hruntime =>
    rw [completeNamed_abstract hget habstract, completeAbstract, hruntime]
    exact performs_done hview rfl _
  | leaf _ hget hleaf hvalue | refused _ hget hleaf hvalue =>
    rw [completeNamed_leaf hget hleaf, hvalue]
    exact performs_done hview rfl _

private theorem performs_null {site : FieldSite} (type : TypeExpr) {value : Json}
    (hnull : value.isNull = true) (path : ResponsePath) :
    plan.Performs (.value site type (.ok value)) path
      (.done (completeNull site type.nullable path) : Future Event Completion) := by
  cases hnullable : type.nullable with
  | true => exact performs_done (view_of_shows (.null hnull hnullable)) rfl _
  | false => exact performs_done (view_of_shows (.nonNull hnull hnullable)) rfl _

private theorem Performs.item {children : List Place} {future : Future Event α}
    (hview : plan.view place path = .items children)
    (h : plan.Performs child (path.child segment) future) :
    plan.PerformsPart place path segment child future :=
  ⟨h.ready, none, future.invocations, rfl,
    fun _ => ⟨nofun, fun hown => absurd hown.1 (not_invokes_items hview)⟩, h.lists⟩

private theorem performs_value {schedule : Schedule} (hschedule : schedule.Prompt) {level : Level}
    {depth : Nat} (hlevel : plan.PerformsLevel level depth) {site : FieldSite}
    (hfits : plan.FitsReached plan.operation depth site.selections) (type : TypeExpr)
    (value : Json) (path : ResponsePath) :
    plan.Performs (.value site type (.ok value)) path
      (plan.completeValue schedule level site type value path) := by
  induction type generalizing value path with
  | named name nullable =>
    rw [completeValue]
    cases hnull : value.isNull with
    | true => exact performs_null (.named name nullable) hnull path
    | false =>
      rw [if_neg Bool.false_ne_true]
      exact (performs_named hlevel hfits hnull path).bind_done _
  | list item nullable ih =>
    rw [completeValue]
    cases hnull : value.isNull with
    | true => exact performs_null (.list item nullable) hnull path
    | false =>
      rw [if_neg Bool.false_ne_true]
      cases hitems : value.items? with
      | none => exact performs_done (view_of_shows (.noItems hnull hitems)) rfl _
      | some items =>
        have hview : plan.view (.value site (.list item nullable) (.ok value)) path = _ :=
          view_of_shows (.items hnull hitems)
        have hlength : (items.mapIdx fun index value => plan.completeValue schedule level site item
            value (path.child (.index index))).length =
            (plan.inside (.value site (.list item nullable) (.ok value)) path).length := by
          simp [inside, hview, children]
        refine Performs.bind_done (performs_schedule hschedule hlength ?_) _
        intro i segment child future hchild hi
        obtain ⟨rfl, hplace⟩ := (getElem?_inside_items hview).1 hchild
        rw [List.getElem?_map, Option.map_eq_some_iff] at hplace
        obtain ⟨inner, hinner, rfl⟩ := hplace
        simp only [List.getElem?_mapIdx, hinner, Option.map_some, Option.some.injEq] at hi
        subst hi
        exact (ih inner (path.child (.index i))).item hview

private theorem wrapProducer_of_keeps {node : FieldNode} {kept : Bool}
    (hkeeps : plan.keeps .field node.directives = .ok kept)
    (hunwrapped : node.Unwrapped plan.schema)
    (producer : Producer) (parent : Json) :
    plan.wrapProducer producer parent node.directives = .ok producer := by
  have hnone : node.directives.filter plan.wraps = [] := by
    refine List.filter_eq_nil_iff.2 fun use hmem hwraps => ?_
    obtain ⟨spec, hspec, hhook⟩ := (Option.any_eq_true _ _).1 hwraps
    rw [hunwrapped use hmem spec hspec] at hhook
    cases hhook
  rw [← Bindings.wrapProducer_filter hkeeps, hnone]
  rfl

theorem wrapProducer_of_unwrapped {field : SelectedField} {depth : Nat}
    (hvalid : plan.ValidField (fun _ => True) depth field)
    (hunwrapped : field.node.Unwrapped plan.schema) (producer : Producer) (parent : Json) :
    plan.wrapProducer producer parent field.node.directives = .ok producer := by
  obtain ⟨_, -, hvalid⟩ := hvalid
  obtain ⟨⟨kept, hkeeps⟩, -⟩ := keeps_of_valid hvalid
  exact wrapProducer_of_keeps hkeeps hunwrapped producer parent

private theorem exists_own_resolve (himmediate : plan.delays.Immediate plan.schema.resolvers)
    {object : ObjectType}
    {field : FieldDefinition} {parent : Json} {arguments : ArgumentValues} (path : ResponsePath) :
    ∃ own : Option Invocation, (plan.resolve object field parent arguments path).waits = 0 ∧
      (plan.resolve object field parent arguments path).invocations = own.toList ∧
      ∀ invocation, own = some invocation ↔
        (∃ answer, plan.schema.resolvers object.name field.name = .custom answer) ∧
          invocation =
            { path, object := object.name
              context := { fieldName := field.name, parent, arguments } } := by
  unfold resolve
  cases hresolver : plan.schema.resolvers object.name field.name with
  | parent => exact ⟨none, rfl, rfl, by simp⟩
  | custom answer =>
    simp only [himmediate _ _ answer hresolver path]
    refine ⟨some _, rfl, rfl, fun invocation => ?_⟩
    rw [Option.some.injEq, eq_comm]
    exact ⟨fun h => ⟨⟨answer, rfl⟩, h⟩, And.right⟩

/-- What becomes of the answer of a resolver: its value is completed, its fault ends the field. -/
def completeAnswer (plan : Plan) (schedule : Schedule) (level : Level) (site : FieldSite)
    (type : TypeExpr) (path : ResponsePath) : Except ResolverFault Json → Future Event Completion
  | .error fault => .done (.ofFault (.resolver fault) type.nullable site.position path)
  | .ok value => plan.completeValue schedule level site type value path

private theorem performs_answer {schedule : Schedule} (hschedule : schedule.Prompt) {level : Level}
    {depth : Nat} (hlevel : plan.PerformsLevel level depth) (site : FieldSite)
    (hfits : plan.FitsReached plan.operation depth site.selections) (type : TypeExpr)
    (answer : Except ResolverFault Json) (path : ResponsePath) :
    plan.Performs (.value site type (answer.mapError .resolver)) path
      (plan.completeAnswer schedule level site type path answer) := by
  cases answer with
  | error fault => exact performs_done rfl rfl _
  | ok value => exact performs_value hschedule hlevel hfits type value path

section

variable {object : ObjectType} {groups : List FieldGroup} {group : FieldGroup} {value : Json}

private theorem performsPart_outer (hview : plan.view place path = .fields object groups value)
    (hgroup : group ∈ groups)
    (hnone : ∀ invocation, ¬ plan.InvokesField object value path group invocation) {view : View}
    (hchild : plan.view child (path.child (.field group.key)) = view)
    (houter : view.isInner = false) {future : Future Event α}
    (hready : future.waits = 0) (hinvocations : future.invocations = []) :
    plan.PerformsPart place path (.field group.key) child future := by
  refine ⟨hready, none, [], hinvocations, fun invocation => ⟨nofun, fun hown => ?_⟩, ?_⟩
  · exact absurd ((invokes_child_iff hview hgroup).1 hown) (hnone invocation)
  · exact lists_nil (hchild ▸ houter)

private theorem performsPart_typename (hview : plan.view place path = .fields object groups value)
    (hgroup : group ∈ groups) (hname : group.first.node.name = "__typename")
    (hwrap : ∀ producer parent,
      plan.wrapProducer producer parent group.first.node.directives = .ok producer)
    (path' : ResponsePath) :
    plan.PerformsPart place path (.field group.key) (plan.placeOf object value path group)
      (plan.resolveTypename object value group.first.node path') := by
  have hdone : plan.resolveTypename object value group.first.node path' =
      .done (.ok (.string object.name)) := by
    rw [resolveTypename, hwrap]
    rfl
  have hplace : plan.view (plan.placeOf object value path group) (path.child (.field group.key)) =
      .value (.string object.name) := by
    rw [placeOf_typename hname, typenameAnswer, hwrap]
    rfl
  rw [hdone]
  refine performsPart_outer hview hgroup (fun invocation hfield => ?_) hplace rfl rfl rfl
  obtain ⟨field, resolver, arguments, hother, -⟩ := hfield
  exact hother hname

section

variable {field : FieldDefinition} {arguments : ArgumentValues}

private theorem answer_of_unwrapped {node : FieldNode}
    (hbound : plan.bindArguments field.arguments node.arguments = .ok arguments)
    (hwrap : ∀ producer parent,
      plan.wrapProducer producer parent node.directives = .ok producer) (path : ResponsePath) :
    plan.answer object field value node path =
      (plan.resolve object field value arguments path).value.mapError .resolver := by
  have hproducer : plan.producer object field value node path =
      .ok (plan.resolve object field value arguments path) := by
    rw [producer, hbound]
    exact hwrap _ _
  rw [answer, hproducer]
  rfl

theorem resolveField_of_unwrapped (schedule : Schedule) (level : Level)
    (hname : group.first.node.name ≠ "__typename")
    (hfield : object.field? group.first.node.name = some field)
    (hbound : plan.bindArguments field.arguments group.first.node.arguments = .ok arguments)
    (hwrap : ∀ producer parent,
      plan.wrapProducer producer parent group.first.node.directives = .ok producer) :
    plan.resolveField schedule level object value path group =
      .emit (.resolving (path.child (.field group.key)) object.name field.name)
        ((plan.resolve object field value arguments (path.child (.field group.key))).bind
          (plan.completeAnswer schedule level
            { object := object.name
              field := field.name
              position := group.first.node.position
              selections := group.selections }
            field.type (path.child (.field group.key)))) := by
  have hproducer : plan.producer object field value group.first.node
      (path.child (.field group.key)) =
      .ok (plan.resolve object field value arguments (path.child (.field group.key))) := by
    rw [producer, hbound]
    exact hwrap _ _
  unfold resolveField
  simp only [beq_iff_eq, hname, if_false, hfield, hproducer]
  refine congrArg (fun next => Future.emit _ (Future.bind _ next)) (funext fun answer => ?_)
  cases answer <;> rfl

/-- A field is performed as a part of its object: its resolver starts before those inside. -/
theorem performsPart_field {schedule : Schedule} (hschedule : schedule.Prompt)
    (himmediate : plan.delays.Immediate plan.schema.resolvers) {level : Level} {depth : Nat}
    (hlevel : plan.PerformsLevel level depth)
    (hfits : plan.FitsReached plan.operation depth group.selections)
    (hview : plan.view place path = .fields object groups value) (hgroup : group ∈ groups)
    (hname : group.first.node.name ≠ "__typename")
    (hfield : object.field? group.first.node.name = some field)
    (hbound : plan.bindArguments field.arguments group.first.node.arguments = .ok arguments)
    (hwrap : ∀ producer parent,
      plan.wrapProducer producer parent group.first.node.directives = .ok producer) :
    plan.PerformsPart place path (.field group.key) (plan.placeOf object value path group)
      (plan.resolveField schedule level object value path group) := by
  obtain ⟨own, hwaits, hinvocations, hown⟩ :=
    @exists_own_resolve plan himmediate object field value arguments (path.child (.field group.key))
  have hperforms := performs_answer hschedule hlevel
    ⟨object.name, field.name, group.first.node.position, group.selections⟩ hfits field.type
    (plan.resolve object field value arguments (path.child (.field group.key))).value
    (path.child (.field group.key))
  rw [placeOf_field hname hfield, answer_of_unwrapped hbound hwrap (path.child (.field group.key)),
    resolveField_of_unwrapped schedule level hname hfield hbound hwrap]
  refine ⟨?_, own, _, ?_, fun invocation => ?_, hperforms.lists⟩
  · rw [Future.waits, Future.waits_bind, hwaits, hperforms.ready]
  · rw [← hinvocations, ← Future.invocations_bind]
    rfl
  · rw [hown, invokes_child_iff hview hgroup]
    constructor
    · rintro ⟨⟨resolver, hresolver⟩, rfl⟩
      exact ⟨field, resolver, arguments, hname, hfield, hresolver, hbound, rfl⟩
    · rintro ⟨field', resolver, arguments', -, hfield', hresolver, hbound', rfl⟩
      obtain rfl := Option.some.inj (hfield.symm.trans hfield')
      obtain rfl := Except.ok.inj (hbound.symm.trans hbound')
      exact ⟨⟨resolver, hresolver⟩, rfl⟩

end

private theorem performsPart_resolveField {schedule : Schedule} (hschedule : schedule.Prompt)
    (himmediate : plan.delays.Immediate plan.schema.resolvers) {level : Level} {depth : Nat}
    (hlevel : plan.PerformsLevel level depth)
    (hfits : plan.FitsReached plan.operation depth group.selections)
    (hview : plan.view place path = .fields object groups value) (hgroup : group ∈ groups)
    (hwrap : ∀ producer parent,
      plan.wrapProducer producer parent group.first.node.directives = .ok producer) :
    plan.PerformsPart place path (.field group.key) (plan.placeOf object value path group)
      (plan.resolveField schedule level object value path group) := by
  by_cases hname : group.first.node.name = "__typename"
  · simp only [resolveField, hname, beq_self_eq_true, if_true]
    exact performsPart_typename hview hgroup hname hwrap _
  cases hfield : object.field? group.first.node.name with
  | none =>
    simp only [resolveField, beq_iff_eq, hname, if_false, hfield]
    rw [placeOf_undefined hname hfield]
    refine performsPart_outer hview hgroup (fun invocation h => ?_) rfl rfl rfl rfl
    obtain ⟨field, resolver, arguments, -, hother, -⟩ := h
    cases hfield.symm.trans hother
  | some field =>
    cases hbound : plan.bindArguments field.arguments group.first.node.arguments with
    | ok arguments =>
      exact performsPart_field hschedule himmediate hlevel hfits hview hgroup hname hfield hbound
        hwrap
    | error fault =>
      have hproducer (path : ResponsePath) :
          plan.producer object field value group.first.node path = .error fault := by
        rw [producer, hbound]
        rfl
      have hanswer : plan.answer object field value group.first.node
          (path.child (.field group.key)) = .error fault := by
        rw [answer, hproducer]
        rfl
      simp only [resolveField, beq_iff_eq, hname, if_false, hfield, hproducer]
      rw [placeOf_field hname hfield, hanswer]
      refine performsPart_outer hview hgroup (fun invocation h => ?_) rfl ?_ rfl rfl
      · obtain ⟨field', resolver, arguments, -, hother, -, hbound', -⟩ := h
        obtain rfl := Option.some.inj (hfield.symm.trans hother)
        cases hbound.symm.trans hbound'
      · rw [view, View.ofFault]
        split <;> rfl

end

private theorem performsLevel_levelAt {schedule : Schedule} (hschedule : schedule.Prompt)
    (himmediate : plan.delays.Immediate plan.schema.resolvers)
    (hunwrapped : plan.operation.Unwrapped plan.schema plan.fragments) (depth : Nat) :
    plan.PerformsLevel (plan.levelAt schedule depth) depth := by
  unfold levelAt
  induction depth with
  | zero =>
    intro place object selections value path hat hfits
    have hview := view_of_shows (.fields hat (collect_of_fits_zero object.name hfits.1))
    have hlength : ([] : List (List Invocation)).length = (plan.inside place path).length := by
      simp [inside, hview, children]
    exact ⟨rfl, lists_flatten hlength (by simp)⟩
  | succ depth ih =>
    intro place object selections value path hat hfits
    obtain ⟨groups, hcollect, -, hbelow⟩ :=
      collect_of_fitsReached (fun _ _ => rfl : plan.operation.SameFragments plan.fragments _)
        object.name hfits
    have hview := view_of_shows (.fields hat hcollect)
    have hlength : (groups.map (plan.resolveField schedule
        (plan.levelWith schedule plan.collect depth) object value path)).length =
        (plan.inside place path).length := by
      simp [inside, hview, children]
    simp only [levelWith, hcollect]
    refine Performs.bind_done (performs_schedule hschedule hlength ?_) _
    intro i segment child future hchild hi
    obtain ⟨group, hgroup, rfl, rfl⟩ := (getElem?_inside_fields hview).1 hchild
    rw [List.getElem?_map, hgroup, Option.map_some, Option.some.injEq] at hi
    subst hi
    have hmem := List.mem_of_getElem? hgroup
    obtain ⟨hvalid, hreached⟩ := (hbelow group hmem).2 group.first List.mem_cons_self
    exact performsPart_resolveField hschedule himmediate ih (hbelow group hmem).1 hview hmem
      (wrapProducer_of_unwrapped hvalid (hunwrapped _ _ hreached))

/-- The run of an accepted plan starts the resolvers that are listed for the response. -/
theorem lists_runUnder {schedule : Schedule} (hschedule : schedule.Prompt)
    (himmediate : plan.delays.Immediate plan.schema.resolvers)
    (hunwrapped : plan.operation.Unwrapped plan.schema plan.fragments)
    (haccepted : plan.Accepted) :
    plan.Lists plan.rootPlace [] (plan.runUnder schedule).invocations := by
  have hlevel := performsLevel_levelAt hschedule himmediate hunwrapped plan.depth
  have hroot : plan.Performs plan.rootPlace [] (plan.levelAt schedule plan.depth plan.rootType
      [plan.operation.selections] plan.root []) :=
    hlevel _ _ _ _ _ .level (fitsReached_operation haccepted)
  rw [runUnder_eq haccepted.root]
  exact (hroot.bind_done respond).lists

end

end Plan

/-- Each field is resolved once, in response order. Let an operation be accepted that uses no
directive with a hook, let resolvers never wait, and let siblings that are ready at once run in
order. Then the resolvers that an execution starts are exactly those that its response calls for,
one for each key of an executed object whose first field has a resolver of its own and whose
arguments are bound, depth first in the order of the collected fields and of the items, and there
is only one such listing. A field that fails, a null that propagates and an item that fails neither
stop nor repeat another resolver. -/
theorem invocations_of_executeUnder {schema : ExecutableSchema} {settings : Settings}
    {request : Request} {plan : Plan} (hplan : Plan.ofRequest schema settings request = .ok plan)
    (hunwrapped : plan.operation.Unwrapped schema.toSchema request.document.fragments)
    (himmediate : schema.delays.Immediate schema.resolvers)
    {buffering : Future.Buffering ResponsePath Event Completion} (hprompt : buffering.Prompt) :
    plan.Lists plan.rootPlace [] (executeUnder buffering schema settings request).invocations ∧
      ((executeUnder buffering schema settings request).invocations.map Invocation.path).Nodup ∧
      ∀ listing, plan.Lists plan.rootPlace [] listing →
        listing = (executeUnder buffering schema settings request).invocations := by
  obtain ⟨hschema, hdelays, -, haccepted⟩ := Plan.accepted_of_ofRequest hplan
  obtain ⟨-, hfragments⟩ := Plan.document_of_ofRequest hplan
  have hschedule : Schedule.Prompt (buffering.gather plan.limit) := fun path futures =>
    hprompt plan.limit path futures (Nat.le_max_right _ 1)
  have hexecute : executeUnder buffering schema settings request =
      plan.runUnder (buffering.gather plan.limit) := by
    rw [executeUnder, hplan]
  have himmediate' : plan.delays.Immediate plan.schema.resolvers := by rwa [hschema, hdelays]
  rw [← hschema, ← hfragments] at hunwrapped
  have hlists : plan.Lists plan.rootPlace []
      (executeUnder buffering schema settings request).invocations := by
    rw [hexecute]
    exact Plan.lists_runUnder hschedule himmediate' hunwrapped haccepted
  exact ⟨hlists, hlists.nodup_paths, fun listing h => hlists.unique h⟩

/-- A resolver that reads a property and fails where there is none. -/
def propertyResolver (name : String) : ResolverFunction := fun _ context =>
  match context.parent.property name with
  | .null => .error ⟨"There is no " ++ name ++ "."⟩
  | value => .ok value

/-- The schema in which boxes and what is in them have resolvers of their own. -/
def watchedSchema : ExecutableSchema :=
  { Plan.boxSchema with
    resolvers := fun type field =>
      if type = "Query" ∧ field = "count" then .parent else .custom (propertyResolver field) }

def boxField (name : String) (selections : List Selection) : Selection :=
  .field ⟨⟨1, 1⟩, none, name, [], []⟩ selections

def labelSpread : Selection := .spread ⟨⟨1, 1⟩, "labels", []⟩

/-- The operation `{ boxes { size ...labels } count boxes { label } }`. -/
def watchedOperation : Operation :=
  ⟨⟨1, 1⟩, .query, [], [], [boxField "boxes" [boxField "size" [], labelSpread], boxField "count" [],
    boxField "boxes" [boxField "label" []]]⟩

/-- The request for two boxes, the first with a size that is none, the second without a label. The
fragment is `fragment labels on Box { label size }`. -/
def watchedRequest : Request :=
  { document :=
      { operations := .single watchedOperation
        fragments := [⟨"labels", ⟨"Box", ⟨1, 1⟩⟩, [], [boxField "label" [], boxField "size" []]⟩] }
    operationName := none
    inputs := .empty
    root := .object [("count", .number (.int 3)),
      ("boxes", .array [.object [("size", .string "wide"), ("label", .string "red")],
        .object [("size", .number (.int 2)), ("label", .null)]])] }

private theorem unwrapped_watchedOperation :
    watchedOperation.Unwrapped watchedSchema.toSchema watchedRequest.document.fragments := by
  intro node selections h use hmem
  have hreached : Selection.field node selections ∈
      watchedOperation.selections ++ [boxField "size" [], labelSpread, boxField "label" []] := by
    refine h.mem (List.subset_append_left ..) ?_
    simp [watchedOperation, watchedRequest, boxField, labelSpread, Fragment.find?]
  have hplain : ∀ selection ∈
      watchedOperation.selections ++ [boxField "size" [], labelSpread, boxField "label" []],
      ∀ node selections, selection = .field node selections → node.directives = [] := by
    simp [watchedOperation, boxField, labelSpread]
  rw [hplain _ hreached node selections rfl] at hmem
  cases hmem

/-- Both labels and both sizes are resolved once, though they are requested twice, a size does not
fit its field, and a label fails. -/
theorem invocations_of_watchedRequest :
    (fun response => (response.data.map Value.text, response.errors.length)) <$>
        (execute watchedSchema .default watchedRequest).value =
      .ok (some "\x7bboxes: [null, \x7bsize: 2, label: null\x7d], count: 3\x7d", 2) ∧
    (executeUnder (.rounds ..) watchedSchema .default watchedRequest).invocations.map
        Invocation.path =
      [[.field "boxes"], [.field "boxes", .index 0, .field "size"],
        [.field "boxes", .index 0, .field "label"], [.field "boxes", .index 1, .field "size"],
        [.field "boxes", .index 1, .field "label"]] ∧
    ∃ plan, Plan.ofRequest watchedSchema .default watchedRequest = .ok plan ∧
      plan.Lists plan.rootPlace []
        (executeUnder (.rounds ..) watchedSchema .default watchedRequest).invocations ∧
      ∀ listing, plan.Lists plan.rootPlace [] listing → listing =
        (executeUnder (.rounds ..) watchedSchema .default watchedRequest).invocations := by
  have himmediate : watchedSchema.delays.Immediate watchedSchema.resolvers :=
    fun _ _ _ _ _ => rfl
  obtain ⟨plan, hplan⟩ := exists_of_toBool
    (by decide +kernel : (Plan.ofRequest watchedSchema .default watchedRequest).toBool = true)
  obtain ⟨hselects, -⟩ := Plan.document_of_ofRequest hplan
  have hunwrapped : plan.operation.Unwrapped watchedSchema.toSchema
      watchedRequest.document.fragments := by
    rw [← (Except.ok.inj hselects : watchedOperation = plan.operation)]
    exact unwrapped_watchedOperation
  obtain ⟨hlists, -, hunique⟩ :=
    invocations_of_executeUnder hplan hunwrapped himmediate Future.prompt_rounds
  exact ⟨by decide +kernel, by decide +kernel, plan, hplan, hlists, hunique⟩

end GraphQuery
