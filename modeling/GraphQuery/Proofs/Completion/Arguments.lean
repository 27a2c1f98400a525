import GraphQuery.Proofs.Binding.Applicable
import GraphQuery.Proofs.Binding.WellTyped
import GraphQuery.Proofs.Completion.Agreement
import GraphQuery.Proofs.TypeSystem.Admits

/-!
# Arguments of a run

Which arguments resolvers, predicates and hooks get to see. Main statement: under a schema with the
standard translator they are those that are declared, in order and with values of their types, and
what would be done with any others never shows.
-/

namespace GraphQuery

/-- What happens when siblings are run together happens in one of them. -/
def Schedule.Confined (schedule : Schedule) : Prop :=
  ∀ path futures, ∀ event ∈ (schedule path futures).events,
    ∃ future ∈ futures, event ∈ future.events

namespace Plan

/-- A resolver that starts belongs to a declared field and gets what is bound to the parameters of
the field. -/
def Sees (plan : Plan) : Event → Prop
  | .started _ object context => ∃ type field uses, plan.system.object? object = some type ∧
      type.field? context.fieldName = some field ∧
      plan.bindArguments field.arguments uses = .ok context.arguments
  | _ => True

/-- All resolvers that the future starts get what is bound to the parameters of their fields. -/
def Watched {α : Type} (plan : Plan) (future : Future Event α) : Prop :=
  ∀ event ∈ future.events, plan.Sees event

/-- The level starts resolvers with bound arguments only. -/
def WatchedLevel (plan : Plan) (level : Level) : Prop :=
  ∀ object, plan.system.object? object.name = some object →
    ∀ selections value path, plan.Watched (level object selections value path)

section

variable {plan : Plan} {α β : Type}

private theorem watched_done (a : α) : plan.Watched (.done a : Future Event α) := by
  intro event hevent
  cases hevent

private theorem Watched.bind {future : Future Event α} (h : plan.Watched future)
    {next : α → Future Event β} (hnext : plan.Watched (next future.value)) :
    plan.Watched (future.bind next) := by
  intro event hevent
  rw [Future.events_bind, List.mem_append] at hevent
  exact hevent.elim (h event) (hnext event)

private theorem Watched.emit {future : Future Event α} (h : plan.Watched future) {event : Event}
    (hevent : plan.Sees event) : plan.Watched (.emit event future) := by
  intro other hother
  rcases List.mem_cons.1 hother with rfl | hother
  · exact hevent
  · exact h other hother

private theorem Watched.pending {future : Future Event α} (h : plan.Watched future) (polls : Nat) :
    plan.Watched (.pending polls future) := by
  intro event hevent
  rw [Future.events_pending] at hevent
  exact h event hevent

private theorem watched_schedule {schedule : Schedule} (hschedule : schedule.Confined)
    {path : ResponsePath} {futures : List (Future Event Completion)}
    (h : ∀ future ∈ futures, plan.Watched future) : plan.Watched (schedule path futures) := by
  intro event hevent
  obtain ⟨future, hmem, hfuture⟩ := hschedule path futures event hevent
  exact h future hmem event hfuture

theorem confined_gather (buffering : Future.Buffering ResponsePath Event Completion) :
    Schedule.Confined (buffering.gather plan.limit) :=
  fun path futures _ => buffering.mem_events_gather path futures (Nat.le_max_right _ 1)

private theorem watched_wrapProducer {producer wrapped : Producer} (h : plan.Watched producer)
    {parent : Json} {uses : List DirectiveUse}
    (hwrapped : plan.wrapProducer producer parent uses = .ok wrapped) : plan.Watched wrapped :=
  fun event hevent => h event (Bindings.events_wrapProducer_subset hwrapped hevent)

private theorem watched_resolve {object : ObjectType}
    (hobject : plan.system.object? object.name = some object) {field : FieldDefinition}
    (hfield : object.field? field.name = some field) {uses : List Argument}
    {arguments : ArgumentValues} (hbound : plan.bindArguments field.arguments uses = .ok arguments)
    (parent : Json) (path : ResponsePath) :
    plan.Watched (plan.resolve object field parent arguments path) := by
  unfold resolve
  cases plan.schema.resolvers object.name field.name with
  | parent => exact watched_done _
  | custom answer =>
    have hfinished : plan.Watched (.emit (.finished path object.name field.name)
        (.done (answer path { fieldName := field.name, parent, arguments }))) :=
      (watched_done _).emit trivial
    have hpending := hfinished.pending (plan.delays object.name field.name path)
    exact hpending.emit ⟨object, field, uses, hobject, hfield, hbound⟩

private theorem watched_producer {object : ObjectType}
    (hobject : plan.system.object? object.name = some object) {field : FieldDefinition}
    (hfield : object.field? field.name = some field) {parent : Json} {node : FieldNode}
    {path : ResponsePath} {producer : Producer}
    (hproducer : plan.producer object field parent node path = .ok producer) :
    plan.Watched producer := by
  rw [Plan.producer, bind_eq_ok_iff] at hproducer
  obtain ⟨arguments, hbound, hwrapped⟩ := hproducer
  exact watched_wrapProducer (watched_resolve hobject hfield hbound parent path) hwrapped

private theorem watched_completeNamed {level : Level} (hlevel : plan.WatchedLevel level)
    (site : FieldSite)
    (name : String) (value : Json) (path : ResponsePath) :
    plan.Watched (plan.completeNamed level site name value path) := by
  unfold completeNamed
  split
  · exact watched_done _
  · next object hget =>
    have hobject := TypeSystem.object?_name (TypeSystem.object?_eq_some_iff.2 hget)
    exact hlevel object hobject _ value path
  · next type _ _ =>
    split
    · unfold completeAbstract
      cases hruntime : plan.runtimeType site type value path with
      | error message => exact watched_done _
      | ok object =>
        obtain ⟨⟨name, hobject⟩, -⟩ := possible_of_runtimeType hruntime
        exact hlevel object (TypeSystem.object?_name hobject) _ value path
    · cases plan.schema.leaf type value <;> exact watched_done _

private theorem watched_completeValue {schedule : Schedule} (hschedule : schedule.Confined)
    {level : Level}
    (hlevel : plan.WatchedLevel level) (site : FieldSite) (type : TypeExpr) (value : Json)
    (path : ResponsePath) :
    plan.Watched (plan.completeValue schedule level site type value path) := by
  induction type generalizing value path with
  | named name nullable =>
    rw [completeValue]
    split
    · exact watched_done _
    · exact (watched_completeNamed hlevel site name value path).bind (watched_done _)
  | list item nullable ih =>
    rw [completeValue]
    split
    · exact watched_done _
    · cases value.items? with
      | none => exact watched_done _
      | some items =>
        refine (watched_schedule hschedule fun future hmem => ?_).bind (watched_done _)
        obtain ⟨i, hi, rfl⟩ := List.mem_mapIdx.1 hmem
        exact ih _ _

private theorem watched_resolveTypename (object : ObjectType) (parent : Json) (node : FieldNode)
    (path : ResponsePath) : plan.Watched (plan.resolveTypename object parent node path) := by
  unfold resolveTypename
  split
  · exact watched_done _
  · next producer hproducer =>
    exact (watched_wrapProducer (watched_done _) hproducer).bind (watched_done _)

private theorem watched_resolveField {schedule : Schedule} (hschedule : schedule.Confined)
    {level : Level}
    (hlevel : plan.WatchedLevel level) {object : ObjectType}
    (hobject : plan.system.object? object.name = some object) (parent : Json)
    (path : ResponsePath) (group : FieldGroup) :
    plan.Watched (plan.resolveField schedule level object parent path group) := by
  unfold resolveField
  dsimp only
  split
  · exact watched_resolveTypename object parent _ _
  · split
    · exact watched_done _
    · next field hfield =>
      have hname : field.name = group.first.node.name := by simpa using List.find?_some hfield
      refine Watched.emit ?_ trivial
      split
      · exact watched_done _
      · next producer hproducer =>
        refine (watched_producer hobject (hname ▸ hfield) hproducer).bind ?_
        split
        · exact watched_done _
        · exact watched_completeValue hschedule hlevel _ field.type _ _

private theorem watchedLevel_levelAt {schedule : Schedule} (hschedule : schedule.Confined)
    (depth : Nat) :
    plan.WatchedLevel (plan.levelAt schedule depth) := by
  unfold levelAt
  induction depth with
  | zero => exact fun _ _ _ _ _ => watched_done _
  | succ depth ih =>
    intro object hobject selections value path
    rw [levelWith]
    split
    · exact watched_done _
    · refine (watched_schedule hschedule fun future hmem => ?_).bind (watched_done _)
      obtain ⟨group, -, rfl⟩ := List.mem_map.1 hmem
      exact watched_resolveField hschedule ih hobject value path group

private theorem watched_runUnder (buffering : Future.Buffering ResponsePath Event Completion)
    {schema : ExecutableSchema} {settings : Settings} {request : Request}
    (hplan : ofRequest schema settings request = .ok plan) :
    plan.Watched (plan.runUnder (buffering.gather plan.limit)) := by
  obtain ⟨hschema, -, hroot, haccepted⟩ := accepted_of_ofRequest hplan
  have hobject : plan.system.object? plan.rootType.name = some plan.rootType := by
    rw [Scope.system, hschema]
    exact TypeSystem.object?_name hroot
  have hconfined : Schedule.Confined (buffering.gather plan.limit) := confined_gather buffering
  have hlevel : plan.WatchedLevel (plan.levelAt _ plan.depth) :=
    watchedLevel_levelAt hconfined plan.depth
  rw [runUnder_eq haccepted.root]
  exact (hlevel plan.rootType hobject _ plan.root []).bind (watched_done _)

end

end Plan

/-- Resolvers and directives only ever see well-typed arguments: each resolver that a run starts,
each directive whose predicate or hook is asked. What resolvers, predicates and hooks do with any
other arguments does not show in an execution. -/
theorem arguments_wellTyped {draft : SchemaDraft} {schema : ExecutableSchema}
    (hfinish : draft.finish = .ok schema) (htranslator : schema.translator = .standard)
    (settings : Settings) (request : Request)
    (buffering : Future.Buffering ResponsePath Event Completion) :
    (∀ path object context,
      .started path object context ∈ (executeUnder buffering schema settings request).events →
        ∃ type field, schema.object? object = some type ∧
          type.field? context.fieldName = some field ∧
          WellTyped schema.toTypeSystem field.arguments context.arguments) ∧
    (∀ values location uses directives,
      Bindings.bindDirectives { schema := schema.toSchema, values } location uses =
          .ok directives →
        ∀ directive ∈ directives, directive.spec ∈ schema.directives ∧
          WellTyped schema.toTypeSystem directive.spec.arguments directive.arguments) ∧
    ∀ other, schema.Agrees (WellTyped schema.toTypeSystem) other →
      (executeUnder buffering other settings request).value =
        (executeUnder buffering schema settings request).value := by
  have hensures := ensures_wellTyped hfinish htranslator
  refine ⟨?_, ?_, ?_⟩
  · intro path object context hevent
    unfold executeUnder at hevent
    cases hplan : Plan.ofRequest schema settings request with
    | error fault =>
      rw [hplan] at hevent
      cases hevent
    | ok plan =>
      rw [hplan] at hevent
      obtain ⟨type, field, uses, hobject, hfield, hbound⟩ :=
        Plan.watched_runUnder buffering hplan _ hevent
      obtain ⟨hschema, -⟩ := Plan.accepted_of_ofRequest hplan
      rw [Scope.system, hschema] at hobject
      have hdeclares : schema.toSchema.Declares field.arguments :=
        .field (TypeSystem.mem_of_object? hobject) (List.mem_of_find?_eq_some hfield)
      refine ⟨type, field, hobject, hfield, hensures plan.values _ uses _ hdeclares ?_⟩
      rw [← hschema]
      exact hbound
  · intro values location uses directives hbound directive hmem
    obtain ⟨use, -, huse⟩ := exists_of_mem_right (mapM_eq_ok_iff.1 hbound) hmem
    obtain ⟨spec, arguments, hspec, -, harguments, rfl⟩ := Bindings.bindDirective_eq_ok_iff.1 huse
    have hdeclared : spec ∈ schema.directives := List.mem_of_find?_eq_some hspec
    exact ⟨hdeclared, hensures values _ _ _ (.directive hdeclared) harguments⟩
  · exact fun other hagrees =>
      value_executeUnder_of_agrees hagrees hensures rfl buffering buffering request

def countParameters : List Parameter :=
  [⟨"limit", .named "Int" false, some (.number (.int 3)), none⟩,
    ⟨"sizes", .list (.named "Size" false) false, none, none⟩,
    ⟨"label", .named "String" true, none, none⟩]

def countQuery : ObjectType := ⟨"Query", [⟨"count", .named "Int" true, countParameters⟩], []⟩

/-- A schema that counts boxes with a resolver of its own. -/
def countDraft : SchemaDraft :=
  [.enum ⟨"Size", ["SMALL", "LARGE"]⟩, .object countQuery].foldl SchemaDraft.register
    (.new "Query")
    |>.resolve "Query" "count" { answer := fun _ _ => .ok (.number (.int 0)), polls := fun _ => 2 }

def countSchema : ExecutableSchema :=
  { toTypeSystem := countDraft.typeSystem
    resolvers := countDraft.resolvers
    directives := DirectiveSpec.builtins
    translator := .standard
    delays := countDraft.delays }

/-- The request `query ($size: Size!) { count(sizes: [SMALL, $size]) }` for large boxes. -/
def countRequest : Request :=
  let sizes : Argument := ⟨"sizes", .list [.enum "SMALL", .variable "size"], ⟨1, 38⟩⟩
  { document :=
      { operations := .single ⟨⟨1, 1⟩, .query,
          [⟨⟨1, 8⟩, "size", .named "Size" false, ⟨1, 15⟩, [], none⟩], [],
          [.field ⟨⟨1, 24⟩, none, "count", [sizes], []⟩ []]⟩
        fragments := [] }
    operationName := none
    inputs := Variables.empty.insert "size" (.string "LARGE")
    root := .null }

def countContext : ResolverContext :=
  { fieldName := "count"
    parent := .null
    arguments := [("limit", .number (.int 3)), ("sizes", .list [.enum "SMALL", .enum "LARGE"]),
      ("label", .null)] }

/-- The resolver gets a default, a list with a variable inside, and a null for what is left out. -/
theorem wellTyped_countContext :
    .started [.field "count"] "Query" countContext ∈
        (executeUnder (.rounds ..) countSchema .default countRequest).events ∧
      WellTyped countSchema.toTypeSystem countParameters countContext.arguments := by
  have hevents : (executeUnder (.rounds ..) countSchema .default countRequest).events =
      [.resolving [.field "count"] "Query" "count",
        .started [.field "count"] "Query" countContext,
        .finished [.field "count"] "Query" "count"] := rfl
  have hstarted : .started [.field "count"] "Query" countContext ∈
      (executeUnder (.rounds ..) countSchema .default countRequest).events := by
    rw [hevents]
    exact List.mem_cons_of_mem _ List.mem_cons_self
  have hfinish : countDraft.finish = .ok countSchema := rfl
  obtain ⟨hresolvers, -⟩ := arguments_wellTyped hfinish rfl .default countRequest (.rounds ..)
  obtain ⟨type, field, hobject, hfield, htyped⟩ := hresolvers _ _ _ hstarted
  obtain rfl : countQuery = type := Option.some.inj hobject
  obtain rfl : ⟨"count", .named "Int" true, countParameters⟩ = field := Option.some.inj hfield
  exact ⟨hstarted, htyped⟩

end GraphQuery
