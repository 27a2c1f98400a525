import GraphQuery.Proofs.Completion.Invocations
import GraphQuery.Proofs.Completion.Reached
import GraphQuery.Proofs.Completion.RenamedPlaces
import GraphQuery.Proofs.Future.Lockstep

/-!
# Executions under renamed keys

A request whose fields have other response keys, one for each old one. Main statement: it has the
same response but for the keys of its data and of the paths of its errors, or it fails with the same
fault, and its run starts the same resolvers in the same order.
-/

namespace GraphQuery

variable {r : String → String}

def Event.renamed (r : String → String) : Event → Event
  | .resolving path object field => .resolving (path.renamed r) object field
  | .started path object context => .started (path.renamed r) object context
  | .finished path object field => .finished (path.renamed r) object field

/-- Resolvers take as long at renamed paths. -/
def Delays.Renames (r : String → String) (delays delays' : Delays) : Prop :=
  ∀ type field path, delays' type field (ResponsePath.renamed r path) = delays type field path

/-- Both futures wait alike, and what happens in the second happens under renamed keys. -/
def Future.Renames {α β : Type} (r : String → String) (S : α → β → Prop) :
    Future Event α → Future Event β → Prop :=
  Lockstep (fun event event' => event' = event.renamed r) S

/-- Producers in lockstep have the same answer. -/
def Producer.Renames (r : String → String) (producer producer' : Producer) : Prop :=
  Future.Renames r Eq producer producer'

private theorem Producer.Renames.apply {producer producer' : Producer}
    (h : Producer.Renames r producer producer') (action : HookAction) :
    Producer.Renames r (action.apply producer) (action.apply producer') := by
  cases action with
  | reply reply => exact (Future.Lockstep.done rfl).pending reply.polls
  | run polls resume =>
    refine Future.Lockstep.pending (Future.Lockstep.bind h fun answer answer' hanswer => ?_) polls
    subst hanswer
    exact (Future.Lockstep.done rfl).pending _

private theorem Producer.Renames.wrap {producer producer' : Producer}
    (h : Producer.Renames r producer producer') (spec : DirectiveSpec) (parent : Json)
    (arguments : ArgumentValues) :
    Producer.Renames r (spec.wrap producer parent arguments)
      (spec.wrap producer' parent arguments) := by
  unfold DirectiveSpec.wrap
  cases spec.hook with
  | none => exact h
  | some hook => exact h.apply _

private theorem Producer.Renames.wrapProducer {producer producer' : Producer}
    (h : Producer.Renames r producer producer') (bindings : Bindings) (parent : Json)
    (uses : List DirectiveUse) :
    Related (Producer.Renames r) (bindings.wrapProducer producer parent uses)
      (bindings.wrapProducer producer' parent uses) := by
  unfold Bindings.wrapProducer
  cases bindings.bindDirectives .field uses with
  | error fault => exact .error
  | ok directives =>
    refine .ok ?_
    induction directives generalizing producer producer' with
    | nil => exact h
    | cons directive rest ih => exact ih (h.wrap directive.spec parent directive.arguments)

namespace Plan

/-- The plan of a document whose fields have renamed keys, with resolvers that take other times. -/
def renamedWith (r : String → String) (plan : Plan) (delays : Delays) : Plan :=
  { plan.renamed r with delays }

section

variable {plan : Plan} (hpure : plan.schema.toBoundSystem.Pure) {delays : Delays}
  (hdelays : plan.delays.Renames r delays)

include hpure hdelays

private theorem renames_resolve (object : ObjectType) (field : FieldDefinition) (parent : Json)
    (arguments : ArgumentValues) (path : ResponsePath) :
    Producer.Renames r (plan.resolve object field parent arguments path)
      ((plan.renamedWith r delays).resolve object field parent arguments (path.renamed r)) := by
  have hschema : (plan.renamedWith r delays).schema = plan.schema := rfl
  have htaken : (plan.renamedWith r delays).delays = delays := rfl
  unfold resolve
  rw [hschema, htaken]
  cases hresolver : plan.schema.resolvers object.name field.name with
  | parent => exact .done rfl
  | custom answer =>
    refine .emit rfl ?_
    rw [hdelays]
    refine Future.Lockstep.pending ?_ _
    refine .emit rfl (.done ?_)
    rw [hpure.resolvers _ _ answer hresolver path (path.renamed r)]

private theorem renames_producer (object : ObjectType) (field : FieldDefinition) (parent : Json)
    (node : FieldNode) (path : ResponsePath) :
    Related (Producer.Renames r) (plan.producer object field parent node path)
      ((plan.renamedWith r delays).producer object field parent (node.renamed r)
        (path.renamed r)) := by
  refine (Related.of_eq rfl).bind fun arguments arguments' hsame => ?_
  obtain rfl : arguments = arguments' := hsame
  exact (renames_resolve hpure hdelays object field parent arguments path).wrapProducer _ parent _

omit hpure hdelays

/-- Futures of completions in lockstep, whatever values they have. -/
def RenamesRun (r : String → String) (run run' : Future Event Completion) : Prop :=
  Future.Renames r (fun _ _ => True) run run'

/-- Levels that complete an object in lockstep after selections and their renamed ones. -/
def RenamesLevel (r : String → String) (level level' : Level) : Prop :=
  ∀ object selections value path, RenamesRun r (level object selections value path)
    (level' object (selections.map (Selection.renamedAll r)) value (path.renamed r))

private theorem renamesRun_done (completion completion' : Completion) :
    RenamesRun r (.done completion) (.done completion') := .done trivial

private theorem RenamesRun.bind_done {run run' : Future Event Completion}
    (h : RenamesRun r run run')
    (f f' : Completion → Completion) :
    RenamesRun r (run.bind fun completion => .done (f completion))
      (run'.bind fun completion => .done (f' completion)) :=
  Future.Lockstep.bind h fun _ _ _ => renamesRun_done _ _

private theorem renamesRun_siblings (limit : Nat) {runs runs' : List (Future Event Completion)}
    (h : List.Forall₂ (RenamesRun r) runs runs') (f f' : List Completion → Completion) :
    RenamesRun r ((Future.buffered limit runs).bind fun completions => .done (f completions))
      ((Future.buffered limit runs').bind fun completions => .done (f' completions)) :=
  (Future.lockstep_buffered limit h).bind fun _ _ _ => renamesRun_done _ _

section

variable {level level' : Level}

include hpure in
private theorem renamesRun_completeNamed (hlevel : RenamesLevel r level level') (site : FieldSite)
    (name : String) (value : Json) (path : ResponsePath) :
    RenamesRun r (plan.completeNamed level site name value path)
      ((plan.renamedWith r delays).completeNamed level' (site.renamed r) name value
        (path.renamed r)) := by
  have hsystem : (plan.renamedWith r delays).system = plan.system := rfl
  have hruntime (type : TypeDefinition) (hget : plan.system.get? name = some type) :
      (plan.renamedWith r delays).runtimeType (site.renamed r) type value (path.renamed r) =
        plan.runtimeType site type value path :=
    runtimeType_of_pure hpure hget site value (path.renamed r) path
  unfold completeNamed completeAbstract
  simp only [hsystem]
  cases hget : plan.system.get? name with
  | none => exact renamesRun_done _ _
  | some type =>
    cases type with
    | object object => exact hlevel object site.selections value path
    | interface type | union type =>
      simp only [TypeDefinition.isAbstract, if_true, hruntime _ hget]
      cases plan.runtimeType site _ value path with
      | ok object => exact hlevel object site.selections value path
      | error message => exact renamesRun_done _ _
    | enum type | scalar type =>
      simp only [TypeDefinition.isAbstract, Bool.false_eq_true, if_false]
      have hschema : (plan.renamedWith r delays).schema = plan.schema := rfl
      rw [hschema]
      cases plan.schema.leaf _ value <;> exact renamesRun_done _ _

include hpure in
private theorem renamesRun_completeValue (hlevel : RenamesLevel r level level') (site : FieldSite)
    (type : TypeExpr) (value : Json) (path : ResponsePath) :
    RenamesRun r (plan.completeValue plan.schedule level site type value path)
      ((plan.renamedWith r delays).completeValue plan.schedule level' (site.renamed r) type value
        (path.renamed r)) := by
  induction type generalizing value path with
  | named name nullable =>
    rw [completeValue, completeValue]
    split
    · exact renamesRun_done _ _
    · exact (renamesRun_completeNamed hpure hlevel site name value path).bind_done _ _
  | list item nullable ih =>
    rw [completeValue, completeValue]
    split
    · exact renamesRun_done _ _
    · cases value.items? with
      | none => exact renamesRun_done _ _
      | some items =>
        refine renamesRun_siblings plan.limit ?_ _ _
        rw [forall₂_iff_getElem?]
        refine ⟨by simp, fun i run run' hrun hrun' => ?_⟩
        rw [List.getElem?_mapIdx, Option.map_eq_some_iff] at hrun hrun'
        obtain ⟨held, hheld, rfl⟩ := hrun
        obtain ⟨held', hheld', rfl⟩ := hrun'
        obtain rfl := Option.some.inj (hheld.symm.trans hheld')
        have hitem := ih held (path.child (.index i))
        rwa [ResponsePath.renamed_child] at hitem

private theorem renamesRun_resolveTypename (object : ObjectType) (parent : Json) (node : FieldNode)
    (path : ResponsePath) :
    RenamesRun r (plan.resolveTypename object parent node path)
      ((plan.renamedWith r delays).resolveTypename object parent (node.renamed r)
        (path.renamed r)) := by
  have hname : Producer.Renames r (.done (.ok (.string object.name)))
      (.done (.ok (.string object.name))) := .done rfl
  have hwrapped := hname.wrapProducer plan.toBindings parent node.directives
  have hwrap : (plan.renamedWith r delays).wrapProducer (.done (.ok (.string object.name))) parent
      (node.renamed r).directives =
    plan.wrapProducer (.done (.ok (.string object.name))) parent node.directives := rfl
  unfold resolveTypename
  rw [hwrap]
  generalize plan.wrapProducer _ parent node.directives = wrapped at hwrapped
  cases hwrapped with
  | error => exact renamesRun_done _ _
  | ok hproducer => exact Future.Lockstep.bind hproducer fun _ _ _ => renamesRun_done _ _

include hpure hdelays in
private theorem renamesRun_resolveField (hlevel : RenamesLevel r level level') (object : ObjectType)
    (parent : Json) (path : ResponsePath) (group : FieldGroup) :
    RenamesRun r (plan.resolveField plan.schedule level object parent path group)
      ((plan.renamedWith r delays).resolveField plan.schedule level' object parent (path.renamed r)
        (group.renamed r)) := by
  have hpath : (path.renamed r).child (.field (group.renamed r).key) =
      (path.child (.field group.key)).renamed r :=
        (ResponsePath.renamed_child path (.field group.key)).symm
  have hnode : (group.renamed r).first.node = group.first.node.renamed r := rfl
  have hname : (group.first.node.renamed r).name = group.first.node.name := rfl
  unfold resolveField
  simp only [hpath, hnode, hname]
  split
  · exact renamesRun_resolveTypename object parent group.first.node _
  · split
    · exact renamesRun_done _ _
    · next field _ =>
      have hproducer := renames_producer hpure hdelays object field parent group.first.node
        (path.child (.field group.key))
      refine .emit rfl ?_
      generalize plan.producer object field parent group.first.node _ = producer at hproducer
      generalize (plan.renamedWith r delays).producer object field parent _ _ = producer'
        at hproducer
      cases hproducer with
      | error => exact renamesRun_done _ _
      | ok hproducer =>
        refine Future.Lockstep.bind hproducer fun answer answer' hanswer => ?_
        subst hanswer
        cases answer with
        | error fault => exact renamesRun_done _ _
        | ok value =>
          rw [FieldGroup.selections_renamed]
          exact renamesRun_completeValue hpure hlevel
            ⟨object.name, field.name, group.first.node.position, group.selections⟩ field.type value
            _

include hpure hdelays in
private theorem renamesLevel_levelAt (hr : r.Injective) (depth : Nat) :
    RenamesLevel r (plan.levelAt plan.schedule depth)
      ((plan.renamedWith r delays).levelAt plan.schedule depth) := by
  unfold levelAt
  induction depth with
  | zero => exact fun _ _ _ _ => renamesRun_done _ _
  | succ depth ih =>
    intro object selections value path
    have hcollect : (plan.renamedWith r delays).collect object.name _ = _ :=
      Scope.collect_renamed hr object.name selections
    rw [levelWith, levelWith, hcollect]
    cases plan.collect object.name selections with
    | error fault => exact renamesRun_done _ _
    | ok groups =>
      refine renamesRun_siblings plan.limit ?_ _ _
      rw [List.map_map, List.forall₂_map_left_iff, List.forall₂_map_right_iff]
      exact List.forall₂_same.2 fun group _ =>
        renamesRun_resolveField hpure hdelays ih object value path group

include hpure hdelays in
private theorem events_run_renamed (hr : r.Injective) (haccepted : plan.Accepted) :
    (plan.renamedWith r delays).run.events = plan.run.events.map (Event.renamed r) := by
  have hroot : rootTypeOf (plan.renamedWith r delays).system
      (plan.renamedWith r delays).operation = .ok plan.rootType := haccepted.root
  have hlevel : RenamesRun r _ _ := renamesLevel_levelAt hpure hdelays hr plan.depth plan.rootType
    [plan.operation.selections] plan.root []
  have hrun : Future.Renames r (fun _ _ => True) plan.run (plan.renamedWith r delays).run := by
    rw [run, run, runUnder_eq haccepted.root, runUnder_eq hroot]
    exact Future.Lockstep.bind hlevel fun _ _ _ => .done trivial
  have hevents := map_eq_of_forall₂ (f := Event.renamed r) (g := id) hrun.events fun _ _ h => h
  rwa [List.map_id] at hevents

end

end

end Plan

def Response.renamed (r : String → String) (levels : ResponsePath → Bool) (response : Response) :
    Response :=
  { data := response.data.map (Value.renamed r levels · [])
    errors := response.errors.map (ResponseError.renamed r) }

/-- Requests that select an operation and the operation with renamed keys, with the same variables
and the same root value. The fragments that the second one reaches are those of the first with
renamed keys. -/
structure Request.Renames (r : String → String) (operation : Operation) (request other : Request) :
    Prop where
  selects : request.document.operations.select request.operationName = .ok operation
  selects' : other.document.operations.select other.operationName = .ok (operation.renamed r)
  fragments : (operation.renamed r).SameFragments
    (request.document.fragments.map (Fragment.renamed r)) other.document.fragments
  inputs : other.inputs = request.inputs
  root : other.root = request.root

/-- Where the response to a request is made of selections, if the request is accepted. -/
def Request.levels (request : Request) (schema : ExecutableSchema) (settings : Settings)
    (path : ResponsePath) : Bool :=
  match Plan.ofRequest schema settings request with
  | .error _ => false
  | .ok plan => plan.isLevel path

/-- The request for the operation with renamed keys in the document with renamed keys. -/
def Request.renamed (r : String → String) (operation : Operation) (request : Request) : Request :=
  { request with
    document :=
      { operations := .single (operation.renamed r)
        fragments := request.document.fragments.map (Fragment.renamed r) }
    operationName := none }

private theorem Request.Renames.agreeOn {operation : Operation} {request other : Request}
    (h : request.Renames r operation other) :
    (request.renamed r operation).AgreeOn (operation.renamed r) other :=
  ⟨rfl, h.selects', h.fragments, fun definition _ =>
    congrArg (Variables.get? · definition.name) h.inputs, h.root⟩

namespace Plan

section

variable {schema : ExecutableSchema} {settings : Settings} {operation : Operation}
  {request : Request}

private theorem ofRequest_renamed
    (hselects : request.document.operations.select request.operationName = .ok operation) :
    ofRequest schema settings (request.renamed r operation) =
      Plan.renamed r <$> ofRequest schema settings request := by
  have hselected {β : Type} (next : Operation → Except ExecutionFault β) :
      ((Except.ok operation).mapError ExecutionFault.validation >>= next) = next operation := rfl
  have hselected' {β : Type} (next : Operation → Except ExecutionFault β) :
      ((Except.ok (operation.renamed r)).mapError ExecutionFault.validation >>= next) =
        next (operation.renamed r) := rfl
  have hrenamed : (request.renamed r operation).document.operations.select
      (request.renamed r operation).operationName = .ok (operation.renamed r) := rfl
  simp only [ofRequest_eq, hselects, hrenamed, hselected, hselected', map_bind, map_pure]
  refine bind_congr fun rootType => bind_congr fun values => bind_congr fun _ => ?_
  refine bind_congr fun _ => ?_
  have hdepth := Scope.depth_renamed r ⟨⟨schema.toSchema, values⟩, request.document.fragments⟩
    (.object rootType) operation.selections
  exact congrArg (· >>= _) hdepth

private theorem respond_renamed (levels : ResponsePath → Bool) (completion : Completion) :
    respond (completion.renamed r levels []) =
      Response.renamed r levels <$> respond completion := by
  obtain ⟨outcome, errors⟩ := completion
  rcases outcome with (_ | fault) | value <;> rfl

/-- Runs under renamed keys have the same response, with renamed keys. -/
theorem value_runUnder_renamed (hr : r.Injective) {plan : Plan}
    (hpure : plan.schema.toBoundSystem.Pure)
    (hplan : ofRequest schema settings request = .ok plan)
    (hrenamed : ofRequest schema settings (request.renamed r operation) = .ok (plan.renamed r))
    (buffering buffering' : Future.Buffering ResponsePath Event Completion) :
    ((plan.renamed r).runUnder (buffering'.gather (plan.renamed r).limit)).value =
      Response.renamed r plan.isLevel <$> (plan.runUnder (buffering.gather plan.limit)).value := by
  obtain ⟨-, -, -, haccepted⟩ := accepted_of_ofRequest hplan
  obtain ⟨-, -, -, haccepted'⟩ := accepted_of_ofRequest hrenamed
  obtain ⟨completion, hcompletes, hrun⟩ := completes_runUnder buffering haccepted
  obtain ⟨completion', hcompletes', hrun'⟩ := completes_runUnder buffering' haccepted'
  have hsame : completion' = completion.renamed r plan.isLevel [] :=
    (hcompletes.renamed hr hpure rfl).eq hcompletes'
  rw [hrun, hrun', hsame, respond_renamed]

end

end Plan

/-- Response keys are only names. Let every field of an operation and of the fragments that it
reaches get another key, one for each old one, and let resolvers answer the same wherever they are
asked. Then a request fails with the same fault as before, or it has the same response but for the
keys: those of the objects on which selections are made, in the same order, and those in the paths
of errors. What stands in leaves does not change. This holds however siblings are interleaved, and
resolvers that take as long as before are started in the same order as before, on the same objects
and with the same arguments. -/
theorem execute_renamed (hr : r.Injective) {operation : Operation} {request other : Request}
    (h : request.Renames r operation other) (schema : ExecutableSchema)
    (hpure : schema.toBoundSystem.Pure) (settings : Settings) :
    (∀ buffering buffering' : Future.Buffering ResponsePath Event Completion,
      (executeUnder buffering' schema settings other).value =
        Response.renamed r (request.levels schema settings) <$>
          (executeUnder buffering schema settings request).value) ∧
    ∀ delays, schema.delays.Renames r delays →
      (execute { schema with delays } settings other).events =
        (execute schema settings request).events.map (Event.renamed r) := by
  have haccepted : Plan.ofRequest schema settings (request.renamed r operation) =
      Plan.renamed r <$> Plan.ofRequest schema settings request := Plan.ofRequest_renamed h.selects
  constructor
  · intro buffering buffering'
    have hlevels : request.levels schema settings = fun path =>
        match Plan.ofRequest schema settings request with
        | .error _ => false
        | .ok plan => plan.isLevel path := rfl
    rw [executeUnder_of_agreeOn h.agreeOn, executeUnder, executeUnder, haccepted, hlevels]
    cases hplan : Plan.ofRequest schema settings request with
    | error fault => rfl
    | ok plan =>
      rw [hplan] at haccepted
      have hschema : plan.schema = schema.toSchema := (Plan.accepted_of_ofRequest hplan).1
      exact Plan.value_runUnder_renamed hr (hschema ▸ hpure) hplan haccepted buffering buffering'
  · intro delays hdelays
    have hother : Plan.ofRequest { schema with delays } settings
        (request.renamed r operation) = (fun plan => { plan with delays }) <$>
          Plan.ofRequest schema settings (request.renamed r operation) :=
      Plan.ofRequest_congr rfl
    rw [← executeUnder_rounds, executeUnder_of_agreeOn h.agreeOn, executeUnder_rounds, execute,
      execute, hother, haccepted]
    cases hplan : Plan.ofRequest schema settings request with
    | error fault => rfl
    | ok plan =>
      obtain ⟨hschema, htaken, -, hfound⟩ := Plan.accepted_of_ofRequest hplan
      exact Plan.events_run_renamed (hschema ▸ hpure) (htaken ▸ hdelays) hr hfound

def markedKey (key : String) : String := "my " ++ key

private theorem markedKey_injective : markedKey.Injective :=
  fun _ _ h => String.append_right_inj _ |>.1 h

/-- The request for boxes in which every key is marked. -/
def markedWatchedRequest : Request := watchedRequest.renamed markedKey watchedOperation

private theorem pure_watchedSchema : watchedSchema.toBoundSystem.Pure := by
  constructor
  · intro type field answer hresolver path path'
    unfold watchedSchema at hresolver
    dsimp only at hresolver
    split at hresolver
    · cases hresolver
    · rw [← Resolver.custom.inj hresolver]
      rfl
  · intro type hmem resolve hresolve
    have hnone : watchedSchema.types.all fun type => type.typeResolver?.isNone := rfl
    have htype := List.all_eq_true.1 hnone type hmem
    rw [hresolve] at htype
    cases htype

theorem execute_markedWatchedRequest :
    watchedRequest.Renames markedKey watchedOperation markedWatchedRequest ∧
      (fun response => (response.data.map Value.text, response.errors.map ResponseError.path)) <$>
          (execute watchedSchema .default markedWatchedRequest).value =
        .ok (some "\x7bmy boxes: [null, \x7bmy size: 2, my label: null\x7d], my count: 3\x7d",
          [some [.field "my boxes", .index 0, .field "my size"],
            some [.field "my boxes", .index 1, .field "my label"]]) ∧
      (executeUnder (.rounds ..) watchedSchema .default markedWatchedRequest).value =
        Response.renamed markedKey (watchedRequest.levels watchedSchema .default) <$>
          (executeUnder (.rounds ..) watchedSchema .default watchedRequest).value ∧
      (execute watchedSchema .default markedWatchedRequest).events =
        (execute watchedSchema .default watchedRequest).events.map (Event.renamed markedKey) := by
  have hrenames : watchedRequest.Renames markedKey watchedOperation markedWatchedRequest :=
    ⟨rfl, rfl, fun _ _ => rfl, rfl, rfl⟩
  obtain ⟨hvalue, hevents⟩ :=
    execute_renamed markedKey_injective hrenames watchedSchema pure_watchedSchema .default
  exact ⟨hrenames, by decide +kernel, hvalue _ _, hevents _ fun _ _ _ => rfl⟩

end GraphQuery
