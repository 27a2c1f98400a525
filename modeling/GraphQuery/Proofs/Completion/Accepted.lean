import GraphQuery.Proofs.Completion.Completes
import GraphQuery.Proofs.Selection.Valid

/-!
# Accepted plans

What the acceptance of a request says of its plan, and what the execution of the plan returns.
Main statement: whatever an execution returns, it is the response of a completion of the root.
-/

namespace GraphQuery

namespace Plan

section

variable {schema : ExecutableSchema} {settings : Settings} {request : Request} {plan : Plan}

theorem rootTypeOf_eq_ok {system : TypeSystem} {operation : Operation} {root : ObjectType}
    (h : rootTypeOf system operation = .ok root) : system.query? = some root := by
  unfold rootTypeOf at h
  split at h
  · split at h
    · next hquery => rw [hquery, Except.ok.inj h]
    · cases h
  · cases h

theorem get?_of_rootTypeOf {system : TypeSystem} {operation : Operation} {root : ObjectType}
    (h : rootTypeOf system operation = .ok root) :
    system.get? root.name = some (.object root) := by
  have hquery := TypeSystem.object?_eq_some_iff.1 (rootTypeOf_eq_ok h)
  have hname : root.name = system.queryType := TypeSystem.name_of_get? hquery
  rw [hname]
  exact hquery

/-- The walk does not miss the root that it has found. -/
theorem walk_eq {scope : Scope} {operation : Operation} {root : ObjectType}
    (h : rootTypeOf scope.system operation = .ok root) (settings : Settings) :
    walk scope settings operation = (do
      let depth ← scope.depth (.object root) operation.selections
      (checkDepth settings operation depth).mapError .validation
      pure depth) := by
  rw [walk, h]
  simp only [Except.mapError, bind, Except.bind, get?_of_rootTypeOf h]

/-- How requests are accepted, with the root looked up once. -/
theorem ofRequest_eq (schema : ExecutableSchema) (settings : Settings) (request : Request) :
    ofRequest schema settings request = (do
      let operation ←
        (request.document.operations.select request.operationName).mapError .validation
      let rootType ← (rootTypeOf schema.toTypeSystem operation).mapError .validation
      let values ← request.inputs.coerce schema.toSchema operation.definitions
      let scope : Scope :=
        { schema := schema.toSchema, values, fragments := request.document.fragments }
      let _ ← scope.bindDirectives .query operation.directives
      operation.definitions.forM fun definition => do
        let _ ← scope.bindDirectives .variableDefinition definition.directives
      let depth ← scope.depth (.object rootType) operation.selections
      (checkDepth settings operation depth).mapError .validation
      pure
        { toScope := scope
          delays := schema.delays
          settings
          operation
          rootType
          root := request.root
          depth }) := by
  unfold ofRequest
  refine bind_congr fun operation => bind_congr_of_ok fun rootType hroot => ?_
  refine bind_congr fun values => bind_congr fun _ => bind_congr fun _ => ?_
  have hroot : rootTypeOf (Scope.system ⟨⟨schema.toSchema, values⟩, request.document.fragments⟩)
      operation = .ok rootType := mapError_eq_ok_iff.1 hroot
  rw [walk_eq hroot]
  simp only [bind_assoc, pure_bind]

/-- The plan of an accepted request: its root is found again, and the walk from there has found how
deep its operation is. -/
structure Accepted (plan : Plan) : Prop where
  root : rootTypeOf plan.system plan.operation = .ok plan.rootType
  depth : plan.toScope.depth (.object plan.rootType) plan.operation.selections = .ok plan.depth

theorem accepted_of_ofRequest (h : ofRequest schema settings request = .ok plan) :
    plan.schema = schema.toSchema ∧ plan.delays = schema.delays ∧
      schema.query? = some plan.rootType ∧ plan.Accepted := by
  simp only [ofRequest_eq, bind_eq_ok_iff, mapError_eq_ok_iff, pure_eq_ok_iff] at h
  obtain ⟨operation, -, rootType, hroot, values, -, _, -, _, -, depth, hdepth, _, -, rfl⟩ := h
  exact ⟨rfl, rfl, rootTypeOf_eq_ok hroot, ⟨hroot, hdepth⟩⟩

theorem runUnder_eq (hroot : rootTypeOf plan.system plan.operation = .ok plan.rootType)
    (schedule : Schedule) :
    plan.runUnder schedule =
      (plan.levelAt schedule plan.depth plan.rootType [plan.operation.selections] plan.root
        []).bind fun completion => .done (respond completion) := by
  rw [runUnder, runWith, hroot]
  rfl

theorem settings_of_ofRequest (h : ofRequest schema settings request = .ok plan) :
    plan.settings = settings ∧ plan.root = request.root := by
  simp only [ofRequest, bind_eq_ok_iff, mapError_eq_ok_iff, pure_eq_ok_iff] at h
  obtain ⟨operation, -, _, -, values, -, _, -, _, -, depth, -, rfl⟩ := h
  exact ⟨rfl, rfl⟩

theorem ofRequest_congr {other : ExecutableSchema} (hschema : other.toSchema = schema.toSchema) :
    ofRequest other settings request =
      (fun plan => { plan with delays := other.delays }) <$>
        ofRequest schema settings request := by
  obtain ⟨same, delays⟩ := other
  obtain rfl : same = schema.toSchema := hschema
  simp only [ofRequest, map_bind, map_pure]

theorem fits_operation (haccepted : plan.Accepted) :
    plan.Fits plan.depth [plan.operation.selections] := by
  intro list hlist
  rw [List.mem_singleton.1 hlist]
  exact ⟨_, Scope.valid_of_depth_eq_ok haccepted.depth⟩

theorem respond_absorb (completion : Completion) :
    respond (completion.absorb true) = respond completion := by
  obtain ⟨outcome, errors⟩ := completion
  cases outcome with
  | ok value => rfl
  | error abort => cases abort <;> rfl

/-- The run of an accepted plan returns the response of a completion of the root, in whichever
order its resolvers end. -/
theorem completes_runUnder (buffering : Future.Buffering ResponsePath Event Completion)
    (haccepted : plan.Accepted) :
    ∃ completion, plan.Completes plan.rootPlace [] completion ∧
      (plan.runUnder (buffering.gather plan.limit)).value = respond completion := by
  have hordered : Schedule.Ordered (buffering.gather plan.limit) := ordered_gather buffering
  have h := sound_levelAt hordered plan.depth plan.rootPlace _ _ _ [] .level
    (fits_operation haccepted)
  refine ⟨_, h, ?_⟩
  rw [rootPlace, Place.nullable, respond_absorb, runUnder_eq haccepted.root, Future.value_bind]
  rfl

theorem Completes.exists_data {completion : Completion}
    (h : plan.Completes plan.rootPlace [] completion) {response : Response}
    (hresponse : respond completion = .ok response) :
    ∃ data, completion.outcome = .ok data ∧
      response = { data := some data, errors := completion.errors } := by
  have hnull := h.not_propagates rfl
  unfold respond at hresponse
  cases houtcome : completion.outcome with
  | ok data =>
    rw [houtcome] at hresponse
    exact ⟨data, rfl, (Except.ok.inj hresponse).symm⟩
  | error abort =>
    cases abort with
    | nullPropagation => exact absurd houtcome hnull
    | fatal fault => simp [houtcome] at hresponse

theorem completes_run (haccepted : plan.Accepted) :
    ∃ completion, plan.Completes plan.rootPlace [] completion ∧
      plan.run.value = respond completion :=
  completes_runUnder (.rounds ..) haccepted

end

end Plan

/-- What an execution returns is made of a completion of the root of an accepted plan. -/
theorem exists_completes_of_execute {schema : ExecutableSchema} {settings : Settings}
    {request : Request} {response : Response}
    (h : (execute schema settings request).value = .ok response) :
    ∃ plan completion data, Plan.ofRequest schema settings request = .ok plan ∧
      plan.Completes plan.rootPlace [] completion ∧ completion.outcome = .ok data ∧
      response = { data := some data, errors := completion.errors } := by
  unfold execute at h
  cases hplan : Plan.ofRequest schema settings request with
  | error fault => simp [hplan, Future.value] at h
  | ok plan =>
    rw [hplan] at h
    obtain ⟨-, -, -, haccepted⟩ := Plan.accepted_of_ofRequest hplan
    obtain ⟨completion, hcompletes, hrun⟩ := Plan.completes_run haccepted
    rw [hrun] at h
    obtain ⟨data, houtcome, hresponse⟩ := hcompletes.exists_data h
    exact ⟨plan, completion, data, rfl, hcompletes, houtcome, hresponse⟩

end GraphQuery
