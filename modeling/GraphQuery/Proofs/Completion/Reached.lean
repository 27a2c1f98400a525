import GraphQuery.Proofs.Completion.InStep
import GraphQuery.Proofs.Completion.Timing
import GraphQuery.Proofs.Selection.Acceptance
import GraphQuery.Proofs.Selection.Reached

/-!
# Requests that agree on what is reached

An operation reads the fragments that it reaches and the variables that it declares. Main statement:
requests that agree on these are executed alike, event by event, whatever else their documents and
variables contain.
-/

namespace GraphQuery

private theorem Variables.coerce_congr {inputs inputs' : Variables}
    {definitions : List VariableDefinition}
    (h : ∀ definition ∈ definitions,
      inputs'.get? definition.name = inputs.get? definition.name) (schema : Schema) :
    inputs'.coerce schema definitions = inputs.coerce schema definitions := by
  refine foldlM_congr (fun definition hmem values => ?_) []
  have hsupplied : definition.supplied inputs' = definition.supplied inputs := by
    rw [VariableDefinition.supplied, VariableDefinition.supplied, h definition hmem]
  have hvalue : definition.coerce schema inputs' = definition.coerce schema inputs := by
    rw [VariableDefinition.coerce, VariableDefinition.coerce, hsupplied]
  rw [hvalue]

/-- Requests that select an operation and have the same root value, the same fragments where the
operation reaches them and the same values of the variables that it declares. -/
structure Request.AgreeOn (operation : Operation) (request other : Request) : Prop where
  selects : request.document.operations.select request.operationName = .ok operation
  selects' : other.document.operations.select other.operationName = .ok operation
  fragments : operation.SameFragments request.document.fragments other.document.fragments
  inputs : ∀ definition ∈ operation.definitions,
    other.inputs.get? definition.name = request.inputs.get? definition.name
  root : other.root = request.root

namespace Plan

/-- The plan of a document with other fragments. -/
def withFragments (plan : Plan) (fragments : List Fragment) : Plan :=
  { plan with toScope := plan.toScope.withFragments fragments }

section

variable {plan : Plan} {schedule : Schedule}

private theorem sameBasis_withFragments (plan : Plan) (fragments : List Fragment) :
    plan.SameBasis (plan.withFragments fragments) := ⟨rfl, rfl⟩

variable {operation : Operation} {fragments : List Fragment}

/-- Selections that fit a depth and that the operation reaches. -/
def FitsReached (plan : Plan) (operation : Operation) (depth : Nat)
    (selections : List (List Selection)) : Prop :=
  plan.Fits depth selections ∧
    ∀ list ∈ selections, ∀ selection ∈ list, operation.Reaches plan.fragments selection

theorem fitsReached_operation (haccepted : plan.Accepted) :
    plan.FitsReached plan.operation plan.depth [plan.operation.selections] := by
  refine ⟨fits_operation haccepted, fun list hlist selection hmem => ?_⟩
  rw [List.mem_singleton.1 hlist] at hmem
  exact .here hmem

/-- Reached selections are collected to reached fields with reached selections, whatever other
fragments there are. -/
theorem collect_of_fitsReached (hsame : operation.SameFragments plan.fragments fragments)
    {depth : Nat} (object : String) {selections : List (List Selection)}
    (h : plan.FitsReached operation (depth + 1) selections) :
    ∃ groups, plan.collect object selections = .ok groups ∧
      (plan.withFragments fragments).collect object selections = .ok groups ∧
      ∀ group ∈ groups, plan.FitsReached operation depth group.selections ∧
        ∀ field ∈ group.fields, plan.ValidField (fun _ => True) (depth + 1) field ∧
          operation.Reaches plan.fragments (.field field.node field.selections) := by
  obtain ⟨hfits, hreached⟩ := h
  obtain ⟨hcollect, hbelow⟩ :=
    Scope.collect_withFragments hsame (valid_of_fits hfits) hreached object
  obtain ⟨groups, hgroups, hfields⟩ := collect_of_fits object hfits
  refine ⟨groups, hgroups, hcollect.trans hgroups, fun group hgroup => ⟨⟨?_, ?_⟩, ?_⟩⟩
  · exact fits_selections (hfields group hgroup)
  · exact Operation.reaches_selections (hbelow groups hgroups group hgroup)
  · exact fun field hfield =>
      ⟨hfields group hgroup field hfield, hbelow groups hgroups group hgroup field hfield⟩

/-- Equal selections that fit a depth and that the operation reaches. -/
def Agreed (plan : Plan) (operation : Operation) (depth : Nat)
    (selections selections' : List (List Selection)) : Prop :=
  selections' = selections ∧ plan.FitsReached operation depth selections

private theorem collect_inStep_withFragments
    (hsame : operation.SameFragments plan.fragments fragments)
    (depth : Nat) (object : String) (selections selections' : List (List Selection))
    (h : plan.Agreed operation (depth + 1) selections selections') :
    Related (List.Forall₂ (FieldGroup.InStep plan.toBindings (plan.Agreed operation depth)))
      (plan.collect object selections) ((plan.withFragments fragments).collect object selections')
    := by
  obtain ⟨rfl, hfits⟩ := h
  obtain ⟨groups, hcollect, hcollect', hbelow⟩ := collect_of_fitsReached hsame object hfits
  rw [hcollect, hcollect']
  exact .ok (List.forall₂_same.2 fun group hgroup => ⟨rfl, .refl _ _, rfl, (hbelow group hgroup).1⟩)

private theorem runUnder_withFragments
    (hsame : plan.operation.SameFragments plan.fragments fragments)
    (haccepted : plan.Accepted) :
    (plan.withFragments fragments).runUnder schedule = plan.runUnder schedule :=
  runWith_inStep schedule (plan.sameBasis_withFragments fragments).readsAlike
    (collect_inStep_withFragments hsame) rfl rfl rfl ⟨rfl, fitsReached_operation haccepted⟩

end

theorem document_of_ofRequest {schema : ExecutableSchema} {settings : Settings}
    {request : Request} {plan : Plan} (h : ofRequest schema settings request = .ok plan) :
    request.document.operations.select request.operationName = .ok plan.operation ∧
      plan.fragments = request.document.fragments := by
  simp only [ofRequest, bind_eq_ok_iff, mapError_eq_ok_iff, pure_eq_ok_iff] at h
  obtain ⟨operation, hselects, _, -, values, -, _, -, _, -, depth, -, rfl⟩ := h
  exact ⟨hselects, rfl⟩

private theorem ofRequest_of_agreeOn {operation : Operation} {request other : Request}
    (h : request.AgreeOn operation other) (schema : ExecutableSchema) (settings : Settings) :
    ofRequest schema settings other =
      (fun plan => plan.withFragments other.document.fragments) <$>
        ofRequest schema settings request := by
  have hvalues := Variables.coerce_congr h.inputs schema.toSchema
  have hdepth (scope : Scope) (hscope : scope.fragments = request.document.fragments)
      (root : TypeDefinition) :
      (scope.withFragments other.document.fragments).depth root operation.selections =
        scope.depth root operation.selections :=
    Scope.depth_withFragments (hscope ▸ h.fragments) root
  have hselected {β : Type} (next : Operation → Except ExecutionFault β) :
      ((Except.ok operation).mapError ExecutionFault.validation >>= next) = next operation := rfl
  simp only [ofRequest_eq, h.selects, h.selects', hselected, hvalues, h.root, map_bind, map_pure]
  refine bind_congr fun rootType => bind_congr fun values => bind_congr fun _ => ?_
  refine bind_congr fun _ => ?_
  have hwalk :=
    hdepth ⟨⟨schema.toSchema, values⟩, request.document.fragments⟩ rfl (.object rootType)
  exact congrArg (· >>= _) hwalk

end Plan

theorem executeUnder_of_agreeOn {operation : Operation} {request other : Request}
    (h : request.AgreeOn operation other) (schema : ExecutableSchema) (settings : Settings)
    (buffering : Future.Buffering ResponsePath Event Completion) :
    executeUnder buffering schema settings other =
      executeUnder buffering schema settings request := by
  have haccepted := Plan.ofRequest_of_agreeOn h schema settings
  unfold executeUnder
  rw [haccepted]
  cases hplan : Plan.ofRequest schema settings request with
  | error fault => rfl
  | ok plan =>
    obtain ⟨hselects, hfragments⟩ := Plan.document_of_ofRequest hplan
    obtain ⟨-, -, -, haccepted⟩ := Plan.accepted_of_ofRequest hplan
    obtain rfl := Except.ok.inj (h.selects.symm.trans hselects)
    have hsame : plan.operation.SameFragments plan.fragments other.document.fragments :=
      hfragments ▸ h.fragments
    exact Plan.runUnder_withFragments hsame haccepted

/-- Only what the operation reaches matters. Requests that select the same operation, and agree on
the root value, on the fragments that the operation reaches and on the variables that it declares,
are executed alike: the resolvers see the same, and the response or the fault is the same. Other
operations, fragments and variables do not matter, valid or not. -/
theorem execute_of_agreeOn {operation : Operation} {request other : Request}
    (h : request.AgreeOn operation other) (schema : ExecutableSchema) (settings : Settings) :
    execute schema settings other = execute schema settings request ∧
      ∀ buffering : Future.Buffering ResponsePath Event Completion,
        executeUnder buffering schema settings other =
          executeUnder buffering schema settings request := by
  have hunder := executeUnder_of_agreeOn h schema settings
  refine ⟨?_, hunder⟩
  rw [← executeUnder_rounds, ← executeUnder_rounds]
  exact hunder _

/-- The operation `query ($first: Int) { node { ...page } }`. -/
def firstPageOperation : Operation :=
  { pageOperation with definitions := [⟨⟨1, 1⟩, "first", .named "Int" true, ⟨1, 1⟩, [], none⟩] }

def firstPageRequest : Request :=
  { document :=
      { operations := .single firstPageOperation
        fragments := (pageScope (pageField "id" [])).fragments }
    operationName := none
    inputs := Variables.empty.insert "first" (.number (.int 1))
    root := .object [("node", .object [("__typename", .string "Page"),
      ("next", .object [("__typename", .string "Page"), ("id", .string "b")])])] }

/-- The same request with a second operation that selects an unknown field, with a fragment on an
unknown type that spreads itself, and with a variable that is not declared. -/
def crowdedPageRequest : Request :=
  { firstPageRequest with
    document :=
      { operations := .named [("pages", firstPageOperation),
          ("broken", { pageOperation with selections := [pageField "unknown" []] })]
        fragments := ⟨"loop", ⟨"Unknown", ⟨1, 1⟩⟩, [], [.spread ⟨⟨1, 1⟩, "loop", []⟩]⟩ ::
          firstPageRequest.document.fragments }
    operationName := some "pages"
    inputs := firstPageRequest.inputs.insert "after" (.list [.string "a"]) }

theorem execute_crowdedPageRequest :
    (fun response => (response.data.map Value.text, response.errors)) <$>
          (execute pageSchema .default firstPageRequest).value =
        .ok (some "\x7bnode: \x7bnext: \x7bid: \"b\"\x7d\x7d\x7d", []) ∧
      execute pageSchema .default crowdedPageRequest =
        execute pageSchema .default firstPageRequest ∧
      ∀ buffering : Future.Buffering ResponsePath Event Completion,
        executeUnder buffering pageSchema .default crowdedPageRequest =
          executeUnder buffering pageSchema .default firstPageRequest := by
  -- The operation reaches four selections, and its only spread is that of the page.
  have hreached (selection : Selection)
      (h : firstPageOperation.Reaches firstPageRequest.document.fragments selection) :
      selection ∈ [pageField "node" [pageSpread], pageSpread,
        pageField "next" [pageField "id" []], pageField "id" []] := by
    induction h with
    | here hmem =>
      obtain rfl := List.mem_singleton.1 hmem
      simp
    | field _ hmem ih =>
      simp only [pageField, pageSpread, List.mem_cons, Selection.field.injEq, reduceCtorEq,
        List.not_mem_nil, or_false, false_or] at ih
      rcases ih with ⟨-, rfl⟩ | ⟨-, rfl⟩ | ⟨-, rfl⟩
      · rw [List.mem_singleton.1 hmem]
        simp [pageSpread]
      · rw [List.mem_singleton.1 hmem]
        simp [pageField]
      · cases hmem
    | inline _ _ ih => simp [pageField, pageSpread] at ih
    | spread _ hfragment hmem ih =>
      simp only [pageField, pageSpread, List.mem_cons, Selection.spread.injEq, reduceCtorEq,
        List.not_mem_nil, or_false, false_or] at ih
      subst ih
      obtain rfl := Option.some.inj hfragment
      rw [List.mem_singleton.1 hmem]
      simp
  have hfragments : firstPageOperation.SameFragments firstPageRequest.document.fragments
      crowdedPageRequest.document.fragments := by
    intro node h
    have hnode := hreached _ h
    simp only [pageField, pageSpread, List.mem_cons, Selection.spread.injEq, reduceCtorEq,
      List.not_mem_nil, or_false, false_or] at hnode
    subst hnode
    rfl
  have hinputs : ∀ definition ∈ firstPageOperation.definitions,
      crowdedPageRequest.inputs.get? definition.name =
        firstPageRequest.inputs.get? definition.name := by
    intro definition hmem
    obtain rfl := List.mem_singleton.1 hmem
    rfl
  have hagree : firstPageRequest.AgreeOn firstPageOperation crowdedPageRequest :=
    ⟨rfl, rfl, hfragments, hinputs, rfl⟩
  exact ⟨by decide +kernel, execute_of_agreeOn hagree pageSchema .default⟩

end GraphQuery
