import GraphQuery.Proofs.Completion.Composition
import GraphQuery.Proofs.Completion.Reached
import GraphQuery.Proofs.Selection.Expansion

/-!
# Expanded operations

Requests whose operation has no spreads any more, because each of them is replaced by what its
fragment selects. Main statement: such a request is executed like the request with the fragments,
and it fails like it.
-/

namespace GraphQuery

namespace Plan

/-- The plan of the operation with other selections, in a document with other fragments. -/
def replacing (plan : Plan) (selections : List Selection) (fragments : List Fragment) : Plan :=
  { plan with
    toScope := plan.toScope.withFragments fragments
    operation := plan.operation.selecting selections }

section

variable {plan : Plan}

private theorem sameBasis_replacing (plan : Plan) (selections : List Selection)
    (fragments : List Fragment) : plan.SameBasis (plan.replacing selections fragments) := ⟨rfl, rfl⟩

/-- Selections that fit a depth, and their expansion. -/
def FitsExpanded (plan : Plan) (depth : Nat) (selections selections' : List (List Selection)) :
    Prop :=
  plan.Fits depth selections ∧ Expands plan.fragments selections.flatten selections'.flatten

private theorem expands_selections {fields fields' : List SelectedField}
    (h : List.Forall₂ (SelectedField.Expanded plan.fragments) fields fields') :
    Expands plan.fragments (fields.map SelectedField.selections).flatten
      (fields'.map SelectedField.selections).flatten := by
  induction h with
  | nil => exact .nil
  | cons hfield _ ih => exact hfield.selections.append ih

private theorem collect_inStep_expanded (operation : List Selection) (fragments : List Fragment)
    (depth : Nat) (object : String) (selections selections' : List (List Selection))
    (h : plan.FitsExpanded (depth + 1) selections selections') :
    Related (List.Forall₂ (FieldGroup.InStep plan.toBindings (plan.FitsExpanded depth)))
      (plan.collect object selections)
      ((plan.replacing operation fragments).collect object selections') := by
  obtain ⟨hfits, hexpands⟩ := h
  have hcorresponds := Scope.flattensAs_of_expands hexpands fragments object
  obtain ⟨groups, groups', hgroups, hgroups', hrelated⟩ := hcorresponds.collect
    (fun field field' hfield => by rw [hfield.node]) (valid_of_fits hfits) (hexpands.unfolds _)
  obtain ⟨_, hcollect, hfields⟩ := collect_of_fits object hfits
  obtain rfl := Except.ok.inj (hgroups.symm.trans hcollect)
  rw [hgroups]
  refine hgroups' ▸ .ok (((List.forall₂_and_left _ _).2 ⟨hfields, hrelated⟩).imp ?_)
  intro group group' ⟨hgroup, hsame⟩
  refine ⟨hsame.key, ?_, fits_selections hgroup, expands_selections hsame.fields⟩
  rw [hsame.first.node]
  exact .refl _ _

private theorem runUnder_replacing {expanded : List Selection}
    (hexpands : Expands plan.fragments plan.operation.selections expanded)
    (haccepted : plan.Accepted) (fragments : List Fragment) (schedule : Schedule) :
    (plan.replacing expanded fragments).runUnder schedule = plan.runUnder schedule := by
  have hfits : plan.FitsExpanded plan.depth [plan.operation.selections] [expanded] := by
    refine ⟨fits_operation haccepted, ?_⟩
    rwa [List.flatten_singleton, List.flatten_singleton]
  exact runWith_inStep schedule (plan.sameBasis_replacing expanded fragments).readsAlike
    (collect_inStep_expanded expanded fragments) rfl rfl rfl hfits

end

private theorem ofRequest_replacing {operation : Operation} {request other : Request}
    {expanded : List Selection} {fragments : List Fragment}
    (hselects : request.document.operations.select request.operationName = .ok operation)
    (hexpands : Expands request.document.fragments operation.selections expanded)
    (h : other.IsFor (operation.selecting expanded) fragments request.inputs request.root)
    (schema : ExecutableSchema) (settings : Settings) :
    ofRequest schema settings other =
      (fun plan => plan.replacing expanded fragments) <$> ofRequest schema settings request := by
  have hselected {β : Type} (operation : Operation) (next : Operation → Except ExecutionFault β) :
      ((Except.ok operation).mapError ExecutionFault.validation >>= next) = next operation := rfl
  have hdepth (scope : Scope) (hscope : scope.fragments = request.document.fragments)
      (root : TypeDefinition) :
      (scope.withFragments fragments).depth root expanded =
        scope.depth root operation.selections :=
    Scope.depth_of_expands (hscope ▸ hexpands) fragments root
  simp only [ofRequest_eq, h.selects, hselects, hselected, h.inputs, h.root, h.fragments, map_bind,
    map_pure]
  refine bind_congr fun rootType => bind_congr fun values => bind_congr fun _ => ?_
  refine bind_congr fun _ => ?_
  have hwalk :=
    hdepth ⟨⟨schema.toSchema, values⟩, request.document.fragments⟩ rfl (.object rootType)
  exact congrArg (· >>= _) hwalk

end Plan

/-- Fragments mean what they expand to. If all fragments that an operation reaches are defined and
do not come back to themselves, and if neither their spreads nor their definitions have
directives, then the spreads can be replaced, one inside the other, by inline fragments with what
the fragments select. A request for the operation with its spreads replaced is executed like the
request for the operation, event by event, and it is refused with the same fault, also if the
operation is too deep. -/
theorem execute_expanded {operation : Operation} {request : Request}
    (hselects : request.document.operations.select request.operationName = .ok operation)
    (hexpandable : operation.Expandable request.document.fragments) (schema : ExecutableSchema)
    (settings : Settings) :
    (∃ expanded, Expands request.document.fragments operation.selections expanded) ∧
      ∀ expanded, Expands request.document.fragments operation.selections expanded →
        ∀ fragments other,
          Request.IsFor other (operation.selecting expanded) fragments request.inputs
            request.root →
          execute schema settings other = execute schema settings request ∧
            ∀ buffering : Future.Buffering ResponsePath Event Completion,
              executeUnder buffering schema settings other =
                executeUnder buffering schema settings request := by
  refine ⟨hexpandable.exists_expands, fun expanded hexpands fragments other h => ?_⟩
  have hunder (buffering : Future.Buffering ResponsePath Event Completion) :
      executeUnder buffering schema settings other =
        executeUnder buffering schema settings request := by
    have haccepted := Plan.ofRequest_replacing hselects hexpands h schema settings
    unfold executeUnder
    rw [haccepted]
    cases hplan : Plan.ofRequest schema settings request with
    | error fault => rfl
    | ok plan =>
      obtain ⟨hselects', hfragments⟩ := Plan.document_of_ofRequest hplan
      obtain ⟨-, -, -, haccepted⟩ := Plan.accepted_of_ofRequest hplan
      obtain rfl := Except.ok.inj (hselects.symm.trans hselects')
      exact Plan.runUnder_replacing (hfragments ▸ hexpands) haccepted fragments _
  refine ⟨?_, hunder⟩
  rw [← executeUnder_rounds, ← executeUnder_rounds]
  exact hunder _

def idField : Selection := pageField "id" []

def nodeSpread (line column : Nat) : Selection := .spread ⟨⟨line, column⟩, "node", []⟩

/-- The fragment `fragment node on Node { id }`. -/
def nodeFragment : Fragment := ⟨"node", ⟨"Node", ⟨3, 18⟩⟩, [], [idField]⟩

/-- The fragment `fragment page on Page { next { ...node } ...node }`. -/
def pageFragment : Fragment :=
  ⟨"page", ⟨"Page", ⟨2, 18⟩⟩, [], [pageField "next" [nodeSpread 2 32], nodeSpread 2 42]⟩

/-- The operation `{ node { ...page } }` with both fragments. -/
def nestedPageRequest : Request :=
  { document := ⟨.single pageOperation, [pageFragment, nodeFragment]⟩
    operationName := none
    inputs := .empty
    root := .object [("node", .object [("__typename", .string "Page"), ("id", .string "a"),
      ("next", .object [("__typename", .string "Page"), ("id", .string "b")])])] }

def unfoldedNode (line column : Nat) : Selection :=
  .inline ⟨⟨line, column⟩, some nodeFragment.condition, []⟩ [idField]

def unfoldedPage : List Selection :=
  [pageField "node" [.inline ⟨⟨1, 1⟩, some pageFragment.condition, []⟩
    [pageField "next" [unfoldedNode 2 32], unfoldedNode 2 42]]]

/-- The same request without fragments. -/
def unfoldedPageRequest : Request :=
  { nestedPageRequest with
    document := ⟨.single (pageOperation.selecting unfoldedPage), []⟩ }

theorem execute_unfoldedPageRequest :
    pageOperation.Expandable nestedPageRequest.document.fragments ∧
      Expands nestedPageRequest.document.fragments pageOperation.selections unfoldedPage ∧
      (fun response => (response.data.map Value.text, response.errors)) <$>
          (execute pageSchema .default nestedPageRequest).value =
        .ok (some "\x7bnode: \x7bnext: \x7bid: \"b\"\x7d, id: \"a\"\x7d\x7d", []) ∧
      execute pageSchema .default unfoldedPageRequest =
        execute pageSchema .default nestedPageRequest ∧
      Response.errors <$> (execute pageSchema ⟨32, some 2⟩ nestedPageRequest).value =
        .error (.validation (.tooDeep 2 ⟨1, 1⟩)) ∧
      execute pageSchema ⟨32, some 2⟩ unfoldedPageRequest =
        execute pageSchema ⟨32, some 2⟩ nestedPageRequest := by
  have hnode (line column : Nat) : Expands nestedPageRequest.document.fragments
      [nodeSpread line column] [unfoldedNode line column] :=
    .spread rfl rfl rfl (.field .nil .nil) .nil
  have hpage : Expands nestedPageRequest.document.fragments
      [pageField "next" [nodeSpread 2 32], nodeSpread 2 42]
      [pageField "next" [unfoldedNode 2 32], unfoldedNode 2 42] :=
    .field (hnode 2 32) (hnode 2 42)
  have hexpands : Expands nestedPageRequest.document.fragments pageOperation.selections
      unfoldedPage := .field (.spread rfl rfl rfl hpage .nil) .nil
  have hexpandable := Operation.expandable_iff.2 ⟨unfoldedPage, hexpands⟩
  have hfor : unfoldedPageRequest.IsFor (pageOperation.selecting unfoldedPage) []
      nestedPageRequest.inputs nestedPageRequest.root := ⟨rfl, rfl, rfl, rfl⟩
  have hsame (settings : Settings) : execute pageSchema settings unfoldedPageRequest =
      execute pageSchema settings nestedPageRequest :=
    ((execute_expanded rfl hexpandable pageSchema settings).2 _ hexpands [] _ hfor).1
  refine ⟨hexpandable, hexpands, ?_, hsame .default, ?_, hsame ⟨32, some 2⟩⟩
  · decide +kernel
  · decide +kernel

end GraphQuery
