import GraphQuery.Proofs.Completion.Accepted
import GraphQuery.Proofs.Completion.InStep
import GraphQuery.Proofs.Selection.Acceptance
import GraphQuery.Proofs.Selection.Once

/-!
# Repeated spreads

The execution that splices each fragment once in the selections of an object, as the specification
of the query language has it. Main statement: it is the execution that splices a fragment for each
of its spreads.
-/

namespace GraphQuery

namespace Plan

/-- Runs the plan with fragments spliced once in the selections of each object. -/
def runOnceUnder (plan : Plan) (schedule : Schedule) :
    Future Event (Except ExecutionFault Response) :=
  plan.runWith schedule plan.collectOnce

variable {plan : Plan} {depth : Nat} {selections selections' : List (List Selection)}

/-- Selections that fit a depth, and the same without some that repeat others before them. -/
def FitsOnce (plan : Plan) (depth : Nat) (selections selections' : List (List Selection)) : Prop :=
  plan.Fits depth selections ∧ Condenses [] selections.flatten selections'.flatten

private theorem condenses_selections {group group' : FieldGroup} (h : group.Condensed group') :
    Condenses [] group.selections.flatten group'.selections.flatten := by
  have hselections := h.fields.flatMap SelectedField.selections
  rw [List.flatMap_def, List.flatMap_def] at hselections
  exact hselections

private theorem collectOnce_inStep (depth : Nat) (object : String)
    (selections selections' : List (List Selection))
    (h : plan.FitsOnce (depth + 1) selections selections') :
    Related (List.Forall₂ (FieldGroup.InStep plan.toBindings (plan.FitsOnce depth)))
      (plan.collect object selections) (plan.collectOnce object selections') := by
  obtain ⟨hfits, hcondenses⟩ := h
  have hvalid := valid_of_fits hfits
  have hvalid' : ∀ list ∈ selections', ∀ selection ∈ list,
      ∃ parent depth, plan.Valid parent depth selection := by
    intro list hlist selection hmem
    have hflat := hcondenses.subset (List.mem_flatten.2 ⟨list, hlist, hmem⟩)
    obtain ⟨other, hother, hselection⟩ := List.mem_flatten.1 hflat
    exact hvalid other hother selection hselection
  obtain ⟨fields, hfields⟩ := Scope.exists_flattens hvalid object
  obtain ⟨fields', hfields', hrepeated⟩ :=
    Scope.exists_flattens_of_condenses hcondenses (List.forall_mem_nil _) hfields
  obtain ⟨kept, hkept, hcollect'⟩ := Scope.exists_collectOnce hvalid' hfields'
  have hgroups : List.Forall₂ FieldGroup.Condensed (FieldGroup.addAll [] fields)
      (FieldGroup.addAll [] kept) :=
    FieldGroup.condensed_addAll (hrepeated.trans (List.nil_subset []) hkept) .nil
      (List.forall_mem_nil _)
  obtain ⟨groups, hcollect, hbelow⟩ := collect_of_fits object hfits
  obtain rfl := Except.ok.inj (hcollect.symm.trans (Scope.collect_eq_of_flattens hvalid hfields))
  rw [hcollect, hcollect']
  have hboth := (List.forall₂_and_left _ _).2 ⟨hbelow, hgroups⟩
  refine .ok (hboth.imp fun group group' ⟨hgroup, hcondensed⟩ => ⟨hcondensed.key, ?_, ?_, ?_⟩)
  · rw [hcondensed.first]
    exact .refl _ _
  · exact fits_selections hgroup
  · exact condenses_selections hcondensed

private theorem runOnceUnder_eq (schedule : Schedule) (haccepted : plan.Accepted) :
    plan.runOnceUnder schedule = plan.runUnder schedule :=
  runWith_inStep schedule (SameBasis.refl plan).readsAlike collectOnce_inStep rfl rfl rfl
    ⟨fits_operation haccepted, .refl _ _⟩

end Plan

/-- Executes a request with fragments spliced once in the selections of each object. -/
def executeOnceUnder (buffering : Future.Buffering ResponsePath Event Completion)
    (schema : ExecutableSchema) (settings : Settings) (request : Request) :
    Future Event (Except ExecutionFault Response) :=
  match Plan.ofRequest schema settings request with
  | .error fault => .done (.error fault)
  | .ok plan => plan.runOnceUnder (buffering.gather plan.limit)

/-- Repeated spreads change nothing: if a fragment that has been spliced into the selections of an
object is not spliced into them again, at any level, then the execution is the same, event by
event. The resolvers are started in the same order, and the data and the errors are the same. -/
theorem executeOnceUnder_eq (buffering : Future.Buffering ResponsePath Event Completion)
    (schema : ExecutableSchema) (settings : Settings) (request : Request) :
    executeOnceUnder buffering schema settings request =
      executeUnder buffering schema settings request := by
  unfold executeOnceUnder executeUnder
  cases hplan : Plan.ofRequest schema settings request with
  | error fault => rfl
  | ok plan =>
    obtain ⟨-, -, -, haccepted⟩ := Plan.accepted_of_ofRequest hplan
    exact Plan.runOnceUnder_eq (buffering.gather plan.limit) haccepted

/-- What is collected differs: the second spread of a fragment adds its fields again, and they are
selected below once more. -/
example :
    (List.map fun group : FieldGroup => group.selections.length) <$>
        (pageScope (pageField "id" [])).collect "Page" [[pageSpread], [pageSpread]] = .ok [2] ∧
      (List.map fun group : FieldGroup => group.selections.length) <$>
        (pageScope (pageField "id" [])).collectOnce "Page" [[pageSpread], [pageSpread]] =
          .ok [1] := by
  decide +kernel

end GraphQuery
