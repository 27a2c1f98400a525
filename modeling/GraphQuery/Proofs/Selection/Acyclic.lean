import GraphQuery.Proofs.Selection.Valid
import Mathlib.Data.List.Perm.Subperm

/-!
# Spreads without cycles

Which fragments a selection reaches, and how deep spreads nest inside each other. Main statement:
spreads of a valid selection nest at most as deep as the document has fragments, so a budget of
one step for each fragment suffices to expand it.
-/

namespace GraphQuery

namespace Scope

variable {scope : Scope}

/-- The selection spreads the fragment `name`, itself or inside what it selects or spreads. -/
inductive Reaches (scope : Scope) : Selection → String → Prop
  | spread {node} : Reaches scope (.spread node) node.name
  | through {node fragment selection name}
      (hfragment : scope.fragment? node.name = some fragment)
      (hmem : selection ∈ fragment.selections) (h : Reaches scope selection name) :
      Reaches scope (.spread node) name
  | field {node selections selection name}
      (hmem : selection ∈ selections) (h : Reaches scope selection name) :
      Reaches scope (.field node selections) name
  | inline {node selections selection name}
      (hmem : selection ∈ selections) (h : Reaches scope selection name) :
      Reaches scope (.inline node selections) name

/-- No fragment that a valid selection reaches comes back to itself. -/
theorem Valid.not_reaches_self {parent : TypeDefinition} {depth : Nat} {selection : Selection}
    (h : scope.Valid parent depth selection) {name : String} {fragment : Fragment}
    {inside : Selection} (hreach : scope.Reaches selection name)
    (hfragment : scope.fragment? name = some fragment) (hinside : inside ∈ fragment.selections) :
    ¬ scope.Reaches inside name := by
  induction h with
  | typename | leaf =>
    cases hreach with
    | field hmem _ => simp at hmem
  | composite _ _ _ _ _ _ _ ih =>
    cases hreach with
    | field hmem hreach => exact ih _ hmem hreach
  | inline _ _ _ ih | inlineOn _ _ _ _ _ ih =>
    cases hreach with
    | inline hmem hreach => exact ih _ hmem hreach
  | spread _ hfound _ _ _ _ ih =>
    cases hreach with
    | spread =>
      intro hback
      obtain rfl := Option.some.inj (hfound.symm.trans hfragment)
      exact ih inside hinside hback hback
    | through hother hmem hreach =>
      obtain rfl := Option.some.inj (hfound.symm.trans hother)
      exact ih _ hmem hreach

theorem Valid.fresh_inside {parent : TypeDefinition} {depth : Nat} {node : SpreadNode}
    (h : scope.Valid parent depth (.spread node)) {fragment : Fragment}
    (hfragment : scope.fragment? node.name = some fragment) {visiting : List String}
    (hfresh : ∀ name ∈ visiting, ¬ scope.Reaches (.spread node) name) :
    ∀ selection ∈ fragment.selections, ∀ name ∈ node.name :: visiting,
      ¬ scope.Reaches selection name := by
  rintro selection hmem name (_ | ⟨_, hname⟩)
  · exact h.not_reaches_self .spread hfragment hmem
  · exact fun hreach => hfresh name hname (.through hfragment hmem hreach)

/-- Spreads that are not below a field nest at most `budget` deep. -/
inductive Unfolds (scope : Scope) : Nat → Selection → Prop
  | field {budget node selections} : Unfolds scope budget (.field node selections)
  | inline {budget node selections}
      (hall : ∀ selection ∈ selections, Unfolds scope budget selection) :
      Unfolds scope budget (.inline node selections)
  | spread {budget node fragment}
      (hfragment : scope.fragment? node.name = some fragment)
      (hall : ∀ selection ∈ fragment.selections, Unfolds scope budget selection) :
      Unfolds scope (budget + 1) (.spread node)

private theorem name_mem_of_find? {fragments : List Fragment} {name : String} {fragment : Fragment}
    (h : Fragment.find? fragments name = some fragment) : name ∈ fragments.map Fragment.name := by
  have hname : fragment.name = name := by simpa using List.find?_some h
  exact hname ▸ List.mem_map_of_mem (List.mem_of_find?_eq_some h)

/-- Inside the fragments `visiting` a step is left for one that is not among them. -/
theorem exists_less_of_new {fragments : List Fragment} {name : String} {fragment : Fragment}
    {visiting : List String} (hnodup : visiting.Nodup)
    (hknown : visiting ⊆ fragments.map Fragment.name)
    (hfragment : Fragment.find? fragments name = some fragment) (hnew : name ∉ visiting)
    {budget : Nat} (hbudget : fragments.length ≤ visiting.length + budget) :
    (name :: visiting).Nodup ∧ name :: visiting ⊆ fragments.map Fragment.name ∧
      ∃ less, budget = less + 1 ∧ fragments.length ≤ (name :: visiting).length + less := by
  have hnodup' : (name :: visiting).Nodup := List.nodup_cons.2 ⟨hnew, hnodup⟩
  have hknown' : name :: visiting ⊆ fragments.map Fragment.name :=
    List.cons_subset.2 ⟨name_mem_of_find? hfragment, hknown⟩
  have hlength := (List.subperm_of_subset hnodup' hknown').length_le
  rw [List.length_cons, List.length_map] at hlength
  refine ⟨hnodup', hknown', budget - 1, by omega, ?_⟩
  rw [List.length_cons]
  omega

private theorem Valid.unfolds_of_visiting {parent : TypeDefinition} {depth : Nat}
    {selection : Selection}
    (h : scope.Valid parent depth selection) {visiting : List String} (hnodup : visiting.Nodup)
    (hknown : visiting ⊆ scope.fragments.map Fragment.name)
    (hfresh : ∀ name ∈ visiting, ¬ scope.Reaches selection name) {budget : Nat}
    (hbudget : scope.fragments.length ≤ visiting.length + budget) :
    scope.Unfolds budget selection := by
  induction h generalizing visiting budget with
  | typename | leaf | composite => exact .field
  | inline _ _ _ ih | inlineOn _ _ _ _ _ ih =>
    refine .inline fun selection hmem => ih selection hmem hnodup hknown ?_ hbudget
    exact fun name hname hreach => hfresh name hname (.inline hmem hreach)
  | @spread _ _ node _ fragment _ _ hkeeps hfragment htype hoverlap hkeepsFragment hall ih =>
    have hnew : node.name ∉ visiting := fun hmem => hfresh node.name hmem .spread
    obtain ⟨hnodup', hknown', less, rfl, hless⟩ :=
      exists_less_of_new hnodup hknown hfragment hnew hbudget
    have hfresh' := (Valid.spread hkeeps hfragment htype hoverlap hkeepsFragment hall).fresh_inside
      hfragment hfresh
    exact .spread hfragment fun selection hmem =>
      ih selection hmem hnodup' hknown' (hfresh' selection hmem) hless

theorem Valid.unfolds {parent : TypeDefinition} {depth : Nat} {selection : Selection}
    (h : scope.Valid parent depth selection) :
    scope.Unfolds scope.fragments.length selection :=
  h.unfolds_of_visiting List.nodup_nil (List.nil_subset _) (by simp) (by simp)

end Scope

end GraphQuery
