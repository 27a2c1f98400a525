import GraphQuery.Proofs.Selection.Flattening

/-!
# Corresponding selections

Selections of two documents that ask for the same fields, up to a relation between one field and
the other. Main statement: if the flattenings correspond field by field, then the collected groups
do so under the same keys.
-/

namespace GraphQuery

namespace FieldGroup

/-- Groups of one key whose fields are related one by one. -/
structure Corresponds (R : SelectedField → SelectedField → Prop) (group group' : FieldGroup) :
    Prop where
  key : group'.key = group.key
  first : R group.first group'.first
  rest : List.Forall₂ R group.rest group'.rest

theorem Corresponds.fields {R : SelectedField → SelectedField → Prop} {group group' : FieldGroup}
    (h : group.Corresponds R group') : List.Forall₂ R group.fields group'.fields :=
  .cons h.first h.rest

section

variable {R : SelectedField → SelectedField → Prop} {field field' : SelectedField}
  {fields fields' : List SelectedField} {groups groups' : List FieldGroup}

private theorem corresponds_add (h : List.Forall₂ (Corresponds R) groups groups')
    (hfield : R field field')
    (hkey : field'.node.responseKey = field.node.responseKey) :
    List.Forall₂ (Corresponds R) (add field groups) (add field' groups') := by
  induction h with
  | nil => exact .cons ⟨hkey, hfield, .nil⟩ .nil
  | @cons group group' groups groups' hgroup hgroups ih =>
    have hiff : group'.key = field'.node.responseKey ↔ group.key = field.node.responseKey := by
      rw [hgroup.key, hkey]
    rw [add, add]
    by_cases hsame : group.key = field.node.responseKey
    · have hrest := List.rel_append hgroup.rest (.cons hfield .nil)
      rw [if_pos hsame, if_pos (hiff.2 hsame)]
      exact .cons ⟨hgroup.key, hgroup.first, hrest⟩ hgroups
    · rw [if_neg hsame, if_neg (mt hiff.1 hsame)]
      exact .cons hgroup ih

private theorem corresponds_addAll (h : List.Forall₂ R fields fields')
    (hkeys : ∀ field field', R field field' → field'.node.responseKey = field.node.responseKey)
    (hgroups : List.Forall₂ (Corresponds R) groups groups') :
    List.Forall₂ (Corresponds R) (addAll groups fields) (addAll groups' fields') := by
  induction h generalizing groups groups' with
  | nil => exact hgroups
  | cons hfield _ ih =>
    rw [addAll_cons, addAll_cons]
    exact ih (corresponds_add hgroups hfield (hkeys _ _ hfield))

end

end FieldGroup

namespace Scope

/-- Whatever the first selections flatten to, the others flatten to fields that are related to it
one by one. -/
def FlattensAs (scope other : Scope) (object : String) (R : SelectedField → SelectedField → Prop)
    (selections selections' : List Selection) : Prop :=
  ∀ fields, scope.Flattens object selections fields →
    ∃ fields', other.Flattens object selections' fields' ∧ List.Forall₂ R fields fields'

variable {scope other : Scope} {object : String} {R : SelectedField → SelectedField → Prop}
  {selection selection' : Selection} {selections selections' rest rest' : List Selection}

theorem flattensAs_nil : scope.FlattensAs other object R [] [] := by
  intro fields h
  cases h
  exact ⟨[], .nil, .nil⟩

private theorem FlattensAs.cons (h : scope.FlattensAs other object R [selection] selections')
    (hrest : scope.FlattensAs other object R rest rest') :
    scope.FlattensAs other object R (selection :: rest) (selections' ++ rest') := by
  intro fields hfields
  obtain ⟨inside, more, hinside, hmore, rfl⟩ := hfields.exists_cons
  obtain ⟨inside', hinside', hrelated⟩ := h inside hinside
  obtain ⟨more', hmore', hrelated'⟩ := hrest more hmore
  exact ⟨inside' ++ more', hinside'.append hmore', List.rel_append hrelated hrelated'⟩

theorem FlattensAs.cons_cons (h : scope.FlattensAs other object R [selection] [selection'])
    (hrest : scope.FlattensAs other object R rest rest') :
    scope.FlattensAs other object R (selection :: rest) (selection' :: rest') := h.cons hrest

theorem FlattensAs.ite (h : scope.FlattensAs other object R selections selections')
    (condition : Bool) :
    scope.FlattensAs other object R (if condition then selections else [])
      (if condition then selections' else []) := by
  cases condition with
  | true => exact h
  | false => exact flattensAs_nil

theorem flattensAs_field {node node' : FieldNode}
    (h : ∀ kept, scope.keeps .field node.directives = .ok kept →
      other.keeps .field node'.directives = .ok kept ∧
        (kept = true → R ⟨node, selections⟩ ⟨node', selections'⟩)) :
    scope.FlattensAs other object R [.field node selections] [.field node' selections'] := by
  intro fields hfields
  cases hfields with
  | fragment hopens => cases hopens
  | @field _ _ kept _ _ hkeeps hrest =>
    cases hrest
    obtain ⟨hkeeps', hrelated⟩ := h kept hkeeps
    refine ⟨_, .field hkeeps' .nil, ?_⟩
    cases kept with
    | true => exact .cons (hrelated rfl) .nil
    | false => exact .nil

theorem flattensAs_fragment (hfield : ∀ node selections, selection ≠ .field node selections)
    (h : ∀ body, scope.Opens object selection body →
      ∃ body', other.Opens object selection' body' ∧ scope.FlattensAs other object R body body') :
    scope.FlattensAs other object R [selection] [selection'] := by
  intro fields hfields
  cases hfields with
  | field => exact absurd rfl (hfield _ _)
  | fragment hopens hbody hrest =>
    cases hrest
    obtain ⟨body', hopens', hcorresponds⟩ := h _ hopens
    obtain ⟨fields', hfields', hrelated⟩ := hcorresponds _ hbody
    exact ⟨fields' ++ [], .fragment hopens' hfields' .nil, List.rel_append hrelated .nil⟩

/-- Collected groups correspond if the flattenings of the selections do. -/
theorem FlattensAs.collect {selections selections' : List (List Selection)}
    (h : scope.FlattensAs other object R selections.flatten selections'.flatten)
    (hkeys : ∀ field field', R field field' → field'.node.responseKey = field.node.responseKey)
    (hvalid : ∀ list ∈ selections, ∀ selection ∈ list,
      ∃ parent depth, scope.Valid parent depth selection)
    (hunfolds : ∀ selection ∈ selections'.flatten, other.Unfolds other.fragments.length selection) :
    ∃ groups groups', scope.collect object selections = .ok groups ∧
      other.collect object selections' = .ok groups' ∧
      List.Forall₂ (FieldGroup.Corresponds R) groups groups' := by
  obtain ⟨fields, hfields⟩ := exists_flattens hvalid object
  obtain ⟨fields', hfields', hrelated⟩ := h fields hfields
  refine ⟨_, _, collect_eq_of_flattens hvalid hfields, ?_,
    FieldGroup.corresponds_addAll hrelated hkeys .nil⟩
  rw [collect_eq_collectSelections]
  exact hfields'.collectSelections_eq hunfolds []

end Scope

end GraphQuery
