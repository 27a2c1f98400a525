import GraphQuery.Proofs.Selection.Flattening

/-!
# Condensed lists

Lists from which elements are dropped that have occurred before. Main statement: fields and their
condensation fall into the same groups, with the same first fields, whose fields are condensed
again.
-/

namespace GraphQuery

variable {α β : Type}

/-- The second list is the first without some elements that are among `seen` or occur before. -/
inductive Condenses : List α → List α → List α → Prop
  | nil {seen} : Condenses seen [] []
  | keep {seen a as bs} (h : Condenses (a :: seen) as bs) : Condenses seen (a :: as) (a :: bs)
  | drop {seen a as bs} (hseen : a ∈ seen) (h : Condenses seen as bs) :
      Condenses seen (a :: as) bs

namespace Condenses

variable {seen more as bs cs as' bs' : List α}

private theorem mono (h : Condenses seen as bs) (hsubset : seen ⊆ more) : Condenses more as bs := by
  induction h generalizing more with
  | nil => exact .nil
  | keep _ ih => exact .keep (ih (List.cons_subset_cons _ hsubset))
  | drop hseen _ ih => exact .drop (hsubset hseen) (ih hsubset)

theorem refl (seen as : List α) : Condenses seen as as := by
  induction as generalizing seen with
  | nil => exact .nil
  | cons a as ih => exact .keep (ih (a :: seen))

theorem of_subset (h : as ⊆ seen) : Condenses seen as [] := by
  induction as with
  | nil => exact .nil
  | cons a as ih =>
    rw [List.cons_subset] at h
    exact .drop h.1 (ih h.2)

theorem covers (h : Condenses seen as bs) : as ⊆ bs ++ seen := by
  induction h with
  | nil => exact List.nil_subset _
  | @keep seen a as bs _ ih =>
    intro b hmem
    rcases List.mem_cons.1 hmem with rfl | hmem
    · simp
    · have hb := ih hmem
      simp only [List.mem_append, List.mem_cons] at hb ⊢
      tauto
  | drop hseen _ ih => exact List.cons_subset.2 ⟨List.mem_append_right _ hseen, ih⟩

theorem subset (h : Condenses seen as bs) : bs ⊆ as := by
  induction h with
  | nil => exact List.nil_subset _
  | keep _ ih => exact List.cons_subset_cons _ ih
  | drop _ _ ih => exact List.subset_cons_of_subset _ ih

theorem append (h : Condenses seen as bs) (h' : Condenses (bs ++ seen) as' bs') :
    Condenses seen (as ++ as') (bs ++ bs') := by
  induction h with
  | nil => exact h'
  | @keep seen a as bs _ ih =>
    have hmoved : a :: bs ++ seen ⊆ bs ++ a :: seen := by
      intro b hmem
      simp only [List.cons_append, List.mem_cons, List.mem_append] at hmem ⊢
      tauto
    exact .keep (ih (h'.mono hmoved))
  | drop hseen _ ih => exact .drop hseen (ih h')

theorem trans (h : Condenses seen as bs) (hsubset : seen ⊆ more) (h' : Condenses more bs cs) :
    Condenses more as cs := by
  induction h generalizing more cs with
  | nil => exact h'
  | keep _ ih =>
    cases h' with
    | keep h' => exact .keep (ih (List.cons_subset_cons _ hsubset) h')
    | drop hmore h' =>
      have hsubset' := List.cons_subset.2 ⟨hmore, hsubset⟩
      exact .drop hmore (ih hsubset' h')
  | drop hseen _ ih => exact .drop (hsubset hseen) (ih hsubset h')

theorem flatMap (h : Condenses seen as bs) (f : α → List β) :
    Condenses (seen.flatMap f) (as.flatMap f) (bs.flatMap f) := by
  induction h with
  | nil => exact .nil
  | @keep seen a as bs _ ih =>
    rw [List.flatMap_cons] at ih
    simp only [List.flatMap_cons]
    exact (refl _ (f a)).append ih
  | @drop seen a as bs hseen _ ih =>
    have hsubset : f a ⊆ seen.flatMap f :=
      fun b hmem => List.mem_flatMap.2 ⟨a, hseen, hmem⟩
    rw [List.flatMap_cons]
    exact (of_subset hsubset).append ih

end Condenses

namespace FieldGroup

/-- A group of the same key with the same first field, and of the others only some that do not
repeat fields before them. -/
structure Condensed (group group' : FieldGroup) : Prop where
  key : group'.key = group.key
  first : group'.first = group.first
  rest : Condenses [group.first] group.rest group'.rest

variable {group group' : FieldGroup} {groups groups' : List FieldGroup} {field : SelectedField}

theorem Condensed.fields (h : group.Condensed group') :
    Condenses [] group.fields group'.fields := by
  rw [FieldGroup.fields, FieldGroup.fields, h.first]
  exact .keep h.rest

private theorem Condensed.add (h : group.Condensed group') (field : SelectedField) :
    Condensed { group with rest := group.rest ++ [field] }
      { group' with rest := group'.rest ++ [field] } :=
  ⟨h.key, h.first, h.rest.append (.refl _ _)⟩

private theorem Condensed.repeated (h : group.Condensed group') (hfield : field ∈ group'.fields) :
    Condensed { group with rest := group.rest ++ [field] } group' := by
  have hseen : [field] ⊆ group'.rest ++ [group.first] := by
    rw [FieldGroup.fields, h.first, List.mem_cons] at hfield
    simp only [List.cons_subset, List.nil_subset, and_true, List.mem_append, List.mem_singleton]
    tauto
  have hrest := h.rest.append (.of_subset hseen)
  rw [List.append_nil] at hrest
  exact ⟨h.key, h.first, hrest⟩

private theorem condensed_add (h : List.Forall₂ Condensed groups groups') (field : SelectedField) :
    List.Forall₂ Condensed (add field groups) (add field groups') := by
  induction h with
  | nil => exact .cons ⟨rfl, rfl, .nil⟩ .nil
  | @cons group group' groups groups' hgroup hgroups ih =>
    rw [FieldGroup.add, FieldGroup.add]
    by_cases hkey : group.key = field.node.responseKey
    · rw [if_pos hkey, if_pos (hgroup.key.trans hkey)]
      exact .cons (hgroup.add field) hgroups
    · rw [if_neg hkey, if_neg (hgroup.key ▸ hkey)]
      exact .cons hgroup ih

private theorem condensed_add_repeated (h : List.Forall₂ Condensed groups groups')
    (hfield : field ∈ under field.node.responseKey groups') :
    List.Forall₂ Condensed (add field groups) groups' := by
  induction h with
  | nil => cases hfield
  | @cons group group' groups groups' hgroup hgroups ih =>
    rw [under, hgroup.key] at hfield
    rw [FieldGroup.add]
    by_cases hkey : group.key = field.node.responseKey
    · rw [if_pos hkey] at hfield ⊢
      exact .cons (hgroup.repeated hfield) hgroups
    · rw [if_neg hkey] at hfield ⊢
      exact .cons hgroup (ih hfield)

/-- Condensed fields are grouped like all of them, if those that have occurred are in the groups. -/
theorem condensed_addAll {seen fields kept : List SelectedField} (h : Condenses seen fields kept)
    (hgroups : List.Forall₂ Condensed groups groups')
    (hseen : ∀ field ∈ seen, field ∈ under field.node.responseKey groups') :
    List.Forall₂ Condensed (addAll groups fields) (addAll groups' kept) := by
  induction h generalizing groups groups' with
  | nil => exact hgroups
  | @keep seen field fields kept _ ih =>
    rw [addAll_cons, addAll_cons]
    apply ih (condensed_add hgroups field)
    intro other hmem
    rw [under_add, List.mem_append]
    rcases List.mem_cons.1 hmem with rfl | hmem
    · right
      simp
    · exact .inl (hseen other hmem)
  | drop hmem _ ih =>
    rw [addAll_cons]
    exact ih (condensed_add_repeated hgroups (hseen _ hmem)) hseen

end FieldGroup

end GraphQuery
