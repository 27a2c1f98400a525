import GraphQuery.Proofs.Selection.Acceptance
import GraphQuery.Proofs.Selection.Flattening

/-!
# Composed selections

Selections that stand one after the other. Main statements: the walk accepts them exactly if it
accepts both, and then it finds the deeper of the two; selections without a common response key are
collected one after the other.
-/

namespace GraphQuery

namespace FieldGroup

private theorem add_append {field : SelectedField} {groups others : List FieldGroup}
    (h : field.node.responseKey ∉ groups.map key) :
    add field (groups ++ others) = groups ++ add field others := by
  induction groups with
  | nil => rfl
  | cons group groups ih =>
    rw [List.map_cons, List.mem_cons, not_or] at h
    rw [List.cons_append, add, if_neg (Ne.symm h.1), ih h.2, List.cons_append]

private theorem addAll_groups_append {fields : List SelectedField} {groups others : List FieldGroup}
    (h : ∀ field ∈ fields, field.node.responseKey ∉ groups.map key) :
    addAll (groups ++ others) fields = groups ++ addAll others fields := by
  induction fields generalizing others with
  | nil => rfl
  | cons field fields ih =>
    rw [List.forall_mem_cons] at h
    rw [addAll_cons, addAll_cons, add_append h.1, ih h.2]

theorem mem_keys_addAll {fields : List SelectedField} {groups : List FieldGroup} {name : String} :
    name ∈ (addAll groups fields).map key ↔
      name ∈ groups.map key ∨ name ∈ fields.map fun field => field.node.responseKey := by
  induction fields generalizing groups with
  | nil => simp
  | cons field fields ih =>
    have hadd : name ∈ (add field groups).map key ↔
        name ∈ groups.map key ∨ name = field.node.responseKey := by
      rw [map_key_add]
      split
      · next hmem => exact ⟨.inl, fun h => h.elim id fun heq => heq ▸ hmem⟩
      · rw [List.mem_append, List.mem_singleton]
    rw [addAll_cons, ih, hadd, List.map_cons, List.mem_cons, or_assoc]

end FieldGroup

namespace Scope

open FieldGroup (addAll)

variable {scope : Scope} {first second : List Selection}

private theorem collect_singleton_of_flattens {object : String} {selections : List Selection}
    {fields : List SelectedField}
    (hvalid : ∀ selection ∈ selections, ∃ parent depth, scope.Valid parent depth selection)
    (h : scope.Flattens object selections fields) :
    scope.collect object [selections] = .ok (addAll [] fields) := by
  apply collect_eq_of_flattens
  · intro list hlist
    rwa [List.mem_singleton.1 hlist]
  · rwa [List.flatten_singleton]

theorem exists_collect_singleton (object : String) {selections : List Selection}
    (hvalid : ∀ selection ∈ selections, ∃ parent depth, scope.Valid parent depth selection) :
    ∃ fields, scope.Flattens object selections fields ∧
      scope.collect object [selections] = .ok (addAll [] fields) := by
  have hflattens : ∀ selection ∈ selections,
      ∃ fields, scope.Flattens object [selection] fields := by
    intro selection hmem
    obtain ⟨parent, depth, hselection⟩ := hvalid selection hmem
    exact hselection.exists_flattens object
  obtain ⟨fields, hfields⟩ := exists_flattens_of_forall hflattens
  exact ⟨fields, hfields, collect_singleton_of_flattens hvalid hfields⟩

/-- Valid selections without a common key are collected one after the other. -/
theorem collect_append {object : String} {groups others : List FieldGroup}
    (hvalid : ∀ selection ∈ first ++ second, ∃ parent depth, scope.Valid parent depth selection)
    (hfirst : scope.collect object [first] = .ok groups)
    (hsecond : scope.collect object [second] = .ok others)
    (hdisjoint : ∀ group ∈ groups, ∀ other ∈ others, group.key ≠ other.key) :
    scope.collect object [first ++ second] = .ok (groups ++ others) := by
  have hparts := List.forall_mem_append.1 hvalid
  obtain ⟨fields, hfields, hgroups⟩ := exists_collect_singleton object hparts.1
  obtain ⟨more, hmore, hothers⟩ := exists_collect_singleton object hparts.2
  obtain rfl : addAll [] fields = groups := Except.ok.inj (hgroups.symm.trans hfirst)
  obtain rfl : addAll [] more = others := Except.ok.inj (hothers.symm.trans hsecond)
  -- The fields of the second part find no group of theirs among those of the first.
  have hkeys : ∀ field ∈ more,
      field.node.responseKey ∉ (addAll [] fields).map FieldGroup.key := by
    intro field hfield hmem
    have hnew : field.node.responseKey ∈ (addAll [] more).map FieldGroup.key :=
      FieldGroup.mem_keys_addAll.2 (.inr (List.mem_map_of_mem hfield))
    obtain ⟨group, hgroup, hkey⟩ := List.mem_map.1 hmem
    obtain ⟨other, hother, hkey'⟩ := List.mem_map.1 hnew
    exact hdisjoint group hgroup other hother (hkey.trans hkey'.symm)
  have happend : addAll (addAll [] fields ++ []) more =
      addAll [] fields ++ addAll [] more :=
    FieldGroup.addAll_groups_append hkeys
  rw [List.append_nil, ← FieldGroup.addAll_append] at happend
  rw [← happend]
  exact collect_singleton_of_flattens hvalid (hfields.append hmore)

theorem depth_append_eq_ok_iff (hwell : scope.system.WellFormed) {root : TypeDefinition}
    (hroot : scope.system.get? root.name = some root) {depth : Nat} :
    scope.depth root (first ++ second) = .ok depth ↔
      ∃ less more, scope.depth root first = .ok less ∧ scope.depth root second = .ok more ∧
        depth = max less more := by
  have hmeasure {selections : List Selection} {bound : Nat}
      (hvalid : ∀ selection ∈ selections, scope.Valid root bound selection) :=
    exists_depth_of_proper hwell hroot (proper_of_valid hwell hroot hvalid)
  have hmax {less more depth : Nat} (hfirst : scope.Deepest first less)
      (hsecond : scope.Deepest second more) (hboth : scope.Deepest (first ++ second) depth) :
      depth = max less more := hboth.eq (hfirst.append hsecond)
  constructor
  · intro h
    have hvalid := List.forall_mem_append.1 (valid_of_depth_eq_ok h)
    obtain ⟨less, hless, hfirst⟩ := hmeasure hvalid.1
    obtain ⟨more, hmore, hsecond⟩ := hmeasure hvalid.2
    have hboth := ((depth_eq_ok_iff hwell hroot).1 h).2
    exact ⟨less, more, hless, hmore, hmax hfirst hsecond hboth⟩
  · rintro ⟨less, more, hless, hmore, rfl⟩
    have hvalid : ∀ selection ∈ first ++ second, scope.Valid root (max less more) selection := by
      refine List.forall_mem_append.2 ⟨fun selection hmem => ?_, fun selection hmem => ?_⟩
      · exact (valid_of_depth_eq_ok hless selection hmem).mono (Nat.le_max_left less more)
      · exact (valid_of_depth_eq_ok hmore selection hmem).mono (Nat.le_max_right less more)
    obtain ⟨depth, hdepth, hboth⟩ := hmeasure hvalid
    have hfirst := ((depth_eq_ok_iff hwell hroot).1 hless).2
    have hsecond := ((depth_eq_ok_iff hwell hroot).1 hmore).2
    rw [hdepth, hmax hfirst hsecond hboth]

end Scope

end GraphQuery
