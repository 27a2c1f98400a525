import GraphQuery.Proofs.Selection.Acyclic
import GraphQuery.Selection.Collected

/-!
# Collecting valid selections

What field collection does with selections that the walk has accepted. Main statements: it
succeeds for every object type, every field that it collects is valid on a type of which the
object was admitted to be, and the collected keys differ.
-/

namespace GraphQuery

namespace FieldGroup

/-- All fields of groups. -/
def members (groups : List FieldGroup) : List SelectedField := groups.flatMap fields

theorem mem_members_add {field other : SelectedField} {groups : List FieldGroup} :
    other ∈ members (add field groups) ↔ other = field ∨ other ∈ members groups := by
  induction groups with
  | nil => simp [add, members, fields]
  | cons group groups ih =>
    simp only [add]
    split
    · simp only [members, fields, List.flatMap_cons, List.mem_append, List.mem_cons,
        List.not_mem_nil, or_false]
      tauto
    · simp only [members, List.flatMap_cons, List.mem_append] at ih ⊢
      rw [ih]
      tauto

private theorem keyed_add {occurs : Selection → Prop} {field : SelectedField}
    {groups : List FieldGroup}
    (hfield : occurs (.field field.node field.selections))
    (h : ∀ group ∈ groups, ∀ other ∈ group.fields,
      other.node.responseKey = group.key ∧ occurs (.field other.node other.selections)) :
    ∀ group ∈ add field groups, ∀ other ∈ group.fields,
      other.node.responseKey = group.key ∧ occurs (.field other.node other.selections) := by
  induction groups with
  | nil =>
    intro group hgroup other hother
    rw [add, List.mem_singleton] at hgroup
    subst hgroup
    obtain rfl : other = field := List.mem_singleton.1 hother
    exact ⟨rfl, hfield⟩
  | cons head groups ih =>
    rw [List.forall_mem_cons] at h
    obtain ⟨hhead, hgroups⟩ := h
    rw [add]
    split
    · next hkey =>
      refine List.forall_mem_cons.2 ⟨fun other hother => ?_, hgroups⟩
      rw [fields, ← List.cons_append, List.mem_append, List.mem_singleton] at hother
      rcases hother with hother | rfl
      · exact hhead other hother
      · exact ⟨hkey.symm, hfield⟩
    · exact List.forall_mem_cons.2 ⟨hhead, ih hgroups⟩

theorem nodup_key_add {field : SelectedField} {groups : List FieldGroup}
    (h : (groups.map key).Nodup) : ((add field groups).map key).Nodup := by
  rw [map_key_add]
  split
  · exact h
  · next hkey =>
    refine List.nodup_append.2 ⟨h, by simp, ?_⟩
    intro key hmem other hother heq
    rw [List.mem_singleton] at hother
    exact hkey (hother ▸ heq ▸ hmem)

end FieldGroup

namespace Scope

open FieldGroup (members add)

variable {scope : Scope}

/-- The collector keeps a property of the groups. -/
def Keeps (motive : List FieldGroup → Prop) (collector : Collector) : Prop :=
  ∀ groups groups', motive groups → collector groups = .ok groups' → motive groups'

/-- What holds of a fragment holds of the selections in it, and it holds of those in all named
fragments. -/
structure Closed (scope : Scope) (occurs : Selection → Prop) : Prop where
  inline : ∀ node selections, occurs (.inline node selections) →
    ∀ selection ∈ selections, occurs selection
  fragment : ∀ fragment ∈ scope.fragments, ∀ selection ∈ fragment.selections, occurs selection

section Keeps

variable {motive : List FieldGroup → Prop} {occurs : Selection → Prop} {object : String}

mutual

private theorem keeps_collectSelection (hclosed : scope.Closed occurs)
    (hadd : ∀ field groups, occurs (.field field.node field.selections) → motive groups →
      motive (add field groups))
    {splice : SpreadNode → Collector} (hsplice : ∀ node, Keeps motive (splice node)) :
    ∀ selection, occurs selection → Keeps motive (scope.collectSelection splice object selection)
  | .field node selections, hoccurs => by
    intro groups groups' hgroups h
    simp only [collectSelection, bind_eq_ok_iff] at h
    obtain ⟨kept, -, h⟩ := h
    cases kept with
    | true => exact pure_eq_ok_iff.1 h ▸ hadd _ groups hoccurs hgroups
    | false => exact pure_eq_ok_iff.1 h ▸ hgroups
  | .spread node, _ => by
    intro groups groups' hgroups h
    simp only [collectSelection, bind_eq_ok_iff] at h
    obtain ⟨kept, -, h⟩ := h
    cases kept with
    | true => exact hsplice node groups groups' hgroups h
    | false => exact pure_eq_ok_iff.1 h ▸ hgroups
  | .inline node selections, hoccurs => by
    intro groups groups' hgroups h
    simp only [collectSelection, bind_eq_ok_iff] at h
    obtain ⟨kept, -, h⟩ := h
    cases kept with
    | true =>
      simp only [if_true] at h
      split at h
      · exact keeps_collectSelections hclosed hadd hsplice selections
          (hclosed.inline node selections hoccurs) groups groups' hgroups h
      · exact pure_eq_ok_iff.1 h ▸ hgroups
    | false => exact pure_eq_ok_iff.1 h ▸ hgroups

private theorem keeps_collectSelections (hclosed : scope.Closed occurs)
    (hadd : ∀ field groups, occurs (.field field.node field.selections) → motive groups →
      motive (add field groups))
    {splice : SpreadNode → Collector} (hsplice : ∀ node, Keeps motive (splice node)) :
    ∀ selections : List Selection, (∀ selection ∈ selections, occurs selection) →
      Keeps motive (scope.collectSelections splice object selections)
  | [], _ => by
    intro groups groups' hgroups h
    rw [collectSelections] at h
    exact pure_eq_ok_iff.1 h ▸ hgroups
  | selection :: rest, hoccurs => by
    intro groups groups' hgroups h
    simp only [collectSelections, bind_eq_ok_iff] at h
    obtain ⟨between, hfirst, hrest⟩ := h
    have hbetween := keeps_collectSelection hclosed hadd hsplice selection
      (hoccurs selection List.mem_cons_self) groups between hgroups hfirst
    exact keeps_collectSelections hclosed hadd hsplice rest
      (fun other hmem => hoccurs other (List.mem_cons_of_mem _ hmem)) between groups' hbetween hrest

end

private theorem keeps_collectSpread (hclosed : scope.Closed occurs)
    (hadd : ∀ field groups, occurs (.field field.node field.selections) → motive groups →
      motive (add field groups))
    (budget : Nat) (node : SpreadNode) : Keeps motive (scope.collectSpread object budget node) := by
  induction budget generalizing node with
  | zero =>
    intro groups groups' hgroups h
    unfold collectSpread at h
    cases hfragment : scope.fragment? node.name with
    | none => simp [hfragment] at h
    | some fragment =>
      simp only [hfragment, bind_eq_ok_iff] at h
      obtain ⟨kept, -, h⟩ := h
      split at h
      · cases h
      · exact pure_eq_ok_iff.1 h ▸ hgroups
  | succ budget ih =>
    intro groups groups' hgroups h
    unfold collectSpread at h
    cases hfragment : scope.fragment? node.name with
    | none => simp [hfragment] at h
    | some fragment =>
      simp only [hfragment, bind_eq_ok_iff] at h
      obtain ⟨kept, -, h⟩ := h
      split at h
      · have hoccurs := hclosed.fragment fragment (List.mem_of_find?_eq_some hfragment)
        exact keeps_collectSelections hclosed hadd ih fragment.selections hoccurs groups groups'
          hgroups h
      · exact pure_eq_ok_iff.1 h ▸ hgroups

private theorem collect_induction (hclosed : scope.Closed occurs) (hnil : motive [])
    (hadd : ∀ field groups, occurs (.field field.node field.selections) → motive groups →
      motive (add field groups))
    {selections : List (List Selection)}
    (hoccurs : ∀ list ∈ selections, ∀ selection ∈ list, occurs selection)
    {groups : List FieldGroup} (h : scope.collect object selections = .ok groups) :
    motive groups := by
  unfold collect at h
  generalize [] = start at hnil h
  induction selections generalizing start with
  | nil => exact pure_eq_ok_iff.1 h ▸ hnil
  | cons list rest ih =>
    simp only [List.foldlM_cons, bind_eq_ok_iff] at h
    obtain ⟨between, hlist, hrest⟩ := h
    have hbetween := keeps_collectSelections hclosed hadd (keeps_collectSpread hclosed hadd _) list
      (hoccurs list List.mem_cons_self) start between hnil hlist
    exact ih (fun other hmem => hoccurs other (List.mem_cons_of_mem _ hmem)) between hbetween hrest

end Keeps

theorem nodup_keys_of_collect {object : String} {selections : List (List Selection)}
    {groups : List FieldGroup} (h : scope.collect object selections = .ok groups) :
    (groups.map FieldGroup.key).Nodup := by
  have hclosed : scope.Closed (fun _ => True) :=
    ⟨fun _ _ _ _ _ => trivial, fun _ _ _ _ => trivial⟩
  have hadd (field : SelectedField) (groups : List FieldGroup) (_ : True)
      (hgroups : (groups.map FieldGroup.key).Nodup) :
      ((add field groups).map FieldGroup.key).Nodup := FieldGroup.nodup_key_add hgroups
  exact collect_induction (motive := fun groups => (groups.map FieldGroup.key).Nodup) hclosed
    List.nodup_nil hadd (fun _ _ _ _ => trivial) h

theorem occurs_of_collect {occurs : Selection → Prop} (hclosed : scope.Closed occurs)
    {object : String} {selections : List (List Selection)}
    (hoccurs : ∀ list ∈ selections, ∀ selection ∈ list, occurs selection)
    {groups : List FieldGroup} (h : scope.collect object selections = .ok groups) :
    ∀ group ∈ groups, ∀ field ∈ group.fields,
      field.node.responseKey = group.key ∧ occurs (.field field.node field.selections) := by
  refine collect_induction (motive := fun groups => ∀ group ∈ groups, ∀ field ∈ group.fields,
    field.node.responseKey = group.key ∧ occurs (.field field.node field.selections)) hclosed
    ?_ (fun field groups => FieldGroup.keyed_add) hoccurs h
  simp

/-- Collection succeeds and adds to `groups` only fields of which `admitted` holds. -/
def Extends (admitted : SelectedField → Prop) (groups : List FieldGroup)
    (result : Except ExecutionFault (List FieldGroup)) : Prop :=
  ∃ groups', result = .ok groups' ∧
    ∀ field ∈ members groups', field ∈ members groups ∨ admitted field

section Extends

variable {admitted : SelectedField → Prop} {object : String} {groups : List FieldGroup}

private theorem extends_self : Extends admitted groups (pure groups) :=
  ⟨groups, rfl, fun _ hmem => .inl hmem⟩

private theorem extends_bind {first : Except ExecutionFault (List FieldGroup)} {next : Collector}
    (hfirst : Extends admitted groups first)
    (hnext : ∀ between, Extends admitted between (next between)) :
    Extends admitted groups (first >>= next) := by
  obtain ⟨between, hbetween, hold⟩ := hfirst
  obtain ⟨groups', hgroups', hnew⟩ := hnext between
  refine ⟨groups', bind_eq_ok_iff.2 ⟨between, hbetween, hgroups'⟩, fun field hmem => ?_⟩
  rcases hnew field hmem with hmem | h
  · exact hold field hmem
  · exact .inr h

private theorem extends_guarded {check : Except ExecutionFault Bool} {kept : Bool}
    (hcheck : check = .ok kept) {result : Except ExecutionFault (List FieldGroup)}
    (h : Extends admitted groups result) :
    Extends admitted groups (check >>= fun kept => if kept then result else pure groups) := by
  subst hcheck
  cases kept with
  | true => exact h
  | false => exact extends_self

private theorem extends_collectSelections {splice : SpreadNode → Collector}
    {selections : List Selection}
    (hall : ∀ selection ∈ selections, ∀ groups,
      Extends admitted groups (scope.collectSelection splice object selection groups)) :
    Extends admitted groups (scope.collectSelections splice object selections groups) := by
  induction selections generalizing groups with
  | nil => exact extends_self
  | cons selection rest ih =>
    rw [collectSelections]
    refine extends_bind (hall selection List.mem_cons_self groups) fun between => ?_
    exact ih fun other hmem => hall other (List.mem_cons_of_mem _ hmem)

end Extends

/-- The fields of valid selections, on types of which the object is admitted to be. -/
def ValidField (scope : Scope) (admits : TypeDefinition → Prop) (depth : Nat)
    (field : SelectedField) : Prop :=
  ∃ parent, admits parent ∧ scope.Valid parent depth (.field field.node field.selections)

/-- What a fragment narrows an admitted type to is admitted, if the fragment applies. -/
def Narrows (scope : Scope) (object : String) (admits : TypeDefinition → Prop) : Prop :=
  ∀ condition type, scope.system.get? condition = some type →
    scope.system.applies object condition = true → admits type

private theorem Valid.extends_collectSelection {object : String} {admits : TypeDefinition → Prop}
    (hnarrows : scope.Narrows object admits) {budget : Nat} {selection : Selection}
    (hunfolds : scope.Unfolds budget selection) {parent : TypeDefinition} {depth : Nat}
    (hadmits : admits parent) (hvalid : scope.Valid parent depth selection)
    (groups : List FieldGroup) :
    Extends (scope.ValidField admits depth) groups
      (scope.collectSelection (scope.collectSpread object budget) object selection groups) := by
  induction hunfolds generalizing parent groups with
  | @field budget node selections =>
    obtain ⟨kept, hkeeps⟩ : ∃ kept, scope.keeps .field node.directives = .ok kept := by
      cases hvalid with
      | typename hkeeps | leaf hkeeps | composite hkeeps => exact ⟨_, hkeeps⟩
    rw [collectSelection]
    refine extends_guarded hkeeps ⟨_, rfl, fun field hmem => ?_⟩
    rcases FieldGroup.mem_members_add.1 hmem with rfl | hmem
    · exact .inr ⟨parent, hadmits, hvalid⟩
    · exact .inl hmem
  | @inline budget node selections _ ih =>
    rw [collectSelection]
    cases hvalid with
    | inline hkeeps hcondition hall =>
      refine extends_guarded hkeeps ?_
      simp only [hcondition, Option.all_none, if_true]
      exact extends_collectSelections fun selection hmem =>
        ih selection hmem hadmits (hall selection hmem)
    | @inlineOn _ _ _ _ condition type _ hkeeps hcondition htype _ hall =>
      refine extends_guarded hkeeps ?_
      simp only [hcondition, Option.all_some]
      by_cases happlies : scope.system.applies object condition.name = true
      · rw [if_pos happlies]
        exact extends_collectSelections fun selection hmem =>
          ih selection hmem (hnarrows _ type htype happlies) (hall selection hmem)
      · rw [if_neg happlies]
        exact extends_self
  | @spread budget node fragment hfragment _ ih =>
    cases hvalid with
    | @spread _ _ _ _ found type keptFragment hkeeps hfound htype _ hkeepsFragment hall =>
      obtain rfl := Option.some.inj (hfragment.symm.trans hfound)
      rw [collectSelection]
      refine extends_guarded hkeeps ?_
      rw [collectSpread.eq_def]
      simp only [hfragment, hkeepsFragment]
      by_cases happlies : scope.system.applies object fragment.condition.name = true
      · simp only [happlies, Bool.and_true]
        refine extends_guarded rfl (extends_collectSelections fun selection hmem => ?_)
        exact ih selection hmem (hnarrows _ type htype happlies) (hall selection hmem)
      · simp only [happlies, Bool.and_false]
        exact extends_self

/-- Collection succeeds on valid selections and collects valid fields. -/
theorem exists_collect_eq_ok {object : String} {admits : TypeDefinition → Prop}
    (hnarrows : scope.Narrows object admits) {depth : Nat} {selections : List (List Selection)}
    (hvalid : ∀ list ∈ selections, ∃ parent, admits parent ∧
      ∀ selection ∈ list, scope.Valid parent depth selection) :
    ∃ groups, scope.collect object selections = .ok groups ∧
      ∀ group ∈ groups, ∀ field ∈ group.fields, scope.ValidField admits depth field := by
  have hextends (start : List FieldGroup) :
      Extends (scope.ValidField admits depth) start
        (selections.foldlM (fun groups list =>
          scope.collectSelections (scope.collectSpread object scope.fragments.length) object list
            groups) start) := by
    induction selections generalizing start with
    | nil => exact extends_self
    | cons list rest ih =>
      obtain ⟨parent, hadmits, hall⟩ := hvalid list List.mem_cons_self
      rw [List.foldlM_cons]
      refine extends_bind (extends_collectSelections fun selection hmem => ?_) ?_
      · exact (hall selection hmem).extends_collectSelection hnarrows
          (hall selection hmem).unfolds hadmits
      · exact ih fun other hmem => hvalid other (List.mem_cons_of_mem _ hmem)
  obtain ⟨groups, hgroups, hnew⟩ := hextends []
  refine ⟨groups, hgroups, fun group hgroup field hfield => ?_⟩
  rcases hnew field (List.mem_flatMap.2 ⟨group, hgroup, hfield⟩) with hmem | h
  · simp [members] at hmem
  · exact h

/-- The fields that selections ask of an object, with another budget for nested spreads. -/
def collectWithin (scope : Scope) (budget : Nat) (object : String)
    (selections : List (List Selection)) : Except ExecutionFault (List FieldGroup) :=
  selections.foldlM
    (fun groups list =>
      scope.collectSelections (scope.collectSpread object budget) object list groups)
    []

theorem collectSelections_congr {splice splice' : SpreadNode → Collector} {object : String}
    {selections : List Selection}
    (h : ∀ selection ∈ selections, scope.collectSelection splice' object selection =
      scope.collectSelection splice object selection) :
    scope.collectSelections splice' object selections =
      scope.collectSelections splice object selections := by
  induction selections with
  | nil => rfl
  | cons selection rest ih =>
    rw [List.forall_mem_cons] at h
    funext groups
    rw [collectSelections, collectSelections, h.1, ih h.2]

/-- More steps than spreads nest make no difference. -/
theorem Unfolds.collectSelection_eq {budget more : Nat} {selection : Selection}
    (h : scope.Unfolds budget selection) (hle : budget ≤ more) (object : String) :
    scope.collectSelection (scope.collectSpread object more) object selection =
      scope.collectSelection (scope.collectSpread object budget) object selection := by
  induction h generalizing more with
  | field => rfl
  | inline _ ih =>
    funext groups
    rw [collectSelection, collectSelection,
      collectSelections_congr fun selection hmem => ih selection hmem hle]
  | @spread budget node fragment hfragment _ ih =>
    obtain ⟨more, rfl⟩ : ∃ less, more = less + 1 := ⟨more - 1, by omega⟩
    have hinside : scope.collectSelections (scope.collectSpread object more) object
        fragment.selections = scope.collectSelections (scope.collectSpread object budget) object
        fragment.selections :=
      collectSelections_congr fun selection hmem => ih selection hmem (Nat.le_of_succ_le_succ hle)
    funext groups
    simp only [collectSelection, collectSpread, hfragment, hinside]

end Scope

end GraphQuery
