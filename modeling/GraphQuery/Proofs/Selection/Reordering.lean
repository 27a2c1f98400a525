import GraphQuery.Proofs.Binding.Positions
import GraphQuery.Proofs.Selection.Composition
import GraphQuery.Proofs.Selection.Grouping

/-!
# Reordered selections

Selections in another order, at any depth and also inside fragments, wherever their nodes stand
then. Main statements: the walk accepts them if it has accepted the selections before, and they ask
for the same fields under the same keys.
-/

namespace GraphQuery

open List (Forall₂ Perm)

/-- The field elsewhere in the document. -/
structure FieldNode.Moved (node moved : FieldNode) : Prop where
  aliasName : moved.aliasName = node.aliasName
  call : node.SameCall moved

structure SpreadNode.Moved (node moved : SpreadNode) : Prop where
  name : moved.name = node.name
  directives : moved.directives.map DirectiveUse.content = node.directives.map DirectiveUse.content

structure InlineNode.Moved (node moved : InlineNode) : Prop where
  condition : moved.condition.map TypeCondition.name = node.condition.map TypeCondition.name
  directives : moved.directives.map DirectiveUse.content = node.directives.map DirectiveUse.content

private theorem FieldNode.Moved.responseKey_eq {node moved : FieldNode} (h : node.Moved moved) :
    moved.responseKey = node.responseKey := by
  rw [responseKey, responseKey, h.aliasName, h.call.name]

private theorem InlineNode.Moved.all_condition {node moved : InlineNode} (h : node.Moved moved)
    (applies : String → Bool) :
    (moved.condition.all fun condition => applies condition.name) =
      node.condition.all fun condition => applies condition.name := by
  have hall (condition : Option TypeCondition) :
      (condition.all fun condition => applies condition.name) =
        (condition.map TypeCondition.name).all applies := by
    cases condition <;> rfl
  rw [hall, hall, h.condition]

/-- The same selections in another order, at any depth. -/
inductive Reorders : List Selection → List Selection → Prop
  | nil : Reorders [] []
  | field {node moved selections selections' rest rest'} (hnode : node.Moved moved)
      (hinside : Reorders selections selections') (hrest : Reorders rest rest') :
      Reorders (.field node selections :: rest) (.field moved selections' :: rest')
  | spread {node moved rest rest'} (hnode : node.Moved moved) (hrest : Reorders rest rest') :
      Reorders (.spread node :: rest) (.spread moved :: rest')
  | inline {node moved selections selections' rest rest'} (hnode : node.Moved moved)
      (hinside : Reorders selections selections') (hrest : Reorders rest rest') :
      Reorders (.inline node selections :: rest) (.inline moved selections' :: rest')
  | perm {selections between selections'} (h : Reorders selections between)
      (hperm : between.Perm selections') : Reorders selections selections'

/-- The selection elsewhere, with what is inside in another order. -/
inductive Selection.Counterpart : Selection → Selection → Prop
  | field {node moved selections selections'} (hnode : node.Moved moved)
      (hinside : Reorders selections selections') :
      Counterpart (.field node selections) (.field moved selections')
  | spread {node moved} (hnode : node.Moved moved) : Counterpart (.spread node) (.spread moved)
  | inline {node moved selections selections'} (hnode : node.Moved moved)
      (hinside : Reorders selections selections') :
      Counterpart (.inline node selections) (.inline moved selections')

/-- The fragment with its selections in another order. -/
structure Fragment.Reordered (fragment other : Fragment) : Prop where
  name : other.name = fragment.name
  condition : other.condition.name = fragment.condition.name
  directives : other.directives.map DirectiveUse.content =
    fragment.directives.map DirectiveUse.content
  selections : Reorders fragment.selections other.selections

section

variable {selection : Selection} {selections selections' others others' : List Selection}

private theorem Reorders.append (h : Reorders selections selections')
    (hothers : Reorders others others') :
    Reorders (selections ++ others) (selections' ++ others') := by
  induction h with
  | nil => exact hothers
  | field hnode hinside _ _ ih => exact .field hnode hinside ih
  | spread hnode _ ih => exact .spread hnode ih
  | inline hnode hinside _ _ ih => exact .inline hnode hinside ih
  | perm _ hperm ih => exact .perm ih (hperm.append_right others')

private theorem Reorders.exists_forall₂ (h : Reorders selections selections') :
    ∃ between, Forall₂ Selection.Counterpart selections between ∧ between.Perm selections' := by
  induction h with
  | nil => exact ⟨[], .nil, .refl []⟩
  | field hnode hinside _ _ ih =>
    obtain ⟨between, hall, hperm⟩ := ih
    exact ⟨_, .cons (.field hnode hinside) hall, hperm.cons _⟩
  | spread hnode _ ih =>
    obtain ⟨between, hall, hperm⟩ := ih
    exact ⟨_, .cons (.spread hnode) hall, hperm.cons _⟩
  | inline hnode hinside _ _ ih =>
    obtain ⟨between, hall, hperm⟩ := ih
    exact ⟨_, .cons (.inline hnode hinside) hall, hperm.cons _⟩
  | perm _ hperm ih =>
    obtain ⟨between, hall, hbetween⟩ := ih
    exact ⟨between, hall, hbetween.trans hperm⟩

private theorem Reorders.ite (h : Reorders selections selections') (condition : Bool) :
    Reorders (if condition then selections else []) (if condition then selections' else []) := by
  cases condition with
  | true => exact h
  | false => exact .nil

private theorem reorders_of_forall₂ (h : Forall₂ Selection.Counterpart selections selections') :
    Reorders selections selections' := by
  induction h with
  | nil => exact .nil
  | cons hcounterpart _ ih =>
    cases hcounterpart with
    | field hnode hinside => exact .field hnode hinside ih
    | spread hnode => exact .spread hnode ih
    | inline hnode hinside => exact .inline hnode hinside ih

private theorem Reorders.exists_cons {rest : List Selection}
    (h : Reorders (selection :: rest) selections') :
    ∃ selection' rest', selection.Counterpart selection' ∧ Reorders rest rest' ∧
      (selection' :: rest').Perm selections' := by
  obtain ⟨between, hall, hperm⟩ := h.exists_forall₂
  cases hall with
  | cons hcounterpart hrest => exact ⟨_, _, hcounterpart, reorders_of_forall₂ hrest, hperm⟩

private theorem Reorders.eq_nil_iff (h : Reorders selections selections') :
    selections' = [] ↔ selections = [] := by
  obtain ⟨between, hall, hperm⟩ := h.exists_forall₂
  rw [← List.length_eq_zero_iff, ← List.length_eq_zero_iff, hall.length_eq, hperm.length_eq]

private theorem Reorders.exists_left (h : Reorders selections selections') :
    ∀ selection' ∈ selections', ∃ selection ∈ selections, selection.Counterpart selection' := by
  intro selection' hmem
  obtain ⟨between, hall, hperm⟩ := h.exists_forall₂
  exact exists_of_mem_right hall (hperm.mem_iff.2 hmem)

private theorem Reorders.forall_mem (h : Reorders selections selections') {P : Selection → Prop}
    (hcounterparts : ∀ selection ∈ selections, ∀ selection', selection.Counterpart selection' →
      P selection') : ∀ selection' ∈ selections', P selection' := by
  intro selection' hmem
  obtain ⟨selection, hselection, hcounterpart⟩ := h.exists_left selection' hmem
  exact hcounterparts selection hselection selection' hcounterpart

private theorem Reorders.exists_right (h : Reorders selections selections') :
    ∀ selection ∈ selections, ∃ selection' ∈ selections', selection.Counterpart selection' := by
  intro selection hmem
  obtain ⟨between, hall, hperm⟩ := h.exists_forall₂
  obtain ⟨selection', hmem', hcounterpart⟩ := exists_of_mem_left hall hmem
  exact ⟨selection', hperm.mem_iff.1 hmem', hcounterpart⟩

end

/-- The field elsewhere, with its selections in another order. -/
structure SelectedField.Counterpart (field field' : SelectedField) : Prop where
  node : field.node.Moved field'.node
  selections : Reorders field.selections field'.selections

/-- Fields in another order, each with its selections in another order. -/
def FieldsReorder (fields fields' : List SelectedField) : Prop :=
  ∃ between, Forall₂ SelectedField.Counterpart fields between ∧ between.Perm fields'

namespace FieldsReorder

variable {field field' : SelectedField} {fields fields' others others' : List SelectedField}

private theorem nil : FieldsReorder [] [] := ⟨[], .nil, .refl []⟩

private theorem cons (h : FieldsReorder fields fields') (hfield : field.Counterpart field') :
    FieldsReorder (field :: fields) (field' :: fields') := by
  obtain ⟨between, hall, hperm⟩ := h
  exact ⟨field' :: between, .cons hfield hall, hperm.cons field'⟩

private theorem append (h : FieldsReorder fields fields') (hothers : FieldsReorder others others') :
    FieldsReorder (fields ++ others) (fields' ++ others') := by
  obtain ⟨between, hall, hperm⟩ := h
  obtain ⟨between', hall', hperm'⟩ := hothers
  exact ⟨between ++ between', List.rel_append hall hall', hperm.append hperm'⟩

private theorem trans_perm (h : FieldsReorder fields fields') (hperm : fields'.Perm others) :
    FieldsReorder fields others := by
  obtain ⟨between, hall, hbetween⟩ := h
  exact ⟨between, hall, hbetween.trans hperm⟩

private theorem filter_key (h : FieldsReorder fields fields') (key : String) :
    FieldsReorder (fields.filter fun field => field.node.responseKey = key)
      (fields'.filter fun field => field.node.responseKey = key) := by
  obtain ⟨between, hall, hperm⟩ := h
  refine ⟨_, ?_, hperm.filter _⟩
  clear hperm
  induction hall with
  | nil => exact .nil
  | @cons field other _ _ hfield _ ih =>
    rw [List.filter_cons, List.filter_cons, hfield.node.responseKey_eq]
    split
    · exact .cons hfield ih
    · exact ih

theorem exists_counterpart (h : FieldsReorder fields fields') (hmem : field' ∈ fields') :
    ∃ field ∈ fields, field.Counterpart field' := by
  obtain ⟨between, hall, hperm⟩ := h
  exact exists_of_mem_right hall (hperm.mem_iff.2 hmem)

private theorem mem_keys_iff (h : FieldsReorder fields fields') {key : String} :
    key ∈ fields'.map (fun field => field.node.responseKey) ↔
      key ∈ fields.map fun field => field.node.responseKey := by
  obtain ⟨between, hall, hperm⟩ := h
  have hsame : between.map (fun field => field.node.responseKey) =
      fields.map fun field => field.node.responseKey :=
    map_eq_of_forall₂ hall fun _ _ hfield => hfield.node.responseKey_eq
  rw [← hsame]
  exact (hperm.map _).mem_iff.symm

theorem selections (h : FieldsReorder fields fields') :
    Reorders (fields.map SelectedField.selections).flatten
      (fields'.map SelectedField.selections).flatten := by
  obtain ⟨between, hall, hperm⟩ := h
  refine .perm ?_ (hperm.map _).flatten
  clear hperm
  induction hall with
  | nil => exact .nil
  | cons hfield _ ih => exact hfield.selections.append ih

end FieldsReorder

/-- Groups under the same keys, with the fields of each key in another order. -/
structure GroupsReorder (groups groups' : List FieldGroup) : Prop where
  keys : (groups'.map FieldGroup.key).Perm (groups.map FieldGroup.key)
  fields : ∀ group ∈ groups, ∀ group' ∈ groups', group'.key = group.key →
    FieldsReorder group.fields group'.fields

private theorem FieldsReorder.groups {fields fields' : List SelectedField}
    (h : FieldsReorder fields fields') :
    GroupsReorder (FieldGroup.addAll [] fields) (FieldGroup.addAll [] fields') where
  keys := by
    refine (List.perm_ext_iff_of_nodup (FieldGroup.nodup_keys_addAll fields')
      (FieldGroup.nodup_keys_addAll fields)).2 fun key => ?_
    rw [FieldGroup.mem_keys_addAll, FieldGroup.mem_keys_addAll, h.mem_keys_iff]
  fields group hgroup group' hgroup' hkey := by
    rw [FieldGroup.fields_of_mem_addAll hgroup, FieldGroup.fields_of_mem_addAll hgroup', hkey]
    exact h.filter_key group.key

namespace Scope

variable {scope : Scope} {fragments : List Fragment} {object : String}
  {selection selection' : Selection} {selections selections' : List Selection}

section

variable (hfragments : Forall₂ Fragment.Reordered scope.fragments fragments)

include hfragments

private theorem exists_fragment_reordered {name : String} {fragment : Fragment}
    (hfragment : scope.fragment? name = some fragment) :
    ∃ other, (scope.withFragments fragments).fragment? name = some other ∧
      fragment.Reordered other := by
  have hfound : Option.Rel Fragment.Reordered (scope.fragment? name)
      ((scope.withFragments fragments).fragment? name) :=
    rel_find? hfragments fun _ _ hreordered => by rw [hreordered.name]
  rw [hfragment] at hfound
  exact exists_of_rel_some hfound

private theorem Valid.counterpart {parent : TypeDefinition} {depth : Nat}
    (h : scope.Valid parent depth selection) (hcounterpart : selection.Counterpart selection') :
    (scope.withFragments fragments).Valid parent depth selection' := by
  induction h generalizing selection' with
  | typename hkeeps hname =>
    cases hcounterpart with
    | field hnode hinside =>
      obtain rfl := hinside.eq_nil_iff.2 rfl
      exact .typename (Bindings.keeps_eq_ok_of_content .field hnode.call.directives hkeeps)
        (hnode.call.name.trans hname)
  | leaf hkeeps hname hfield htype hleaf =>
    cases hcounterpart with
    | field hnode hinside =>
      obtain rfl := hinside.eq_nil_iff.2 rfl
      rw [← hnode.call.name] at hname hfield
      exact .leaf (Bindings.keeps_eq_ok_of_content .field hnode.call.directives hkeeps) hname hfield
        htype hleaf
  | composite hkeeps hname hfield htype hleaf hsome _ ih =>
    cases hcounterpart with
    | field hnode hinside =>
      rw [← hnode.call.name] at hname hfield
      refine .composite (Bindings.keeps_eq_ok_of_content .field hnode.call.directives hkeeps) hname
        hfield htype hleaf (mt hinside.eq_nil_iff.1 hsome) ?_
      exact hinside.forall_mem fun inner hmem _ hsame => ih inner hmem hsame
  | inline hkeeps hcondition _ ih =>
    cases hcounterpart with
    | @inline _ moved _ _ hnode hinside =>
      have hcondition' : moved.condition = none := by
        simpa [hcondition] using hnode.condition
      refine .inline (Bindings.keeps_eq_ok_of_content .inlineFragment hnode.directives hkeeps)
        hcondition' ?_
      exact hinside.forall_mem fun inner hmem _ hsame => ih inner hmem hsame
  | inlineOn hkeeps hcondition htype hoverlap _ ih =>
    cases hcounterpart with
    | inline hnode hinside =>
      obtain ⟨condition', hcondition', hname⟩ : ∃ condition', _ ∧ _ :=
        Option.map_eq_some_iff.1 (hcondition ▸ hnode.condition)
      refine .inlineOn (Bindings.keeps_eq_ok_of_content .inlineFragment hnode.directives hkeeps)
        hcondition' (hname ▸ htype) hoverlap ?_
      exact hinside.forall_mem fun inner hmem _ hsame => ih inner hmem hsame
  | spread hkeeps hfragment htype hoverlap hdefinition _ ih =>
    cases hcounterpart with
    | spread hnode =>
      obtain ⟨other, hother, hreordered⟩ := exists_fragment_reordered hfragments hfragment
      rw [← hnode.name] at hother
      refine .spread
        (Bindings.keeps_eq_ok_of_content .fragmentSpread hnode.directives hkeeps) hother
        (hreordered.condition ▸ htype) hoverlap
        (Bindings.keeps_eq_ok_of_content .fragmentDefinition hreordered.directives hdefinition) ?_
      exact hreordered.selections.forall_mem fun inner hmem _ hsame => ih inner hmem hsame

private theorem valid_reordered {parent : TypeDefinition} {depth : Nat}
    (hvalid : ∀ selection ∈ selections, scope.Valid parent depth selection)
    (h : Reorders selections selections') :
    ∀ selection' ∈ selections', (scope.withFragments fragments).Valid parent depth selection' :=
  h.forall_mem fun selection hmem _ hcounterpart =>
    (hvalid selection hmem).counterpart hfragments hcounterpart

end

private theorem Nests.le_of_valid {nested : Nat} (h : scope.Nests selection nested)
    {parent : TypeDefinition}
    {depth : Nat} (hvalid : scope.Valid parent depth selection) : nested ≤ depth := by
  induction h generalizing parent depth with
  | field => cases hvalid with
    | typename | leaf | composite => exact Nat.le_add_left 1 _
  | inside hmem _ ih =>
    cases hvalid with
    | typename | leaf => cases hmem
    | composite _ _ _ _ _ _ hall => exact Nat.succ_le_succ (ih (hall _ hmem))
  | inline hmem _ ih =>
    cases hvalid with
    | inline _ _ hall | inlineOn _ _ _ _ hall => exact ih (hall _ hmem)
  | spread hfragment hmem _ ih =>
    cases hvalid with
    | spread _ hfound _ _ _ hall =>
      obtain rfl := Option.some.inj (hfound.symm.trans hfragment)
      exact ih (hall _ hmem)

private theorem Nests.counterpart
    (hfragments : Forall₂ Fragment.Reordered scope.fragments fragments)
    {nested : Nat} (h : scope.Nests selection nested)
    (hcounterpart : selection.Counterpart selection') :
    (scope.withFragments fragments).Nests selection' nested := by
  induction h generalizing selection' with
  | field =>
    cases hcounterpart with
    | field => exact .field
  | inside hmem _ ih =>
    cases hcounterpart with
    | field _ hinside =>
      obtain ⟨inner', hmem', hinner⟩ := hinside.exists_right _ hmem
      exact .inside hmem' (ih hinner)
  | inline hmem _ ih =>
    cases hcounterpart with
    | inline _ hinside =>
      obtain ⟨inner', hmem', hinner⟩ := hinside.exists_right _ hmem
      exact .inline hmem' (ih hinner)
  | spread hfragment hmem _ ih =>
    cases hcounterpart with
    | spread hnode =>
      obtain ⟨other, hother, hreordered⟩ := exists_fragment_reordered hfragments hfragment
      obtain ⟨inner', hmem', hinner⟩ := hreordered.selections.exists_right _ hmem
      exact .spread (hnode.name ▸ hother) hmem' (ih hinner)

theorem depth_reordered (hfragments : Forall₂ Fragment.Reordered scope.fragments fragments)
    (hwell : scope.system.WellFormed) {root : TypeDefinition}
    (hroot : scope.system.get? root.name = some root) (h : Reorders selections selections')
    {depth : Nat} (hdepth : scope.depth root selections = .ok depth) :
    (scope.withFragments fragments).depth root selections' = .ok depth := by
  have hwell' : (scope.withFragments fragments).system.WellFormed := hwell
  have hvalid := valid_reordered hfragments (valid_of_depth_eq_ok hdepth) h
  have hdeepest := ((depth_eq_ok_iff hwell hroot).1 hdepth).2
  refine (depth_eq_ok_iff hwell' hroot).2 ⟨proper_of_valid hwell' hroot hvalid, ?_, ?_⟩
  · intro selection' hmem nested hnests
    exact hnests.le_of_valid (hvalid selection' hmem)
  · refine hdeepest.attained.imp_right fun ⟨selection, hmem, hnests⟩ => ?_
    obtain ⟨selection', hmem', hcounterpart⟩ := h.exists_right selection hmem
    exact ⟨selection', hmem', hnests.counterpart hfragments hcounterpart⟩

private theorem Opens.counterpart
    (hfragments : Forall₂ Fragment.Reordered scope.fragments fragments)
    {body : List Selection} (h : scope.Opens object selection body)
    (hcounterpart : selection.Counterpart selection') :
    ∃ body', (scope.withFragments fragments).Opens object selection' body' ∧
      Reorders body body' := by
  cases h with
  | @inline node _ kept hkeeps =>
    cases hcounterpart with
    | @inline _ moved _ selections' hnode hinside =>
      have hopens : (scope.withFragments fragments).Opens object (.inline moved selections') _ :=
        .inline (Bindings.keeps_eq_ok_of_content .inlineFragment hnode.directives hkeeps)
      rw [hnode.all_condition ((scope.withFragments fragments).system.applies object)] at hopens
      exact ⟨_, hopens, hinside.ite _⟩
  | dropped hkeeps =>
    cases hcounterpart with
    | spread hnode =>
      exact ⟨[], .dropped (Bindings.keeps_eq_ok_of_content .fragmentSpread hnode.directives hkeeps),
        .nil⟩
  | @spread node fragment kept hkeeps hfragment hdefinition =>
    cases hcounterpart with
    | @spread _ moved hnode =>
      obtain ⟨other, hother, hreordered⟩ := exists_fragment_reordered hfragments hfragment
      rw [← hnode.name] at hother
      have hopens : (scope.withFragments fragments).Opens object (.spread moved) _ := .spread
        (Bindings.keeps_eq_ok_of_content .fragmentSpread hnode.directives hkeeps) hother
        (Bindings.keeps_eq_ok_of_content .fragmentDefinition hreordered.directives hdefinition)
      rw [hreordered.condition] at hopens
      exact ⟨_, hopens, hreordered.selections.ite _⟩

private theorem Flattens.perm {fields : List SelectedField}
    (h : scope.Flattens object selections fields)
    (hperm : selections.Perm selections') :
    ∃ fields', scope.Flattens object selections' fields' ∧ fields.Perm fields' := by
  induction hperm generalizing fields with
  | nil => exact ⟨fields, h, .refl _⟩
  | cons selection _ ih =>
    obtain ⟨inside, more, hinside, hmore, rfl⟩ := h.exists_cons
    obtain ⟨more', hmore', hperm⟩ := ih hmore
    exact ⟨inside ++ more', hinside.append hmore', hperm.append_left inside⟩
  | swap second first rest =>
    obtain ⟨inside, more, hinside, hmore, rfl⟩ := h.exists_cons
    obtain ⟨inside', rest, hinside', hrest, rfl⟩ := hmore.exists_cons
    refine ⟨inside' ++ (inside ++ rest), hinside'.append (hinside.append hrest), ?_⟩
    rw [← List.append_assoc, ← List.append_assoc]
    exact List.perm_append_comm.append_right rest
  | trans _ _ ih₁ ih₂ =>
    obtain ⟨between, hbetween, hperm⟩ := ih₁ h
    obtain ⟨fields', hfields', hperm'⟩ := ih₂ hbetween
    exact ⟨fields', hfields', hperm.trans hperm'⟩

/-- Reordered selections ask for the same fields in another order. -/
theorem Flattens.reordered (hfragments : Forall₂ Fragment.Reordered scope.fragments fragments)
    {fields : List SelectedField} (h : scope.Flattens object selections fields)
    (hreorders : Reorders selections selections') :
    ∃ fields', (scope.withFragments fragments).Flattens object selections' fields' ∧
      FieldsReorder fields fields' := by
  induction h generalizing selections' with
  | nil =>
    obtain rfl := hreorders.eq_nil_iff.2 rfl
    exact ⟨[], .nil, .nil⟩
  | @field node selections kept rest fields hkeeps _ ih =>
    obtain ⟨selection', rest', hcounterpart, hrest, hperm⟩ := hreorders.exists_cons
    cases hcounterpart with
    | @field _ moved _ inner' hnode hinside =>
      obtain ⟨fields', hfields', hfieldsReorder⟩ := ih hrest
      have hflattens : (scope.withFragments fragments).Flattens object
          (.field moved inner' :: rest') _ :=
        .field (Bindings.keeps_eq_ok_of_content .field hnode.call.directives hkeeps) hfields'
      obtain ⟨fields'', hfields'', hperm'⟩ := hflattens.perm hperm
      refine ⟨fields'', hfields'', ?_⟩
      cases kept with
      | true => exact (hfieldsReorder.cons ⟨hnode, hinside⟩).trans_perm hperm'
      | false => exact hfieldsReorder.trans_perm hperm'
  | fragment hopens _ _ ihbody ihrest =>
    obtain ⟨selection', rest', hcounterpart, hrest, hperm⟩ := hreorders.exists_cons
    obtain ⟨body', hopens', hbody⟩ := hopens.counterpart hfragments hcounterpart
    obtain ⟨inside', hinside', hinsideReorder⟩ := ihbody hbody
    obtain ⟨fields', hfields', hfieldsReorder⟩ := ihrest hrest
    obtain ⟨fields'', hfields'', hperm'⟩ := (Flattens.fragment hopens' hinside' hfields').perm hperm
    exact ⟨fields'', hfields'', (hinsideReorder.append hfieldsReorder).trans_perm hperm'⟩

theorem collect_reordered (hfragments : Forall₂ Fragment.Reordered scope.fragments fragments)
    {selections selections' : List (List Selection)}
    (hvalid : ∀ list ∈ selections, ∀ selection ∈ list,
      ∃ parent depth, scope.Valid parent depth selection)
    (h : Reorders selections.flatten selections'.flatten) (object : String) :
    ∃ groups groups', scope.collect object selections = .ok groups ∧
      (scope.withFragments fragments).collect object selections' = .ok groups' ∧
      GroupsReorder groups groups' := by
  obtain ⟨fields, hfields⟩ := exists_flattens hvalid object
  obtain ⟨fields', hfields', hreorder⟩ := hfields.reordered hfragments h
  have hvalid' : ∀ list ∈ selections', ∀ selection ∈ list,
      ∃ parent depth, (scope.withFragments fragments).Valid parent depth selection := by
    intro list' hlist' selection' hmem'
    obtain ⟨selection, hmem, hcounterpart⟩ :=
      h.exists_left selection' (List.mem_flatten.2 ⟨list', hlist', hmem'⟩)
    obtain ⟨list, hlist, hselection⟩ := List.mem_flatten.1 hmem
    obtain ⟨parent, depth, hvalid⟩ := hvalid list hlist selection hselection
    exact ⟨parent, depth, hvalid.counterpart hfragments hcounterpart⟩
  exact ⟨_, _, collect_eq_of_flattens hvalid hfields, collect_eq_of_flattens hvalid' hfields',
    hreorder.groups⟩

end Scope

end GraphQuery
