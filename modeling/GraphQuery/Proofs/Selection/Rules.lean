import GraphQuery.Proofs.Binding.Applicable
import GraphQuery.Proofs.Selection.Acyclic
import GraphQuery.Proofs.TypeSystem.Admits

/-!
# Rules for selections

What a valid operation is, without a walk: which selection sets it reaches and on which static
types, the rules for each selection in them, and how deep fields nest.
-/

namespace GraphQuery

namespace Scope

/-- The selection sets that an operation reaches, each with its static parent type, whether or not
directives keep them. -/
inductive Reachable (scope : Scope) (root : TypeDefinition) (operation : List Selection) :
    TypeDefinition → List Selection → Prop
  | operation : Reachable scope root operation root operation
  | field {parent set node selections definition type}
      (hset : Reachable scope root operation parent set) (hmem : .field node selections ∈ set)
      (hfield : parent.field? node.name = some definition)
      (htype : scope.system.innermost? definition.type = some type) :
      Reachable scope root operation type selections
  | inline {parent set node selections}
      (hset : Reachable scope root operation parent set) (hmem : .inline node selections ∈ set)
      (hcondition : node.condition = none) : Reachable scope root operation parent selections
  | inlineOn {parent set node selections condition type}
      (hset : Reachable scope root operation parent set) (hmem : .inline node selections ∈ set)
      (hcondition : node.condition = some condition)
      (htype : scope.system.get? condition.name = some type) :
      Reachable scope root operation type selections
  | spread {parent set node fragment type}
      (hset : Reachable scope root operation parent set) (hmem : .spread node ∈ set)
      (hfragment : scope.fragment? node.name = some fragment)
      (htype : scope.system.get? fragment.condition.name = some type) :
      Reachable scope root operation type fragment.selections

/-- The condition is a type that some object is of, besides the parent. -/
def Suits (scope : Scope) (parent : TypeDefinition) (condition : TypeCondition) : Prop :=
  ∃ type, scope.system.get? condition.name = some type ∧ scope.system.Meet parent type

/-- The rules for a selection on its static parent type. A field `__typename` is the name of the
object's type wherever it is selected, also on a type that declares a field of this name. -/
inductive Obeys (scope : Scope) (parent : TypeDefinition) : Selection → Prop
  | typename {node} (hdirectives : ∀ use ∈ node.directives, scope.Applicable .field use)
      (hname : node.name = "__typename") : Obeys scope parent (.field node [])
  | field {node selections definition type}
      (hdirectives : ∀ use ∈ node.directives, scope.Applicable .field use)
      (hname : node.name ≠ "__typename") (hfield : parent.field? node.name = some definition)
      (htype : scope.system.innermost? definition.type = some type)
      (hleaf : type.isLeaf = true ↔ selections = []) : Obeys scope parent (.field node selections)
  | inline {node selections}
      (hdirectives : ∀ use ∈ node.directives, scope.Applicable .inlineFragment use)
      (hcondition : ∀ condition, node.condition = some condition → scope.Suits parent condition) :
      Obeys scope parent (.inline node selections)
  | spread {node fragment}
      (hdirectives : ∀ use ∈ node.directives, scope.Applicable .fragmentSpread use)
      (hfragment : scope.fragment? node.name = some fragment)
      (hcondition : scope.Suits parent fragment.condition)
      (hdefinition : ∀ use ∈ fragment.directives, scope.Applicable .fragmentDefinition use) :
      Obeys scope parent (.spread node)

/-- A chain of `depth` fields, each selected on the one before, in a selection and the fragments
that it spreads. -/
inductive Nests (scope : Scope) : Selection → Nat → Prop
  | field {node selections} : Nests scope (.field node selections) 1
  | inside {node selections selection depth} (hmem : selection ∈ selections)
      (h : Nests scope selection depth) : Nests scope (.field node selections) (depth + 1)
  | inline {node selections selection depth} (hmem : selection ∈ selections)
      (h : Nests scope selection depth) : Nests scope (.inline node selections) depth
  | spread {node fragment selection depth}
      (hfragment : scope.fragment? node.name = some fragment)
      (hmem : selection ∈ fragment.selections) (h : Nests scope selection depth) :
      Nests scope (.spread node) depth

/-- Fields nest at most `depth` deep in the selections, and that deep if there are any. -/
structure Deepest (scope : Scope) (selections : List Selection) (depth : Nat) : Prop where
  bound : ∀ selection ∈ selections, ∀ nested, scope.Nests selection nested → nested ≤ depth
  attained : depth = 0 ∨ ∃ selection ∈ selections, scope.Nests selection depth

/-- The operation is valid on its root type. -/
structure Proper (scope : Scope) (root : TypeDefinition) (operation : List Selection) : Prop where
  obeys : ∀ parent set, scope.Reachable root operation parent set →
    ∀ selection ∈ set, scope.Obeys parent selection
  /-- No fragment that the operation reaches comes back to itself. -/
  acyclic : ∀ parent set node fragment, scope.Reachable root operation parent set →
    .spread node ∈ set → scope.fragment? node.name = some fragment →
    ∀ selection ∈ fragment.selections, ¬ scope.Reaches selection node.name

variable {scope : Scope}

section

variable {schema : ExecutableSchema} (hschema : scope.schema = schema.toSchema)

include hschema

theorem wellFormed_of_finish {draft : SchemaDraft} (hfinish : draft.finish = .ok schema) :
    scope.system.WellFormed := by
  rw [Scope.system, hschema]
  exact SchemaDraft.wellFormed_of_finish hfinish

theorem get?_root {root : ObjectType} (hroot : schema.query? = some root) :
    scope.system.get? (TypeDefinition.object root).name = some (.object root) := by
  rw [Scope.system, hschema]
  exact TypeSystem.object?_eq_some_iff.1 (TypeSystem.object?_name hroot)

end

theorem Deepest.eq {selections : List Selection} {depth other : Nat}
    (h : scope.Deepest selections depth) (hother : scope.Deepest selections other) :
    depth = other := by
  have hle {a b : Nat} (ha : scope.Deepest selections a) (hb : scope.Deepest selections b) :
      a ≤ b := by
    rcases ha.attained with rfl | ⟨selection, hmem, hnests⟩
    · exact Nat.zero_le b
    · exact hb.bound selection hmem a hnests
  exact Nat.le_antisymm (hle h hother) (hle hother h)

theorem deepest_nil : scope.Deepest [] 0 := ⟨by simp, .inl rfl⟩

theorem Deepest.append {first others : List Selection} {depth depth' : Nat}
    (h : scope.Deepest first depth) (hothers : scope.Deepest others depth') :
    scope.Deepest (first ++ others) (max depth depth') := by
  constructor
  case bound =>
    intro selection hmem nested hnests
    rcases List.mem_append.1 hmem with hmem | hmem
    · have := h.bound selection hmem nested hnests
      omega
    · have := hothers.bound selection hmem nested hnests
      omega
  case attained =>
    rcases Nat.le_total depth depth' with hle | hle
    · rw [Nat.max_eq_right hle]
      refine hothers.attained.imp_right fun ⟨selection, hmem, hnests⟩ => ?_
      exact ⟨selection, List.mem_append_right first hmem, hnests⟩
    · rw [Nat.max_eq_left hle]
      refine h.attained.imp_right fun ⟨selection, hmem, hnests⟩ => ?_
      exact ⟨selection, List.mem_append_left others hmem, hnests⟩

theorem deepest_cons {selection : Selection} {rest : List Selection} {first others : Nat}
    (hfirst : scope.Deepest [selection] first) (hothers : scope.Deepest rest others) :
    scope.Deepest (selection :: rest) (max first others) := hfirst.append hothers

theorem deepest_field {node : FieldNode} {selections : List Selection} {depth : Nat}
    (h : scope.Deepest selections depth) : scope.Deepest [.field node selections] (1 + depth) := by
  refine ⟨List.forall_mem_singleton.2 fun nested hnests => ?_, .inr ⟨_, List.mem_cons_self, ?_⟩⟩
  · cases hnests with
    | field => omega
    | inside hmem hnests =>
      have := h.bound _ hmem _ hnests
      omega
  · rw [Nat.add_comm]
    rcases h.attained with rfl | ⟨selection, hmem, hnests⟩
    · exact .field
    · exact .inside hmem hnests

theorem deepest_inline {node : InlineNode} {selections : List Selection} {depth : Nat}
    (h : scope.Deepest selections depth) : scope.Deepest [.inline node selections] depth := by
  refine ⟨List.forall_mem_singleton.2 fun nested hnests => ?_, ?_⟩
  · cases hnests with
    | inline hmem hnests => exact h.bound _ hmem nested hnests
  · exact h.attained.imp_right fun ⟨selection, hmem, hnests⟩ =>
      ⟨_, List.mem_cons_self, .inline hmem hnests⟩

theorem deepest_spread {node : SpreadNode} {fragment : Fragment} {depth : Nat}
    (hfragment : scope.fragment? node.name = some fragment)
    (h : scope.Deepest fragment.selections depth) : scope.Deepest [.spread node] depth := by
  refine ⟨List.forall_mem_singleton.2 fun nested hnests => ?_, ?_⟩
  · cases hnests with
    | spread hfound hmem hnests =>
      obtain rfl := Option.some.inj (hfound.symm.trans hfragment)
      exact h.bound _ hmem nested hnests
  · exact h.attained.imp_right fun ⟨selection, hmem, hnests⟩ =>
      ⟨_, List.mem_cons_self, .spread hfragment hmem hnests⟩

section

variable {root parent : TypeDefinition} {operation set : List Selection}

theorem Reachable.registered (hroot : scope.system.get? root.name = some root)
    (h : scope.Reachable root operation parent set) :
    scope.system.get? parent.name = some parent := by
  induction h with
  | operation => exact hroot
  | inline _ _ _ ih => exact ih
  | field _ _ _ htype | inlineOn _ _ _ htype | spread _ _ _ htype =>
    rw [TypeSystem.name_of_get? htype]
    exact htype

/-- What a valid operation reaches is valid on its static type, up to the same depth. -/
theorem Reachable.valid {depth : Nat}
    (hoperation : ∀ selection ∈ operation, scope.Valid root depth selection)
    (h : scope.Reachable root operation parent set) :
    ∀ selection ∈ set, scope.Valid parent depth selection := by
  induction h with
  | operation => exact hoperation
  | field _ hmem hfield htype ih =>
    cases ih _ hmem with
    | typename | leaf => simp
    | composite _ _ hfound hother _ _ hbelow =>
      obtain rfl := Option.some.inj (hfound.symm.trans hfield)
      obtain rfl := Option.some.inj (hother.symm.trans htype)
      exact fun selection hinside => (hbelow selection hinside).mono (Nat.le_succ _)
  | inline _ hmem hcondition ih =>
    cases ih _ hmem with
    | inline _ _ hinside => exact hinside
    | inlineOn _ hother => cases hother.symm.trans hcondition
  | inlineOn _ hmem hcondition htype ih =>
    cases ih _ hmem with
    | inline _ hother => cases hother.symm.trans hcondition
    | inlineOn _ hother hfound _ hinside =>
      obtain rfl := Option.some.inj (hother.symm.trans hcondition)
      obtain rfl := Option.some.inj (hfound.symm.trans htype)
      exact hinside
  | spread _ hmem hfragment htype ih =>
    cases ih _ hmem with
    | spread _ hfound hother _ _ hinside =>
      obtain rfl := Option.some.inj (hfound.symm.trans hfragment)
      obtain rfl := Option.some.inj (hother.symm.trans htype)
      exact hinside

theorem suits_iff (hwell : scope.system.WellFormed)
    (hparent : scope.system.get? parent.name = some parent) {condition : TypeCondition} :
    scope.Suits parent condition ↔ ∃ type, scope.system.get? condition.name = some type ∧
      scope.system.overlap parent.name type.name = true := by
  refine exists_congr fun type => and_congr_right fun htype => ?_
  have hname := TypeSystem.name_of_get? htype
  exact (TypeSystem.overlap_iff_meet hwell hparent (hname ▸ htype)).symm

private theorem Valid.obeys (hwell : scope.system.WellFormed)
    (hparent : scope.system.get? parent.name = some parent) {depth : Nat} {selection : Selection}
    (h : scope.Valid parent depth selection) : scope.Obeys parent selection := by
  have hsuits {condition : TypeCondition} {type : TypeDefinition}
      (htype : scope.system.get? condition.name = some type)
      (hoverlap : scope.system.overlap parent.name type.name = true) :
      scope.Suits parent condition := (suits_iff hwell hparent).2 ⟨type, htype, hoverlap⟩
  cases h with
  | typename hkeeps hname => exact .typename (Bindings.exists_keeps_iff.1 ⟨_, hkeeps⟩) hname
  | leaf hkeeps hname hfield htype hleaf =>
    exact .field (Bindings.exists_keeps_iff.1 ⟨_, hkeeps⟩) hname hfield htype (by simp [hleaf])
  | composite hkeeps hname hfield htype hleaf hsome =>
    exact .field (Bindings.exists_keeps_iff.1 ⟨_, hkeeps⟩) hname hfield htype
      (by simp [hleaf, hsome])
  | inline hkeeps hcondition =>
    refine .inline (Bindings.exists_keeps_iff.1 ⟨_, hkeeps⟩) fun condition hother => ?_
    cases hother.symm.trans hcondition
  | inlineOn hkeeps hcondition htype hoverlap =>
    refine .inline (Bindings.exists_keeps_iff.1 ⟨_, hkeeps⟩) fun condition hother => ?_
    obtain rfl := Option.some.inj (hother.symm.trans hcondition)
    exact hsuits htype hoverlap
  | spread hkeeps hfragment htype hoverlap hdefinition =>
    exact .spread (Bindings.exists_keeps_iff.1 ⟨_, hkeeps⟩) hfragment
      (hsuits htype hoverlap) (Bindings.exists_keeps_iff.1 ⟨_, hdefinition⟩)

/-- Operations that are valid in the sense of the walk are proper. -/
theorem proper_of_valid (hwell : scope.system.WellFormed)
    (hroot : scope.system.get? root.name = some root) {depth : Nat}
    (hoperation : ∀ selection ∈ operation, scope.Valid root depth selection) :
    scope.Proper root operation := by
  constructor
  case obeys =>
    intro parent set hset selection hmem
    exact (hset.valid hoperation selection hmem).obeys hwell (hset.registered hroot)
  case acyclic =>
    intro parent set node fragment hset hmem hfragment selection hinside
    exact (hset.valid hoperation _ hmem).not_reaches_self .spread hfragment hinside

end

end Scope

end GraphQuery
