import GraphQuery.Proofs.Success
import GraphQuery.Selection.Walk

/-!
# Valid selections

The rules of the validation walk as a relation, without its memory of finished fragments and
without a budget. A selection is valid on its static parent type up to a depth; a derivation is
finite, so no fragment in it reaches itself. Main statement: what the walk accepts is valid up to
the depth that it returns.
-/

namespace GraphQuery

namespace Scope

variable {scope : Scope}

/-- The selection may stand on the type `parent`, and its fields nest at most `depth` deep. -/
inductive Valid (scope : Scope) : TypeDefinition → Nat → Selection → Prop
  | typename {parent depth node kept}
      (hkeeps : scope.keeps .field node.directives = .ok kept)
      (hname : node.name = "__typename") :
      Valid scope parent (depth + 1) (.field node [])
  | leaf {parent depth node kept definition type}
      (hkeeps : scope.keeps .field node.directives = .ok kept)
      (hname : node.name ≠ "__typename")
      (hfield : parent.field? node.name = some definition)
      (htype : scope.system.innermost? definition.type = some type)
      (hleaf : type.isLeaf = true) :
      Valid scope parent (depth + 1) (.field node [])
  | composite {parent depth node kept definition type selections}
      (hkeeps : scope.keeps .field node.directives = .ok kept)
      (hname : node.name ≠ "__typename")
      (hfield : parent.field? node.name = some definition)
      (htype : scope.system.innermost? definition.type = some type)
      (hleaf : type.isLeaf = false)
      (hsome : selections ≠ [])
      (hall : ∀ selection ∈ selections, Valid scope type depth selection) :
      Valid scope parent (depth + 1) (.field node selections)
  | inline {parent depth node kept selections}
      (hkeeps : scope.keeps .inlineFragment node.directives = .ok kept)
      (hcondition : node.condition = none)
      (hall : ∀ selection ∈ selections, Valid scope parent depth selection) :
      Valid scope parent depth (.inline node selections)
  | inlineOn {parent depth node kept condition type selections}
      (hkeeps : scope.keeps .inlineFragment node.directives = .ok kept)
      (hcondition : node.condition = some condition)
      (htype : scope.system.get? condition.name = some type)
      (hoverlap : scope.system.overlap parent.name type.name = true)
      (hall : ∀ selection ∈ selections, Valid scope type depth selection) :
      Valid scope parent depth (.inline node selections)
  | spread {parent depth node kept fragment type keptFragment}
      (hkeeps : scope.keeps .fragmentSpread node.directives = .ok kept)
      (hfragment : scope.fragment? node.name = some fragment)
      (htype : scope.system.get? fragment.condition.name = some type)
      (hoverlap : scope.system.overlap parent.name type.name = true)
      (hkeepsFragment :
        scope.keeps .fragmentDefinition fragment.directives = .ok keptFragment)
      (hall : ∀ selection ∈ fragment.selections, Valid scope type depth selection) :
      Valid scope parent depth (.spread node)

theorem Valid.mono {parent : TypeDefinition} {depth more : Nat} {selection : Selection}
    (h : scope.Valid parent depth selection) (hle : depth ≤ more) :
    scope.Valid parent more selection := by
  induction h generalizing more with
  | typename hkeeps hname =>
    obtain ⟨more, rfl⟩ := Nat.exists_eq_add_of_le hle
    rw [Nat.add_right_comm]
    exact .typename hkeeps hname
  | leaf hkeeps hname hfield htype hleaf =>
    obtain ⟨more, rfl⟩ := Nat.exists_eq_add_of_le hle
    rw [Nat.add_right_comm]
    exact .leaf hkeeps hname hfield htype hleaf
  | @composite _ depth _ _ _ _ _ hkeeps hname hfield htype hleaf hsome _ ih =>
    obtain ⟨more, rfl⟩ := Nat.exists_eq_add_of_le hle
    rw [Nat.add_right_comm]
    exact .composite hkeeps hname hfield htype hleaf hsome fun selection hmem =>
      ih selection hmem (Nat.le_add_right depth more)
  | inline hkeeps hcondition _ ih =>
    exact .inline hkeeps hcondition fun selection hmem => ih selection hmem hle
  | inlineOn hkeeps hcondition htype hoverlap _ ih =>
    exact .inlineOn hkeeps hcondition htype hoverlap fun selection hmem => ih selection hmem hle
  | spread hkeeps hfragment htype hoverlap hkeepsFragment _ ih =>
    exact .spread hkeeps hfragment htype hoverlap hkeepsFragment fun selection hmem =>
      ih selection hmem hle

theorem not_valid_zero_field {parent : TypeDefinition} {node : FieldNode}
    {selections : List Selection} : ¬ scope.Valid parent 0 (.field node selections) := by
  intro h
  cases h

theorem conditionType_eq_ok_iff {parent type : TypeDefinition} {condition : TypeCondition} :
    scope.conditionType parent condition = .ok type ↔
      scope.system.get? condition.name = some type ∧
        scope.system.overlap parent.name type.name = true := by
  unfold conditionType
  cases scope.system.get? condition.name with
  | none => simp
  | some found =>
    by_cases hoverlap : scope.system.overlap parent.name found.name = true
    · simp only [hoverlap, if_true, Except.ok.injEq, Option.some.injEq]
      exact ⟨fun h => ⟨h, h ▸ hoverlap⟩, And.left⟩
    · simp only [hoverlap, if_false, Option.some.injEq, reduceCtorEq, false_iff, not_and]
      exact fun h => h ▸ hoverlap

private theorem valid_field_of_fieldType {parent : TypeDefinition} {depth : Nat} {node : FieldNode}
    {selections : List Selection} {kept : Bool} {found : Option TypeDefinition}
    (hkeeps : scope.keeps .field node.directives = .ok kept)
    (hfound : scope.fieldType parent node (!selections.isEmpty) = .ok found)
    (hall : ∀ type, found = some type →
      ∀ selection ∈ selections, scope.Valid type depth selection) :
    scope.Valid parent (depth + 1) (.field node selections) := by
  unfold fieldType at hfound
  by_cases hname : node.name = "__typename"
  · cases selections with
    | nil => exact .typename hkeeps hname
    | cons first rest => simp [hname] at hfound
  · simp only [beq_iff_eq, hname, if_false] at hfound
    cases hfield : parent.field? node.name with
    | none => simp [hfield] at hfound
    | some definition =>
      simp only [hfield] at hfound
      cases htype : scope.system.innermost? definition.type with
      | none => simp [htype] at hfound
      | some type =>
        simp only [htype] at hfound
        cases hleaf : type.isLeaf with
        | true =>
          cases selections with
          | nil => exact .leaf hkeeps hname hfield htype hleaf
          | cons first rest => simp [hleaf] at hfound
        | false =>
          cases selections with
          | nil => simp [hleaf] at hfound
          | cons first rest =>
            simp only [hleaf, List.isEmpty_cons, Bool.not_false, Except.ok.injEq] at hfound
            exact .composite hkeeps hname hfield htype hleaf (by simp) (hall type hfound.symm)

section Walk

variable {α β : Type} {depths : Keyed Nat}

theorem run_bind_eq_ok_iff {x : Walk α} {next : α → Walk β} {result : β × Keyed Nat} :
    (x >>= next).run depths = .ok result ↔
      ∃ a depths', x.run depths = .ok (a, depths') ∧ (next a).run depths' = .ok result := by
  simp only [StateT.run_bind, bind_eq_ok_iff, Prod.exists]

theorem run_lift_eq_ok_iff {x : Except ExecutionFault α} {result : α × Keyed Nat} :
    (liftM x : Walk α).run depths = .ok result ↔ x = .ok result.1 ∧ result.2 = depths := by
  obtain ⟨a, depths'⟩ := result
  cases x with
  | error fault => simp [liftM, monadLift, MonadLift.monadLift, StateT.lift, StateT.run, bind,
      Except.bind]
  | ok b => simp [liftM, monadLift, MonadLift.monadLift, StateT.lift, StateT.run, bind,
      Except.bind, pure, Except.pure, eq_comm]

theorem run_pure_eq_ok_iff {a : α} {result : α × Keyed Nat} :
    (pure a : Walk α).run depths = .ok result ↔ result = (a, depths) := by
  rw [StateT.run_pure, pure_eq_ok_iff, eq_comm]

theorem run_get_eq_ok_iff {result : Keyed Nat × Keyed Nat} :
    (get : Walk (Keyed Nat)).run depths = .ok result ↔ result = (depths, depths) := by
  rw [StateT.run_get, pure_eq_ok_iff, eq_comm]

private theorem run_throw_ne_ok {fault : ExecutionFault} {result : α × Keyed Nat} :
    (throw fault : Walk α).run depths ≠ .ok result := nofun

end Walk

/-- The selections of the fragment `name` are valid on its type condition. -/
def ValidFragment (scope : Scope) (name : String) (depth : Nat) : Prop :=
  ∃ fragment type kept, scope.fragment? name = some fragment ∧
    scope.system.get? fragment.condition.name = some type ∧
    scope.keeps .fragmentDefinition fragment.directives = .ok kept ∧
    ∀ selection ∈ fragment.selections, scope.Valid type depth selection

/-- The invariant of the walk: it remembers valid fragments only. -/
def Remembers (scope : Scope) (depths : Keyed Nat) : Prop :=
  ∀ name depth, depths.get? name = some depth → scope.ValidFragment name depth

/-- The walk of a fragment keeps the invariant and accepts valid fragments that fit their place. -/
def SpreadSound (scope : Scope) (spread : TypeDefinition → SpreadNode → Walk Nat) : Prop :=
  ∀ parent node depths depth depths', scope.Remembers depths →
    (spread parent node).run depths = .ok (depth, depths') →
    scope.Remembers depths' ∧ scope.ValidFragment node.name depth ∧
      ∃ fragment type, scope.fragment? node.name = some fragment ∧
        scope.conditionType parent fragment.condition = .ok type

theorem valid_spread {parent : TypeDefinition} {depth : Nat} {node : SpreadNode}
    {kept : Bool} (hkeeps : scope.keeps .fragmentSpread node.directives = .ok kept)
    (hvalid : scope.ValidFragment node.name depth)
    (hfits : ∃ fragment type, scope.fragment? node.name = some fragment ∧
      scope.conditionType parent fragment.condition = .ok type) :
    scope.Valid parent depth (.spread node) := by
  obtain ⟨fragment, type, keptFragment, hfragment, htype, hkeepsFragment, hall⟩ := hvalid
  obtain ⟨found, other, hfound, hother⟩ := hfits
  obtain rfl : fragment = found := Option.some.inj (hfragment.symm.trans hfound)
  obtain ⟨hget, hoverlap⟩ := conditionType_eq_ok_iff.1 hother
  obtain rfl : type = other := Option.some.inj (htype.symm.trans hget)
  exact .spread hkeeps hfragment htype hoverlap hkeepsFragment hall

mutual

private theorem walkSelection_sound {spread : TypeDefinition → SpreadNode → Walk Nat}
    (hspread : scope.SpreadSound spread) (parent : TypeDefinition) (depths : Keyed Nat)
    (depth : Nat) (depths' : Keyed Nat) (hmemo : scope.Remembers depths) :
    ∀ selection : Selection,
      (scope.walkSelection spread parent selection).run depths = .ok (depth, depths') →
      scope.Remembers depths' ∧ scope.Valid parent depth selection
  | .field node selections, h => by
    simp only [walkSelection, run_bind_eq_ok_iff, run_lift_eq_ok_iff] at h
    obtain ⟨kept, _, ⟨hkeeps, rfl⟩, found, _, ⟨hfound, rfl⟩, h⟩ := h
    cases found with
    | none =>
      obtain ⟨rfl, rfl⟩ := Prod.mk.inj (run_pure_eq_ok_iff.1 h)
      exact ⟨hmemo, valid_field_of_fieldType hkeeps hfound nofun⟩
    | some type =>
      simp only [run_bind_eq_ok_iff, run_pure_eq_ok_iff] at h
      obtain ⟨below, depths'', hwalk, hresult⟩ := h
      obtain ⟨rfl, rfl⟩ := Prod.mk.inj hresult
      obtain ⟨hmemo', hall⟩ :=
        walkSelections_sound hspread type _ below depths' hmemo selections hwalk
      rw [Nat.add_comm]
      exact ⟨hmemo', valid_field_of_fieldType hkeeps hfound
        fun _ heq => Option.some.inj heq ▸ hall⟩
  | .spread node, h => by
    simp only [walkSelection, run_bind_eq_ok_iff, run_lift_eq_ok_iff] at h
    obtain ⟨kept, _, ⟨hkeeps, rfl⟩, hwalk⟩ := h
    obtain ⟨hmemo', hvalid, hfits⟩ := hspread parent node _ depth depths' hmemo hwalk
    exact ⟨hmemo', valid_spread hkeeps hvalid hfits⟩
  | .inline node selections, h => by
    simp only [walkSelection, run_bind_eq_ok_iff, run_lift_eq_ok_iff] at h
    obtain ⟨kept, _, ⟨hkeeps, rfl⟩, h⟩ := h
    cases hcondition : node.condition with
    | none =>
      simp only [hcondition] at h
      obtain ⟨hmemo', hall⟩ :=
        walkSelections_sound hspread parent _ depth depths' hmemo selections h
      exact ⟨hmemo', .inline hkeeps hcondition hall⟩
    | some condition =>
      simp only [hcondition, run_bind_eq_ok_iff, run_lift_eq_ok_iff] at h
      obtain ⟨type, _, ⟨htype, rfl⟩, hwalk⟩ := h
      obtain ⟨hget, hoverlap⟩ := conditionType_eq_ok_iff.1 htype
      obtain ⟨hmemo', hall⟩ :=
        walkSelections_sound hspread type _ depth depths' hmemo selections hwalk
      exact ⟨hmemo', .inlineOn hkeeps hcondition hget hoverlap hall⟩

theorem walkSelections_sound {spread : TypeDefinition → SpreadNode → Walk Nat}
    (hspread : scope.SpreadSound spread) (parent : TypeDefinition) (depths : Keyed Nat)
    (depth : Nat) (depths' : Keyed Nat) (hmemo : scope.Remembers depths) :
    ∀ selections : List Selection,
      (scope.walkSelections spread parent selections).run depths = .ok (depth, depths') →
      scope.Remembers depths' ∧ ∀ selection ∈ selections, scope.Valid parent depth selection
  | [], h => by
    rw [walkSelections] at h
    obtain ⟨-, rfl⟩ := Prod.mk.inj (run_pure_eq_ok_iff.1 h)
    exact ⟨hmemo, by simp⟩
  | selection :: rest, h => by
    simp only [walkSelections, run_bind_eq_ok_iff, run_pure_eq_ok_iff] at h
    obtain ⟨first, depths₁, hfirst, others, depths₂, hothers, hresult⟩ := h
    obtain ⟨rfl, rfl⟩ := Prod.mk.inj hresult
    obtain ⟨hmemo₁, hvalid⟩ :=
      walkSelection_sound hspread parent depths first depths₁ hmemo selection hfirst
    obtain ⟨hmemo₂, hall⟩ :=
      walkSelections_sound hspread parent depths₁ others depths' hmemo₁ rest hothers
    refine ⟨hmemo₂, ?_⟩
    rintro other (_ | ⟨_, hmem⟩)
    · exact hvalid.mono (Nat.le_max_left first others)
    · exact (hall other hmem).mono (Nat.le_max_right first others)

end

theorem Remembers.insert {depths : Keyed Nat} {name : String} {depth : Nat}
    (hmemo : scope.Remembers depths) (hvalid : scope.ValidFragment name depth) :
    scope.Remembers (depths.insert name depth) := by
  intro other found hfound
  rw [Keyed.get?_insert] at hfound
  split at hfound
  · next heq =>
    subst heq
    exact Option.some.inj hfound ▸ hvalid
  · exact hmemo other found hfound

/-- A spread ends in the memory, or in a walk of its fragment with one step less. -/
private theorem walkSpread_cases {budget : Nat} {visiting : List String}
    {parent : TypeDefinition} {node : SpreadNode} {depths : Keyed Nat} {depth : Nat}
    {depths' : Keyed Nat}
    (h : (scope.walkSpread budget visiting parent node).run depths = .ok (depth, depths')) :
    ∃ fragment type, scope.fragment? node.name = some fragment ∧
      scope.conditionType parent fragment.condition = .ok type ∧
      ((depths.get? node.name = some depth ∧ depths' = depths) ∨
        ∃ kept less before, budget = less + 1 ∧
          scope.keeps .fragmentDefinition fragment.directives = .ok kept ∧
          (scope.walkSelections (scope.walkSpread less (node.name :: visiting)) type
            fragment.selections).run depths = .ok (depth, before) ∧
          depths' = before.insert node.name depth) := by
  rw [walkSpread.eq_def] at h
  cases hfragment : scope.fragment? node.name with
  | none => simp only [hfragment] at h; exact absurd h run_throw_ne_ok
  | some fragment =>
    simp only [hfragment, run_bind_eq_ok_iff, run_lift_eq_ok_iff, run_get_eq_ok_iff] at h
    obtain ⟨type, _, ⟨htype, rfl⟩, _, memory, hget, h⟩ := h
    obtain ⟨rfl, rfl⟩ := Prod.mk.inj hget
    refine ⟨fragment, type, rfl, htype, ?_⟩
    cases hmemo : memory.get? node.name with
    | some known =>
      simp only [hmemo] at h
      obtain ⟨rfl, rfl⟩ := Prod.mk.inj (run_pure_eq_ok_iff.1 h)
      exact .inl ⟨rfl, rfl⟩
    | none =>
      simp only [hmemo] at h
      split at h
      · exact absurd h run_throw_ne_ok
      · simp only [run_bind_eq_ok_iff, run_lift_eq_ok_iff] at h
        obtain ⟨kept, _, ⟨hkeeps, rfl⟩, h⟩ := h
        cases budget with
        | zero => exact absurd h run_throw_ne_ok
        | succ less =>
          simp only [run_bind_eq_ok_iff, run_pure_eq_ok_iff] at h
          obtain ⟨found, before, hwalk, _, after, hmodify, hresult⟩ := h
          obtain ⟨rfl, rfl⟩ := Prod.mk.inj hresult
          have hinsert : Except.ok (ε := ExecutionFault) ((), before.insert node.name depth) =
              .ok (_, depths') := hmodify
          exact .inr ⟨kept, less, before, rfl, hkeeps, hwalk,
            (Prod.mk.inj (Except.ok.inj hinsert)).2.symm⟩

theorem walkSpread_sound (budget : Nat) (visiting : List String) :
    scope.SpreadSound (scope.walkSpread budget visiting) := by
  induction budget generalizing visiting with
  | zero =>
    intro parent node depths depth depths' hmemo h
    obtain ⟨fragment, type, hfragment, htype, ⟨hknown, rfl⟩ | ⟨_, less, _, hless, _⟩⟩ :=
      walkSpread_cases h
    · exact ⟨hmemo, hmemo _ _ hknown, fragment, type, hfragment, htype⟩
    · exact absurd hless (Nat.succ_ne_zero less).symm
  | succ budget ih =>
    intro parent node depths depth depths' hmemo h
    obtain ⟨fragment, type, hfragment, htype,
      ⟨hknown, rfl⟩ | ⟨kept, less, before, hless, hkeeps, hwalk, rfl⟩⟩ := walkSpread_cases h
    · exact ⟨hmemo, hmemo _ _ hknown, fragment, type, hfragment, htype⟩
    · obtain rfl : budget = less := Nat.succ.inj hless
      obtain ⟨hbefore, hall⟩ := walkSelections_sound (ih (node.name :: visiting)) type depths depth
        before hmemo fragment.selections hwalk
      have hvalid : scope.ValidFragment node.name depth :=
        ⟨fragment, type, kept, hfragment, (conditionType_eq_ok_iff.1 htype).1, hkeeps, hall⟩
      exact ⟨hbefore.insert hvalid, hvalid, fragment, type, hfragment, htype⟩

/-- What the walk accepts is valid up to the depth that it returns. -/
theorem valid_of_depth_eq_ok {root : TypeDefinition} {selections : List Selection} {depth : Nat}
    (h : scope.depth root selections = .ok depth) :
    ∀ selection ∈ selections, scope.Valid root depth selection := by
  simp only [Scope.depth, bind_eq_ok_iff, pure_eq_ok_iff] at h
  obtain ⟨⟨found, depths⟩, hwalk, rfl⟩ := h
  exact (walkSelections_sound (walkSpread_sound _ _) root [] found depths
    (fun name depth hget => by simp [Keyed.get?] at hget) selections hwalk).2

end Scope

end GraphQuery
