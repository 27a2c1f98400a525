import GraphQuery.Proofs.Selection.Acceptance

/-!
# Broken rules

Why the walk refuses an operation. Main statements: every fault of the walk reports a selection that
the operation reaches, either a rule that it breaks or a field of a type that the schema does not
have, and a well-formed schema has the types of all fields.
-/

namespace GraphQuery

namespace Scope

/-- The type condition does not suit a fragment on the parent. -/
inductive Unsuited (scope : Scope) (parent : TypeDefinition) (condition : TypeCondition) :
    ExecutionFault → Prop
  | unknown (hget : scope.system.get? condition.name = none) :
      Unsuited scope parent condition
        (.validation (.unknownType condition.name condition.position))
  | disjoint {type} (hget : scope.system.get? condition.name = some type)
      (hoverlap : scope.system.overlap parent.name type.name = false) :
      Unsuited scope parent condition
        (.validation (.incompatibleFragment type.name parent.name condition.position))

/-- A rule that a selection breaks on its static parent type, with the fault that reports it. -/
inductive Breaks (scope : Scope) (parent : TypeDefinition) : Selection → ExecutionFault → Prop
  | fieldDirectives {node selections fault}
      (h : scope.keeps .field node.directives = .error fault) :
      Breaks scope parent (.field node selections) fault
  | typenameSelections {node selections} (hname : node.name = "__typename")
      (hsome : selections ≠ []) :
      Breaks scope parent (.field node selections)
        (.validation (.leafSelections node.name "String!" node.position))
  | unknownField {node selections} (hname : node.name ≠ "__typename")
      (hfield : parent.field? node.name = none) :
      Breaks scope parent (.field node selections)
        (.validation (.unknownField node.name parent.name node.position))
  | leafSelections {node selections definition type} (hname : node.name ≠ "__typename")
      (hfield : parent.field? node.name = some definition)
      (htype : scope.system.innermost? definition.type = some type)
      (hleaf : type.isLeaf = true) (hsome : selections ≠ []) :
      Breaks scope parent (.field node selections)
        (.validation (.leafSelections node.name definition.type.text node.position))
  | missingSelections {node definition type} (hname : node.name ≠ "__typename")
      (hfield : parent.field? node.name = some definition)
      (htype : scope.system.innermost? definition.type = some type)
      (hleaf : type.isLeaf = false) :
      Breaks scope parent (.field node [])
        (.validation (.missingSelections node.name definition.type.text node.position))
  | inlineDirectives {node selections fault}
      (h : scope.keeps .inlineFragment node.directives = .error fault) :
      Breaks scope parent (.inline node selections) fault
  | inlineCondition {node selections condition fault} (hcondition : node.condition = some condition)
      (h : scope.Unsuited parent condition fault) :
      Breaks scope parent (.inline node selections) fault
  | spreadDirectives {node fault}
      (h : scope.keeps .fragmentSpread node.directives = .error fault) :
      Breaks scope parent (.spread node) fault
  | unknownFragment {node} (hfragment : scope.fragment? node.name = none) :
      Breaks scope parent (.spread node)
        (.validation (.unknownFragment node.name node.position))
  | spreadCondition {node fragment fault} (hfragment : scope.fragment? node.name = some fragment)
      (h : scope.Unsuited parent fragment.condition fault) :
      Breaks scope parent (.spread node) fault
  | definitionDirectives {node fragment fault}
      (hfragment : scope.fragment? node.name = some fragment)
      (h : scope.keeps .fragmentDefinition fragment.directives = .error fault) :
      Breaks scope parent (.spread node) fault
  | cycle {node fragment selection} (hfragment : scope.fragment? node.name = some fragment)
      (hmem : selection ∈ fragment.selections) (hreach : scope.Reaches selection node.name) :
      Breaks scope parent (.spread node) (.validation (.fragmentCycle node.name node.position))

/-- A field of the parent has a type that the schema does not have. -/
inductive Untyped (scope : Scope) (parent : TypeDefinition) : Selection → ExecutionFault → Prop
  | field {node selections definition} (hname : node.name ≠ "__typename")
      (hfield : parent.field? node.name = some definition)
      (htype : scope.system.innermost? definition.type = none) :
      Untyped scope parent (.field node selections)
        (.validation (.unknownType definition.type.text node.position))

/-- A selection that the operation reaches is to blame for the fault. -/
def Blames (scope : Scope) (root : TypeDefinition) (operation : List Selection)
    (fault : ExecutionFault) : Prop :=
  ∃ parent selection, scope.Reached root operation parent selection ∧
    (scope.Breaks parent selection fault ∨ scope.Untyped parent selection fault)

variable {scope : Scope} {root parent : TypeDefinition} {operation : List Selection}

private theorem Reached.blames_breaks {selection : Selection} {fault : ExecutionFault}
    (hreached : scope.Reached root operation parent selection)
    (h : scope.Breaks parent selection fault) : scope.Blames root operation fault :=
  ⟨parent, selection, hreached, .inl h⟩

private theorem unsuited_of_conditionType {condition : TypeCondition} {fault : ExecutionFault}
    (h : scope.conditionType parent condition = .error fault) :
    scope.Unsuited parent condition fault := by
  unfold conditionType at h
  cases hget : scope.system.get? condition.name with
  | none =>
    rw [hget] at h
    cases h
    exact .unknown hget
  | some type =>
    simp only [hget] at h
    split at h
    · cases h
    · next hoverlap =>
      cases h
      exact .disjoint hget (Bool.not_eq_true _ ▸ hoverlap)

private theorem blames_of_fieldType {node : FieldNode} {selections : List Selection}
    {fault : ExecutionFault}
    (h : scope.fieldType parent node (!selections.isEmpty) = .error fault) :
    scope.Breaks parent (.field node selections) fault ∨
      scope.Untyped parent (.field node selections) fault := by
  unfold fieldType at h
  by_cases hname : node.name = "__typename"
  · cases selections with
    | nil => simp [hname] at h
    | cons first rest =>
      simp only [hname, beq_self_eq_true, if_true, List.isEmpty_cons, Bool.not_false] at h
      cases h
      exact .inl (hname ▸ .typenameSelections hname (List.cons_ne_nil first rest))
  · simp only [beq_iff_eq, hname, if_false] at h
    cases hfield : parent.field? node.name with
    | none =>
      rw [hfield] at h
      cases h
      exact .inl (.unknownField hname hfield)
    | some definition =>
      simp only [hfield] at h
      cases htype : scope.system.innermost? definition.type with
      | none =>
        rw [htype] at h
        cases h
        exact .inr (.field hname hfield htype)
      | some type =>
        simp only [htype] at h
        cases hleaf : type.isLeaf <;> cases selections
        case false.nil =>
          simp only [hleaf, List.isEmpty_nil, Bool.not_true] at h
          cases h
          exact .inl (.missingSelections hname hfield htype hleaf)
        case true.cons first rest =>
          simp only [hleaf, List.isEmpty_cons, Bool.not_false] at h
          cases h
          exact .inl (.leafSelections hname hfield htype hleaf (List.cons_ne_nil first rest))
        case false.cons | true.nil => simp [hleaf] at h

private theorem exists_of_fieldType_eq_some {node : FieldNode} {hasSelections : Bool}
    {type : TypeDefinition} (h : scope.fieldType parent node hasSelections = .ok (some type)) :
    ∃ definition, parent.field? node.name = some definition ∧
      scope.system.innermost? definition.type = some type := by
  unfold fieldType at h
  split at h
  · split at h <;> cases h
  · cases hfield : parent.field? node.name with
    | none => simp [hfield] at h
    | some definition =>
      simp only [hfield] at h
      cases htype : scope.system.innermost? definition.type with
      | none => simp [htype] at h
      | some found =>
        refine ⟨definition, rfl, ?_⟩
        cases hleaf : found.isLeaf <;> cases hasSelections <;> simp_all

/-- The walk fails with faults of one kind only, whatever it remembers. -/
def WalksOnly (p : ExecutionFault → Prop) {α : Type} (walk : Walk α) : Prop :=
  ∀ depths, FailsOnly p (walk.run depths)

namespace WalksOnly

variable {p : ExecutionFault → Prop} {α β : Type}

private theorem pure (a : α) : WalksOnly p (Pure.pure a : Walk α) := fun depths => .ok (a, depths)

private theorem throw {fault : ExecutionFault} (h : p fault) :
    WalksOnly p (MonadExcept.throw fault : Walk α) := fun _ => .error h

private theorem bind {x : Walk α} {next : α → Walk β} (hx : WalksOnly p x)
    (hnext : ∀ a, WalksOnly p (next a)) : WalksOnly p (x >>= next) := by
  intro depths
  rw [StateT.run_bind]
  exact (hx depths).bind fun result => hnext result.1 result.2

private theorem check_bind {x : Except ExecutionFault α} {next : α → Walk β} (hx : FailsOnly p x)
    (hnext : ∀ a, x = .ok a → WalksOnly p (next a)) :
    WalksOnly p ((liftM x : Walk α) >>= next) := by
  intro depths
  cases x with
  | error fault => exact .error (hx fault rfl)
  | ok a => exact hnext a rfl depths

end WalksOnly

/-- The fragments `visiting`, inside which the selection is walked, reach whatever it reaches. -/
def Inside (scope : Scope) (visiting : List String) (selection : Selection) : Prop :=
  ∀ name ∈ visiting, ∃ fragment outer, scope.fragment? name = some fragment ∧
    outer ∈ fragment.selections ∧
    ∀ target, scope.Reaches selection target → scope.Reaches outer target

theorem Inside.mono {visiting : List String} {selection inner : Selection}
    (h : scope.Inside visiting selection)
    (hreach : ∀ target, scope.Reaches inner target → scope.Reaches selection target) :
    scope.Inside visiting inner := by
  intro name hname
  obtain ⟨fragment, outer, hfragment, hmem, houter⟩ := h name hname
  exact ⟨fragment, outer, hfragment, hmem, fun target htarget =>
    houter target (hreach target htarget)⟩

theorem Inside.spread {visiting : List String} {node : SpreadNode}
    (h : scope.Inside visiting (.spread node)) {fragment : Fragment}
    (hfragment : scope.fragment? node.name = some fragment) {selection : Selection}
    (hmem : selection ∈ fragment.selections) :
    scope.Inside (node.name :: visiting) selection := by
  rintro name (_ | ⟨_, hname⟩)
  · exact ⟨fragment, selection, hfragment, hmem, fun _ => id⟩
  · exact h.mono (fun _ htarget => .through hfragment hmem htarget) name hname

private theorem Inside.cycle {visiting : List String} {node : SpreadNode}
    (h : scope.Inside visiting (.spread node)) (hvisiting : node.name ∈ visiting) :
    scope.Breaks parent (.spread node)
      (.validation (.fragmentCycle node.name node.position)) := by
  obtain ⟨fragment, outer, hfragment, hmem, houter⟩ := h node.name hvisiting
  exact .cycle hfragment hmem (houter node.name .spread)

/-- The walk of spreads that the operation reaches fails with blame only. -/
def BlamesSpreads (scope : Scope) (root : TypeDefinition) (operation : List Selection)
    (visiting : List String) (spread : TypeDefinition → SpreadNode → Walk Nat) : Prop :=
  ∀ parent node, scope.Reached root operation parent (.spread node) →
    scope.Inside visiting (.spread node) →
    WalksOnly (scope.Blames root operation) (spread parent node)

section

variable {visiting : List String} {spread : TypeDefinition → SpreadNode → Walk Nat}

mutual

private theorem blames_walkSelection (hspread : scope.BlamesSpreads root operation visiting spread)
    (parent : TypeDefinition) : ∀ selection, scope.Reached root operation parent selection →
      scope.Inside visiting selection →
      WalksOnly (scope.Blames root operation) (scope.walkSelection spread parent selection)
  | .field node selections, hreached, hinside => by
    rw [walkSelection]
    refine .check_bind (fun fault h => hreached.blames_breaks (.fieldDirectives h)) fun _ _ => ?_
    refine .check_bind (fun fault h => ⟨parent, _, hreached, blames_of_fieldType h⟩)
      fun found hfound => ?_
    cases found with
    | none => exact .pure 1
    | some type =>
      obtain ⟨definition, hfield, htype⟩ := exists_of_fieldType_eq_some hfound
      obtain ⟨set, hset, hmem⟩ := hreached
      have hbelow : scope.Reachable root operation type selections := .field hset hmem hfield htype
      refine .bind (blames_walkSelections hspread type selections hbelow.reached
        fun selection hselection => ?_) fun _ => .pure _
      exact hinside.mono fun _ htarget => .field hselection htarget
  | .spread node, hreached, hinside => by
    rw [walkSelection]
    refine .check_bind (fun fault h => hreached.blames_breaks (.spreadDirectives h)) fun _ _ => ?_
    exact hspread parent node hreached hinside
  | .inline node selections, hreached, hinside => by
    rw [walkSelection]
    refine .check_bind (fun fault h => hreached.blames_breaks (.inlineDirectives h)) fun _ _ => ?_
    have hselections : ∀ selection ∈ selections, scope.Inside visiting selection :=
      fun selection hselection => hinside.mono fun _ htarget => .inline hselection htarget
    cases hcondition : node.condition with
    | none =>
      obtain ⟨set, hset, hmem⟩ := hreached
      have hsame : scope.Reachable root operation parent selections := .inline hset hmem hcondition
      exact blames_walkSelections hspread parent selections hsame.reached hselections
    | some condition =>
      refine .check_bind (fun fault h => hreached.blames_breaks
        (.inlineCondition hcondition (unsuited_of_conditionType h))) fun type htype => ?_
      obtain ⟨set, hset, hmem⟩ := hreached
      have hinner : scope.Reachable root operation type selections :=
        .inlineOn hset hmem hcondition (conditionType_eq_ok_iff.1 htype).1
      exact blames_walkSelections hspread type selections hinner.reached hselections

private theorem blames_walkSelections (hspread : scope.BlamesSpreads root operation visiting spread)
    (parent : TypeDefinition) : ∀ selections : List Selection,
      (∀ selection ∈ selections, scope.Reached root operation parent selection) →
      (∀ selection ∈ selections, scope.Inside visiting selection) →
      WalksOnly (scope.Blames root operation) (scope.walkSelections spread parent selections)
  | [], _, _ => by
    rw [walkSelections]
    exact .pure 0
  | selection :: rest, hreached, hinside => by
    rw [List.forall_mem_cons] at hreached hinside
    rw [walkSelections]
    refine .bind (blames_walkSelection hspread parent selection hreached.1 hinside.1) fun _ => ?_
    exact .bind (blames_walkSelections hspread parent rest hreached.2 hinside.2) fun _ => .pure _

end

end

/-- The budget is not to blame: inside `visiting` there is a step left for every other fragment. -/
theorem blames_walkSpread {budget : Nat} {visiting : List String} (hnodup : visiting.Nodup)
    (hknown : visiting ⊆ scope.fragments.map Fragment.name)
    (hbudget : scope.fragments.length ≤ visiting.length + budget) :
    scope.BlamesSpreads root operation visiting (scope.walkSpread budget visiting) := by
  induction budget using Nat.strongRecOn generalizing visiting with
  | ind budget ih =>
    intro parent node hreached hinside
    rw [walkSpread.eq_def]
    cases hfragment : scope.fragment? node.name with
    | none => exact .throw (hreached.blames_breaks (.unknownFragment hfragment))
    | some fragment =>
      refine .check_bind (fun fault h => hreached.blames_breaks
        (.spreadCondition hfragment (unsuited_of_conditionType h))) fun type htype => ?_
      refine .bind (fun depths => .ok (depths, depths)) fun memory => ?_
      cases memory.get? node.name with
      | some depth => exact .pure depth
      | none =>
        by_cases hvisiting : node.name ∈ visiting
        · simp only [List.contains_iff_mem.2 hvisiting, if_true]
          exact .throw (hreached.blames_breaks (hinside.cycle hvisiting))
        · have hcontains : visiting.contains node.name = false := by simpa using hvisiting
          obtain ⟨hnodup', hknown', less, rfl, hless⟩ :=
            exists_less_of_new hnodup hknown hfragment hvisiting hbudget
          simp only [hcontains, Bool.false_eq_true, if_false]
          refine .check_bind (fun fault h => hreached.blames_breaks
            (.definitionDirectives hfragment h)) fun _ _ => ?_
          obtain ⟨set, hset, hmem⟩ := hreached
          have hbelow : scope.Reachable root operation type fragment.selections :=
            .spread hset hmem hfragment (conditionType_eq_ok_iff.1 htype).1
          refine .bind (blames_walkSelections
            (ih less (Nat.lt_succ_self less) hnodup' hknown' hless) type fragment.selections
            hbelow.reached fun selection hselection => hinside.spread hfragment hselection)
            fun depth => ?_
          exact .bind (fun depths => .ok ((), _)) fun _ => .pure depth

theorem blames_depth (root : TypeDefinition) (operation : List Selection) :
    FailsOnly (scope.Blames root operation) (scope.depth root operation) := by
  have hspread : scope.BlamesSpreads root operation []
      (scope.walkSpread scope.fragments.length []) :=
    blames_walkSpread List.nodup_nil (List.nil_subset _) (by simp)
  refine FailsOnly.bind (blames_walkSelections hspread root operation Reachable.operation.reached
    (fun _ _ => ?_) []) fun _ => .ok _
  exact fun name hname => absurd hname List.not_mem_nil

theorem Reachable.known_field (hwell : scope.system.WellFormed)
    (hroot : scope.system.get? root.name = some root) {set : List Selection}
    (hset : scope.Reachable root operation parent set) {name : String}
    {definition : FieldDefinition} (hfield : parent.field? name = some definition) :
    ∃ type, scope.system.innermost? definition.type = some type :=
  hwell.known parent (List.mem_of_find?_eq_some (hset.registered hroot)) definition
    (List.mem_of_find?_eq_some hfield)

/-- In a well-formed schema the walk fails at broken rules only. -/
theorem breaks_of_depth (hwell : scope.system.WellFormed)
    (hroot : scope.system.get? root.name = some root) {fault : ExecutionFault}
    (h : scope.depth root operation = .error fault) :
    ∃ parent selection, scope.Reached root operation parent selection ∧
      scope.Breaks parent selection fault := by
  obtain ⟨parent, selection, hreached, hbreaks | huntyped⟩ := blames_depth root operation fault h
  · exact ⟨parent, selection, hreached, hbreaks⟩
  · cases huntyped with
    | field _ hfield htype =>
      obtain ⟨set, hset, -⟩ := hreached
      obtain ⟨type, hknown⟩ := hset.known_field hwell hroot hfield
      cases htype.symm.trans hknown

end Scope

end GraphQuery
