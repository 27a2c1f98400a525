import GraphQuery.Proofs.Selection.Breaks

/-!
# The memory of the walk

A walk that keeps no memory of finished fragments and walks a fragment again wherever it is spread.
Main statement: it ends like the walk with the memory on every document, with the same depth or the
same fault.
-/

namespace GraphQuery

namespace Scope

section Mirrors

variable {α β : Type} {kept : Keyed Nat → Prop}

/-- The second walk has the result of the first and leaves its own memory alone, if the memory of
the first has a property that the first walk keeps. -/
def Mirrors (kept : Keyed Nat → Prop) (walk walk' : Walk α) : Prop :=
  ∀ depths depths', kept depths →
    Related (fun result result' => result'.1 = result.1 ∧ result'.2 = depths' ∧ kept result.2)
      (walk.run depths) (walk'.run depths')

theorem mirrors_pure (a : α) : Mirrors kept (pure a) (pure a) :=
  fun _ _ hkept => .ok ⟨rfl, rfl, hkept⟩

private theorem mirrors_throw (fault : ExecutionFault) :
    Mirrors kept (throw fault : Walk α) (throw fault) := fun _ _ _ => .error

theorem Mirrors.check {x : Except ExecutionFault α} {next next' : α → Walk β}
    (hnext : ∀ a, x = .ok a → Mirrors kept (next a) (next' a)) :
    Mirrors kept ((liftM x : Walk α) >>= next) ((liftM x : Walk α) >>= next') := by
  intro depths depths' hkept
  cases x with
  | error fault => exact .error
  | ok a => exact hnext a rfl depths depths' hkept

theorem Mirrors.bind {walk walk' : Walk α} (h : Mirrors kept walk walk')
    {next next' : α → Walk β} (hnext : ∀ a, Mirrors kept (next a) (next' a)) :
    Mirrors kept (walk >>= next) (walk' >>= next') := by
  intro depths depths' hkept
  rw [StateT.run_bind, StateT.run_bind]
  apply (h depths depths' hkept).bind
  rintro ⟨a, after⟩ ⟨a', after'⟩ ⟨rfl, rfl, hafter⟩
  exact hnext a' after after' hafter

theorem Mirrors.recall {next : Keyed Nat → Walk α} {walk' : Walk α}
    (h : ∀ depths, kept depths → ∀ depths',
      Related (fun result result' => result'.1 = result.1 ∧ result'.2 = depths' ∧ kept result.2)
        ((next depths).run depths) (walk'.run depths')) :
    Mirrors kept (get >>= next) walk' := fun depths depths' hkept => h depths hkept depths'

private theorem Mirrors.run_ok {walk walk' : Walk α} (h : Mirrors kept walk walk')
    {depths : Keyed Nat}
    (hkept : kept depths) {result : α × Keyed Nat} (hrun : walk.run depths = .ok result) :
    kept result.2 ∧ ∀ depths', walk'.run depths' = .ok (result.1, depths') := by
  have hsame (depths' : Keyed Nat) := (hrun ▸ h depths depths' hkept).exists_ok
  constructor
  · obtain ⟨_, -, -, -, hafter⟩ := hsame depths
    exact hafter
  · intro depths'
    obtain ⟨⟨a, after⟩, hrun', rfl, rfl, -⟩ := hsame depths'
    exact hrun'

private theorem Mirrors.run_error {walk walk' : Walk α} (h : Mirrors kept walk walk')
    {depths : Keyed Nat}
    (hkept : kept depths) {fault : ExecutionFault} (hrun : walk.run depths = .error fault)
    (depths' : Keyed Nat) : walk'.run depths' = .error fault :=
  Related.eq_error (hrun ▸ h depths depths' hkept)

theorem Mirrors.remember {walk walk' : Walk Nat} (h : Mirrors kept walk walk') {name : String}
    (hkept : ∀ depths depth before, kept depths → kept before →
      walk.run depths = .ok (depth, before) →
      (∀ depths', walk'.run depths' = .ok (depth, depths')) → kept (before.insert name depth)) :
    Mirrors kept
      (walk >>= fun depth =>
        (modify fun depths => depths.insert name depth) >>= fun _ => pure depth)
      walk' := by
  intro depths depths' hdepths
  rw [StateT.run_bind]
  cases hrun : walk.run depths with
  | error fault =>
    rw [h.run_error hdepths hrun]
    exact .error
  | ok result =>
    obtain ⟨depth, before⟩ := result
    obtain ⟨hbefore, hwalk⟩ := h.run_ok hdepths hrun
    rw [hwalk depths']
    exact .ok ⟨rfl, rfl, hkept depths depth before hdepths hbefore hrun hwalk⟩

theorem Mirrors.cons {scope other : Scope} {spread spread' : TypeDefinition → SpreadNode → Walk Nat}
    {parent : TypeDefinition} {selection selection' : Selection} {rest rest' : List Selection}
    (hfirst : Mirrors kept (scope.walkSelection spread parent selection)
      (other.walkSelection spread' parent selection'))
    (hrest : Mirrors kept (scope.walkSelections spread parent rest)
      (other.walkSelections spread' parent rest')) :
    Mirrors kept (scope.walkSelections spread parent (selection :: rest))
      (other.walkSelections spread' parent (selection' :: rest')) := by
  rw [walkSelections, walkSelections]
  exact hfirst.bind fun first => hrest.bind fun _ => mirrors_pure _

end Mirrors

/-- Walks the fragment of a spread inside the fragments `visiting`, whether or not it has been
walked before. -/
def walkAnew (scope : Scope) (budget : Nat) (visiting : List String) (parent : TypeDefinition)
    (node : SpreadNode) : Walk Nat := do
  let cycle : ExecutionFault := .validation (.fragmentCycle node.name node.position)
  match scope.fragment? node.name with
  | none => throw (.validation (.unknownFragment node.name node.position))
  | some fragment =>
    let type ← scope.conditionType parent fragment.condition
    if visiting.contains node.name then throw cycle
    else
      let _ ← scope.keeps .fragmentDefinition fragment.directives
      match budget with
      | 0 => throw cycle
      | budget + 1 =>
        scope.walkSelections (scope.walkAnew budget (node.name :: visiting)) type
          fragment.selections

/-- The depth of the selections of an operation, with every fragment walked anew. -/
def depthAnew (scope : Scope) (budget : Nat) (root : TypeDefinition)
    (selections : List Selection) : Except ExecutionFault Nat := do
  pure (← (scope.walkSelections (scope.walkAnew budget []) root selections).run []).1

variable {scope : Scope} {parent : TypeDefinition} {visiting : List String}

private theorem walkAnew_new (budget : Nat) {node : SpreadNode} {fragment : Fragment}
    {type : TypeDefinition} {kept : Bool} (hfragment : scope.fragment? node.name = some fragment)
    (htype : scope.conditionType parent fragment.condition = .ok type)
    (hnew : node.name ∉ visiting)
    (hkeeps : scope.keeps .fragmentDefinition fragment.directives = .ok kept) :
    scope.walkAnew (budget + 1) visiting parent node =
      scope.walkSelections (scope.walkAnew budget (node.name :: visiting)) type
        fragment.selections := by
  have hcontains : visiting.contains node.name = false := by simpa using hnew
  rw [walkAnew]
  simp only [hfragment, htype, hkeeps, hcontains]
  rfl

/-- The walk does nothing but find how deep the selections nest. -/
def Finds (scope : Scope) (walk : Walk Nat) (selections : List Selection) : Prop :=
  ∃ depth, scope.Deepest selections depth ∧ walk = pure depth

private theorem finds_selections {spread : TypeDefinition → SpreadNode → Walk Nat}
    {selections : List Selection}
    (h : ∀ selection ∈ selections,
      scope.Finds (scope.walkSelection spread parent selection) [selection]) :
    scope.Finds (scope.walkSelections spread parent selections) selections := by
  induction selections with
  | nil => exact ⟨0, deepest_nil, rfl⟩
  | cons selection rest ih =>
    rw [List.forall_mem_cons] at h
    obtain ⟨first, hfirst, hwalk⟩ := h.1
    obtain ⟨others, hothers, hrest⟩ := ih h.2
    refine ⟨max first others, deepest_cons hfirst hothers, ?_⟩
    rw [walkSelections, hwalk, hrest]
    rfl

private theorem Valid.finds {depth : Nat} {selection : Selection}
    (h : scope.Valid parent depth selection) (hnodup : visiting.Nodup)
    (hknown : visiting ⊆ scope.fragments.map Fragment.name)
    (hfresh : ∀ name ∈ visiting, ¬ scope.Reaches selection name) {budget : Nat}
    (hbudget : scope.fragments.length ≤ visiting.length + budget) :
    scope.Finds (scope.walkSelection (scope.walkAnew budget visiting) parent selection)
      [selection] := by
  induction h generalizing visiting budget with
  | typename hkeeps hname =>
    exact ⟨1, deepest_field deepest_nil, walkSelection_leaf hkeeps (fieldType_typename hname)⟩
  | leaf hkeeps hname hfield htype hleaf =>
    exact ⟨1, deepest_field deepest_nil,
      walkSelection_leaf hkeeps (fieldType_field hname hfield htype hleaf)⟩
  | @composite _ _ node _ _ type selections hkeeps hname hfield htype hleaf hsome _ ih =>
    have hempty : selections.isEmpty = false := by simpa using hsome
    have hfound := fieldType_field hname hfield htype (hleaf.trans hempty.symm)
    obtain ⟨depth, hdeepest, hwalk⟩ := finds_selections fun selection hmem =>
      ih selection hmem hnodup hknown
        (fun name hname hreach => hfresh name hname (.field hmem hreach)) hbudget
    refine ⟨1 + depth, deepest_field hdeepest, ?_⟩
    rw [hempty, if_neg Bool.false_ne_true] at hfound
    rw [walkSelection_composite hkeeps (hempty ▸ hfound), hwalk]
    rfl
  | inline hkeeps hcondition _ ih =>
    obtain ⟨depth, hdeepest, hwalk⟩ := finds_selections fun selection hmem =>
      ih selection hmem hnodup hknown
        (fun name hname hreach => hfresh name hname (.inline hmem hreach)) hbudget
    exact ⟨depth, deepest_inline hdeepest, (walkSelection_inline hcondition hkeeps).trans hwalk⟩
  | inlineOn hkeeps hcondition htype hoverlap _ ih =>
    obtain ⟨depth, hdeepest, hwalk⟩ := finds_selections fun selection hmem =>
      ih selection hmem hnodup hknown
        (fun name hname hreach => hfresh name hname (.inline hmem hreach)) hbudget
    have hsuits := conditionType_eq_ok_iff.2 ⟨htype, hoverlap⟩
    exact ⟨depth, deepest_inline hdeepest,
      (walkSelection_inlineOn hcondition hkeeps hsuits).trans hwalk⟩
  | @spread _ _ node _ fragment _ _ hkeeps hfragment htype hoverlap hdefinition hall ih =>
    have hnew : node.name ∉ visiting := fun hmem => hfresh node.name hmem .spread
    obtain ⟨hnodup', hknown', less, rfl, hless⟩ :=
      exists_less_of_new hnodup hknown hfragment hnew hbudget
    have hfresh' := (Valid.spread hkeeps hfragment htype hoverlap hdefinition hall).fresh_inside
      hfragment hfresh
    obtain ⟨depth, hdeepest, hwalk⟩ := finds_selections fun selection hmem =>
      ih selection hmem hnodup' hknown' (hfresh' selection hmem) hless
    refine ⟨depth, deepest_spread hfragment hdeepest, ?_⟩
    have hsuits := conditionType_eq_ok_iff.2 ⟨htype, hoverlap⟩
    rw [walkSelection_spread hkeeps, walkAnew_new less hfragment hsuits hnew hdefinition, hwalk]

private theorem Inside.not_reaches {selection : Selection} (h : scope.Inside visiting selection)
    {depth : Nat} (hvalid : scope.Valid parent depth selection) :
    ∀ name ∈ visiting, ¬ scope.Reaches selection name := by
  intro name hname hreach
  obtain ⟨fragment, outer, hfragment, hmem, houter⟩ := h name hname
  exact hvalid.not_reaches_self hreach hfragment hmem (houter name hreach)

/-- The invariant of the walk: it remembers valid fragments, and how deep their fields nest. -/
structure Recalls (scope : Scope) (depths : Keyed Nat) : Prop where
  valid : scope.Remembers depths
  exact : scope.Exact depths

/-- The spreads that stand inside the fragments `visiting` are walked alike with and without a
memory. -/
def MirrorsSpreads (scope : Scope) (visiting : List String)
    (spread spread' : TypeDefinition → SpreadNode → Walk Nat) : Prop :=
  ∀ parent node kept, scope.keeps .fragmentSpread node.directives = .ok kept →
    scope.Inside visiting (.spread node) →
    Mirrors scope.Recalls (spread parent node) (spread' parent node)

section

variable {spread spread' : TypeDefinition → SpreadNode → Walk Nat}

mutual

private theorem mirrors_walkSelection (hspread : scope.MirrorsSpreads visiting spread spread')
    (parent : TypeDefinition) : ∀ selection, scope.Inside visiting selection →
      Mirrors scope.Recalls (scope.walkSelection spread parent selection)
        (scope.walkSelection spread' parent selection)
  | .field node selections, hinside => by
    rw [walkSelection, walkSelection]
    refine .check fun _ _ => .check fun found _ => ?_
    cases found with
    | none => exact mirrors_pure 1
    | some type =>
      refine (mirrors_walkSelections hspread type selections fun selection hmem => ?_).bind
        fun depth => mirrors_pure _
      exact hinside.mono fun _ htarget => .field hmem htarget
  | .spread node, hinside => by
    rw [walkSelection, walkSelection]
    exact .check fun kept hkeeps => hspread parent node kept hkeeps hinside
  | .inline node selections, hinside => by
    rw [walkSelection, walkSelection]
    have hselections : ∀ selection ∈ selections, scope.Inside visiting selection :=
      fun selection hmem => hinside.mono fun _ htarget => .inline hmem htarget
    refine .check fun _ _ => ?_
    cases node.condition with
    | none => exact mirrors_walkSelections hspread parent selections hselections
    | some condition =>
      exact .check fun type _ => mirrors_walkSelections hspread type selections hselections

private theorem mirrors_walkSelections (hspread : scope.MirrorsSpreads visiting spread spread')
    (parent : TypeDefinition) : ∀ selections : List Selection,
      (∀ selection ∈ selections, scope.Inside visiting selection) →
      Mirrors scope.Recalls (scope.walkSelections spread parent selections)
        (scope.walkSelections spread' parent selections)
  | [], _ => mirrors_pure 0
  | selection :: rest, hinside => by
    rw [List.forall_mem_cons] at hinside
    exact (mirrors_walkSelection hspread parent selection hinside.1).cons
      (mirrors_walkSelections hspread parent rest hinside.2)

end

end

section

variable {budget : Nat} (hnodup : visiting.Nodup)
  (hknown : visiting ⊆ scope.fragments.map Fragment.name)
  (hbudget : scope.fragments.length ≤ visiting.length + budget)

include hnodup hknown hbudget

private theorem Recalls.walkAnew_eq {depths : Keyed Nat} (h : scope.Recalls depths)
    {node : SpreadNode}
    {kept : Bool} (hkeeps : scope.keeps .fragmentSpread node.directives = .ok kept)
    (hinside : scope.Inside visiting (.spread node)) {fragment : Fragment} {type : TypeDefinition}
    (hfragment : scope.fragment? node.name = some fragment)
    (htype : scope.conditionType parent fragment.condition = .ok type) {depth : Nat}
    (hdepth : depths.get? node.name = some depth) :
    scope.walkAnew budget visiting parent node = pure depth := by
  have hvalid : scope.Valid parent depth (.spread node) :=
    valid_spread hkeeps (h.valid _ _ hdepth) ⟨fragment, type, hfragment, htype⟩
  obtain ⟨found, hfound, hwalk⟩ :=
    hvalid.finds hnodup hknown (hinside.not_reaches hvalid) hbudget
  obtain ⟨_, hother, hdeepest⟩ := h.exact _ _ hdepth
  obtain rfl := (deepest_spread hother hdeepest).eq hfound
  exact (walkSelection_spread hkeeps).symm.trans hwalk

end

/-- The walk with the memory and the one without it agree on spreads. What is remembered of a
fragment is what both have found inside it. -/
theorem mirrors_walkSpread {budget : Nat} {visiting : List String} (hnodup : visiting.Nodup)
    (hknown : visiting ⊆ scope.fragments.map Fragment.name)
    (hbudget : scope.fragments.length ≤ visiting.length + budget) :
    scope.MirrorsSpreads visiting (scope.walkSpread budget visiting)
      (scope.walkAnew budget visiting) := by
  induction budget using Nat.strongRecOn generalizing visiting with
  | ind budget ih =>
    intro parent node kept hkeeps hinside
    rw [walkSpread.eq_def, walkAnew.eq_def]
    cases hfragment : scope.fragment? node.name with
    | none => exact mirrors_throw _
    | some fragment =>
      refine .check fun type htype => .recall fun depths hrecalls => ?_
      cases hdepth : depths.get? node.name with
      | some depth =>
        have hwalk :=
          hrecalls.walkAnew_eq hnodup hknown hbudget hkeeps hinside hfragment htype hdepth
        rw [walkAnew.eq_def] at hwalk
        simp only [hfragment, htype] at hwalk
        exact fun depths' => .of_eq_ok rfl (congrFun hwalk depths') ⟨rfl, rfl, hrecalls⟩
      | none =>
        suffices h : Mirrors scope.Recalls _ _ from fun depths' => h depths depths' hrecalls
        by_cases hvisiting : node.name ∈ visiting
        · simp only [List.contains_iff_mem.2 hvisiting, if_true]
          exact mirrors_throw _
        · have hcontains : visiting.contains node.name = false := by simpa using hvisiting
          obtain ⟨hnodup', hknown', less, rfl, hless⟩ :=
            exists_less_of_new hnodup hknown hfragment hvisiting hbudget
          simp only [hcontains, Bool.false_eq_true, if_false]
          refine .check fun kept' hdefinition => ?_
          have hselections : ∀ selection ∈ fragment.selections,
              scope.Inside (node.name :: visiting) selection :=
            fun selection hmem => hinside.spread hfragment hmem
          have hbody := mirrors_walkSelections
            (ih less (Nat.lt_succ_self less) hnodup' hknown' hless) type fragment.selections
            hselections
          refine hbody.remember fun depths depth before hdepths hbefore hrun hwalk => ?_
          have hall := (walkSelections_sound (walkSpread_sound less _) type depths depth before
            hdepths.valid fragment.selections hrun).2
          obtain ⟨found, hdeepest, hfound⟩ := finds_selections fun selection hmem =>
            (hall selection hmem).finds hnodup' hknown'
              ((hselections selection hmem).not_reaches (hall selection hmem)) hless
          obtain rfl : found = depth := congrArg Prod.fst (Except.ok.inj (hfound ▸ hwalk []))
          have hvalid : scope.ValidFragment node.name found :=
            ⟨fragment, type, kept', hfragment, (conditionType_eq_ok_iff.1 htype).1, hdefinition,
              hall⟩
          exact ⟨hbefore.valid.insert hvalid, hbefore.exact.insert hfragment hdeepest⟩

/-- Whatever the document, a memory makes no difference to the walk. -/
theorem depthAnew_eq_depth (scope : Scope) (extra : Nat) (root : TypeDefinition)
    (selections : List Selection) :
    scope.depthAnew (scope.fragments.length + extra) root selections =
      scope.depth root selections := by
  have hspread : scope.MirrorsSpreads [] (scope.walkSpread (scope.fragments.length + extra) [])
      (scope.walkAnew (scope.fragments.length + extra) []) :=
    mirrors_walkSpread List.nodup_nil (List.nil_subset _) (by simp)
  have hinside : ∀ selection ∈ selections, scope.Inside [] selection :=
    fun _ _ name hname => absurd hname List.not_mem_nil
  have hwalk := mirrors_walkSelections hspread root selections hinside [] [] ⟨nofun, nofun⟩
  rw [← depthWithin_eq_depth (Nat.le_add_right _ extra)]
  exact (Related.eq (hwalk.bind fun result result' h => .of_eq (h.1 ▸ rfl))).symm

end Scope

/-- The walk of an operation ends as if it walked a fragment anew wherever it is spread: it returns
the same depth, if the settings allow it, or the same first fault, at the same position. -/
theorem walk_anew (scope : Scope) (settings : Settings) (root : TypeDefinition)
    (operation : Operation) (extra : Nat) :
    (do
      let depth ← scope.depthAnew (scope.fragments.length + extra) root operation.selections
      (Plan.checkDepth settings operation depth).mapError ExecutionFault.validation
      pure depth) =
    (do
      let depth ← scope.depth root operation.selections
      (Plan.checkDepth settings operation depth).mapError ExecutionFault.validation
      pure depth) := by
  rw [Scope.depthAnew_eq_depth]

/-- A fragment that has been walked on a node is still refused on the query type. -/
example :
    (pageScope (pageField "id" [])).depth (.object pageQuery)
        [pageField "node" [pageSpread], pageSpread] =
      .error (.validation (.incompatibleFragment "Page" "Query" ⟨1, 1⟩)) := by
  decide +kernel

end GraphQuery
