import GraphQuery.Plan
import GraphQuery.Proofs.Selection.Rules

/-!
# Accepted operations

The walk against the rules. It keeps a memory of finished fragments and a list of the fragments
around it, the rules know neither. Main statement: the walk ends on every document, it accepts
exactly the proper operations, and the depth that it returns is how deep their fields nest.
-/

namespace GraphQuery

namespace Scope

variable {scope : Scope}

/-- The depth of the selections of an operation, with another budget for nested spreads. -/
def depthWithin (scope : Scope) (budget : Nat) (root : TypeDefinition)
    (selections : List Selection) : Except ExecutionFault Nat := do
  pure (← (scope.walkSelections (scope.walkSpread budget []) root selections).run []).1

private theorem walkSpread_congr {budget more : Nat} {visiting : List String}
    (h : ∀ name fragment, scope.fragment? name = some fragment → name ∉ visiting →
      ∃ less less', budget = less + 1 ∧ more = less' + 1 ∧
        scope.walkSpread less' (name :: visiting) = scope.walkSpread less (name :: visiting)) :
    scope.walkSpread more visiting = scope.walkSpread budget visiting := by
  funext parent node
  rw [walkSpread.eq_def, walkSpread.eq_def]
  cases hfragment : scope.fragment? node.name with
  | none => rfl
  | some fragment =>
    refine bind_congr fun type => bind_congr fun depths => ?_
    cases depths.get? node.name with
    | some depth => rfl
    | none =>
      by_cases hvisiting : node.name ∈ visiting
      · simp only [List.contains_iff_mem.2 hvisiting, if_true]
      · obtain ⟨less, less', rfl, rfl, hequal⟩ := h node.name fragment hfragment hvisiting
        simp only [hequal]

/-- Fragments inside each other differ, so budgets that have a step for each of them make no
difference, whatever the document. -/
theorem walkSpread_eq_of_budget {budget more : Nat} {visiting : List String}
    (hnodup : visiting.Nodup) (hknown : visiting ⊆ scope.fragments.map Fragment.name)
    (hbudget : scope.fragments.length ≤ visiting.length + budget)
    (hmore : scope.fragments.length ≤ visiting.length + more) :
    scope.walkSpread more visiting = scope.walkSpread budget visiting := by
  induction budget using Nat.strongRecOn generalizing more visiting with
  | ind budget ih =>
    refine walkSpread_congr fun name fragment hfragment hnew => ?_
    obtain ⟨hnodup', hknown', less, rfl, hless⟩ :=
      exists_less_of_new hnodup hknown hfragment hnew hbudget
    obtain ⟨-, -, less', rfl, hless'⟩ := exists_less_of_new hnodup hknown hfragment hnew hmore
    exact ⟨less, less', rfl, rfl, ih less (Nat.lt_succ_self less) hnodup' hknown' hless hless'⟩

/-- The walk ends: more steps than fragments lead to the same result. -/
theorem depthWithin_eq_depth {budget : Nat} (hbudget : scope.fragments.length ≤ budget)
    (root : TypeDefinition) (selections : List Selection) :
    scope.depthWithin budget root selections = scope.depth root selections := by
  have hspread : scope.walkSpread budget [] = scope.walkSpread scope.fragments.length [] :=
    walkSpread_eq_of_budget List.nodup_nil (List.nil_subset _) (by simp) (by simpa using hbudget)
  rw [depthWithin, hspread]
  rfl

/-- The invariant of the walk: it remembers how deep the fields of fragments nest. -/
def Exact (scope : Scope) (depths : Keyed Nat) : Prop :=
  ∀ name depth, depths.get? name = some depth → ∃ fragment, scope.fragment? name = some fragment ∧
    scope.Deepest fragment.selections depth

/-- The walk succeeds and returns how deep the fields of the selections nest. -/
def Measures (scope : Scope) (walk : Walk Nat) (selections : List Selection) : Prop :=
  ∀ depths, scope.Exact depths → ∃ depth depths', walk.run depths = .ok (depth, depths') ∧
    scope.Exact depths' ∧ scope.Deepest selections depth

theorem Exact.insert {depths : Keyed Nat} (hexact : scope.Exact depths) {name : String}
    {fragment : Fragment} (hfragment : scope.fragment? name = some fragment) {depth : Nat}
    (hdeepest : scope.Deepest fragment.selections depth) :
    scope.Exact (depths.insert name depth) := by
  intro other found hfound
  rw [Keyed.get?_insert] at hfound
  split at hfound
  · next heq =>
    obtain rfl := Option.some.inj hfound
    exact ⟨fragment, heq ▸ hfragment, hdeepest⟩
  · exact hexact other found hfound

section Measures

variable {walk : Walk Nat} {selections others : List Selection}

private theorem measures_pure {depth : Nat} (hdeepest : scope.Deepest selections depth) :
    scope.Measures (pure depth) selections :=
  fun depths hexact => ⟨depth, depths, run_pure_eq_ok_iff.2 rfl, hexact, hdeepest⟩

private theorem Measures.map (h : scope.Measures walk selections) {f : Nat → Nat}
    (hdeepest : ∀ depth, scope.Deepest selections depth → scope.Deepest others (f depth)) :
    scope.Measures (do pure (f (← walk))) others := by
  intro depths hexact
  obtain ⟨depth, depths', hrun, hexact', hdepth⟩ := h depths hexact
  refine ⟨f depth, depths', ?_, hexact', hdeepest depth hdepth⟩
  exact run_bind_eq_ok_iff.2 ⟨depth, depths', hrun, run_pure_eq_ok_iff.2 rfl⟩

private theorem Measures.imp (h : scope.Measures walk selections)
    (hdeepest : ∀ depth, scope.Deepest selections depth → scope.Deepest others depth) :
    scope.Measures walk others := by
  intro depths hexact
  obtain ⟨depth, depths', hrun, hexact', hdepth⟩ := h depths hexact
  exact ⟨depth, depths', hrun, hexact', hdeepest depth hdepth⟩

private theorem Measures.cons {selection : Selection} (h : scope.Measures walk [selection])
    {rest : Walk Nat} (hrest : scope.Measures rest selections) :
    scope.Measures (walk >>= fun first => rest >>= fun others => pure (max first others))
      (selection :: selections) := by
  intro depths hexact
  obtain ⟨first, between, hfirst, hbetween, hdeepest⟩ := h depths hexact
  obtain ⟨depth, depths', hrun, hexact', hdeepest'⟩ := hrest between hbetween
  refine ⟨max first depth, depths', ?_, hexact', deepest_cons hdeepest hdeepest'⟩
  refine run_bind_eq_ok_iff.2 ⟨first, between, hfirst, run_bind_eq_ok_iff.2 ?_⟩
  exact ⟨depth, depths', hrun, run_pure_eq_ok_iff.2 rfl⟩

end Measures

section Steps

variable {spread : TypeDefinition → SpreadNode → Walk Nat} {parent : TypeDefinition}
  {selections : List Selection} {kept : Bool}

theorem walkSelection_leaf {node : FieldNode}
    (hkeeps : scope.keeps .field node.directives = .ok kept)
    (hfound : scope.fieldType parent node (!selections.isEmpty) = .ok none) :
    scope.walkSelection spread parent (.field node selections) = pure 1 := by
  rw [walkSelection, hkeeps, hfound]
  rfl

theorem walkSelection_composite {node : FieldNode} {type : TypeDefinition}
    (hkeeps : scope.keeps .field node.directives = .ok kept)
    (hfound : scope.fieldType parent node (!selections.isEmpty) = .ok (some type)) :
    scope.walkSelection spread parent (.field node selections) =
      scope.walkSelections spread type selections >>= fun depth => pure (1 + depth) := by
  rw [walkSelection, hkeeps, hfound]
  rfl

theorem walkSelection_spread {node : SpreadNode}
    (hkeeps : scope.keeps .fragmentSpread node.directives = .ok kept) :
    scope.walkSelection spread parent (.spread node) = spread parent node := by
  rw [walkSelection, hkeeps]
  rfl

theorem walkSelection_inline {node : InlineNode} (hcondition : node.condition = none)
    (hkeeps : scope.keeps .inlineFragment node.directives = .ok kept) :
    scope.walkSelection spread parent (.inline node selections) =
      scope.walkSelections spread parent selections := by
  rw [walkSelection, hkeeps, hcondition]
  rfl

theorem walkSelection_inlineOn {node : InlineNode} {condition : TypeCondition}
    {type : TypeDefinition} (hcondition : node.condition = some condition)
    (hkeeps : scope.keeps .inlineFragment node.directives = .ok kept)
    (htype : scope.conditionType parent condition = .ok type) :
    scope.walkSelection spread parent (.inline node selections) =
      scope.walkSelections spread type selections := by
  rw [walkSelection, hkeeps, hcondition]
  simp only [htype]
  rfl

theorem fieldType_typename {node : FieldNode} (hname : node.name = "__typename") :
    scope.fieldType parent node false = .ok none := by
  simp [fieldType, hname]

theorem fieldType_field {node : FieldNode} {definition : FieldDefinition} {type : TypeDefinition}
    (hname : node.name ≠ "__typename") (hfield : parent.field? node.name = some definition)
    (htype : scope.system.innermost? definition.type = some type)
    (hleaf : type.isLeaf = selections.isEmpty) :
    scope.fieldType parent node (!selections.isEmpty) =
      .ok (if selections.isEmpty then none else some type) := by
  unfold fieldType
  simp only [beq_iff_eq, hname, if_false, hfield, htype, hleaf]
  cases selections <;> rfl

end Steps

section

variable {root parent : TypeDefinition} {operation : List Selection}

/-- The selection stands in a selection set that the operation reaches on the type. -/
def Reached (scope : Scope) (root : TypeDefinition) (operation : List Selection)
    (parent : TypeDefinition) (selection : Selection) : Prop :=
  ∃ set, scope.Reachable root operation parent set ∧ selection ∈ set

theorem Reachable.reached {set : List Selection} (h : scope.Reachable root operation parent set) :
    ∀ selection ∈ set, scope.Reached root operation parent selection :=
  fun _ hmem => ⟨set, h, hmem⟩

/-- Spreads inside the fragments `visiting` are measured, unless they come back to one of them. -/
def MeasuresSpreads (scope : Scope) (root : TypeDefinition) (operation : List Selection)
    (visiting : List String) (spread : TypeDefinition → SpreadNode → Walk Nat) : Prop :=
  ∀ parent node, scope.Reached root operation parent (.spread node) →
    (∀ name ∈ visiting, ¬ scope.Reaches (.spread node) name) →
    scope.Measures (spread parent node) [.spread node]

private theorem conditionType_of_suits (hwell : scope.system.WellFormed)
    (hparent : scope.system.get? parent.name = some parent) {condition : TypeCondition}
    (h : scope.Suits parent condition) :
    ∃ type, scope.system.get? condition.name = some type ∧
      scope.conditionType parent condition = .ok type := by
  obtain ⟨type, htype, hoverlap⟩ := (suits_iff hwell hparent).1 h
  exact ⟨type, htype, conditionType_eq_ok_iff.2 ⟨htype, hoverlap⟩⟩

mutual

private theorem measures_selection (hwell : scope.system.WellFormed)
    (hroot : scope.system.get? root.name = some root) (hproper : scope.Proper root operation)
    {visiting : List String} {spread : TypeDefinition → SpreadNode → Walk Nat}
    (hspread : scope.MeasuresSpreads root operation visiting spread) (parent : TypeDefinition) :
    ∀ selection, scope.Reached root operation parent selection →
      (∀ name ∈ visiting, ¬ scope.Reaches selection name) →
      scope.Measures (scope.walkSelection spread parent selection) [selection]
  | .field node selections, ⟨set, hset, hmem⟩, hfresh => by
    cases hproper.obeys parent set hset _ hmem with
    | typename hdirectives hname =>
      obtain ⟨kept, hkeeps⟩ := Bindings.exists_keeps_iff.2 hdirectives
      rw [walkSelection_leaf hkeeps (fieldType_typename hname)]
      exact measures_pure (deepest_field deepest_nil)
    | @field _ _ _ type hdirectives hname hfield htype hleaf =>
      obtain ⟨kept, hkeeps⟩ := Bindings.exists_keeps_iff.2 hdirectives
      have hempty : type.isLeaf = selections.isEmpty := by
        rw [Bool.eq_iff_iff, hleaf, List.isEmpty_iff]
      have hfound := fieldType_field hname hfield htype hempty
      cases hselections : selections.isEmpty with
      | true =>
        obtain rfl := List.isEmpty_iff.1 hselections
        rw [walkSelection_leaf hkeeps hfound]
        exact measures_pure (deepest_field deepest_nil)
      | false =>
        have hbelow : scope.Reachable root operation type selections :=
          .field hset hmem hfield htype
        have hmeasures := measures_selections hwell hroot hproper hspread type selections
          hbelow.reached fun selection hmem name hname hreach =>
            hfresh name hname (.field hmem hreach)
        rw [hselections, if_neg Bool.false_ne_true] at hfound
        rw [walkSelection_composite hkeeps (hselections ▸ hfound)]
        exact hmeasures.map fun _ => deepest_field
  | .spread node, hreached, hfresh => by
    obtain ⟨set, hset, hmem⟩ := hreached
    cases hproper.obeys parent set hset _ hmem with
    | spread hdirectives =>
      obtain ⟨kept, hkeeps⟩ := Bindings.exists_keeps_iff.2 hdirectives
      rw [walkSelection_spread hkeeps]
      exact hspread parent node ⟨set, hset, hmem⟩ hfresh
  | .inline node selections, ⟨set, hset, hmem⟩, hfresh => by
    cases hproper.obeys parent set hset _ hmem with
    | inline hdirectives hcondition =>
      obtain ⟨kept, hkeeps⟩ := Bindings.exists_keeps_iff.2 hdirectives
      have hinside : ∀ selection ∈ selections, ∀ name ∈ visiting,
          ¬ scope.Reaches selection name :=
        fun selection hmem name hname hreach => hfresh name hname (.inline hmem hreach)
      cases hnode : node.condition with
      | none =>
        have hset' : scope.Reachable root operation parent selections := .inline hset hmem hnode
        rw [walkSelection_inline hnode hkeeps]
        exact (measures_selections hwell hroot hproper hspread parent selections hset'.reached
          hinside).imp fun _ => deepest_inline
      | some condition =>
        obtain ⟨type, hget, htype⟩ :=
          conditionType_of_suits hwell (hset.registered hroot) (hcondition condition hnode)
        have hset' : scope.Reachable root operation type selections :=
          .inlineOn hset hmem hnode hget
        rw [walkSelection_inlineOn hnode hkeeps htype]
        exact (measures_selections hwell hroot hproper hspread type selections hset'.reached
          hinside).imp fun _ => deepest_inline

private theorem measures_selections (hwell : scope.system.WellFormed)
    (hroot : scope.system.get? root.name = some root) (hproper : scope.Proper root operation)
    {visiting : List String} {spread : TypeDefinition → SpreadNode → Walk Nat}
    (hspread : scope.MeasuresSpreads root operation visiting spread) (parent : TypeDefinition) :
    ∀ selections : List Selection,
      (∀ selection ∈ selections, scope.Reached root operation parent selection) →
      (∀ selection ∈ selections, ∀ name ∈ visiting, ¬ scope.Reaches selection name) →
      scope.Measures (scope.walkSelections spread parent selections) selections
  | [], _, _ => measures_pure deepest_nil
  | selection :: rest, hreached, hfresh => by
    rw [List.forall_mem_cons] at hreached hfresh
    have hfirst := measures_selection hwell hroot hproper hspread parent selection hreached.1
      hfresh.1
    have hrest := measures_selections hwell hroot hproper hspread parent rest hreached.2 hfresh.2
    rw [walkSelections]
    exact hfirst.cons hrest

end

private theorem run_walkSpread_known {budget : Nat} {visiting : List String} {node : SpreadNode}
    {fragment : Fragment} {type : TypeDefinition} {depths : Keyed Nat} {depth : Nat}
    (hfragment : scope.fragment? node.name = some fragment)
    (htype : scope.conditionType parent fragment.condition = .ok type)
    (hdepth : depths.get? node.name = some depth) :
    (scope.walkSpread budget visiting parent node).run depths = .ok (depth, depths) := by
  rw [walkSpread.eq_def]
  simp only [hfragment, run_bind_eq_ok_iff, run_lift_eq_ok_iff, run_get_eq_ok_iff]
  refine ⟨type, depths, ⟨htype, rfl⟩, depths, depths, rfl, ?_⟩
  simp only [hdepth]
  exact run_pure_eq_ok_iff.2 rfl

private theorem run_walkSpread_new (budget : Nat) {visiting : List String} {node : SpreadNode}
    {fragment : Fragment} {type : TypeDefinition} {depths : Keyed Nat} {kept : Bool}
    (hfragment : scope.fragment? node.name = some fragment)
    (htype : scope.conditionType parent fragment.condition = .ok type)
    (hdepth : depths.get? node.name = none) (hnew : node.name ∉ visiting)
    (hkeeps : scope.keeps .fragmentDefinition fragment.directives = .ok kept) :
    (scope.walkSpread (budget + 1) visiting parent node).run depths =
      (fun result => (result.1, result.2.insert node.name result.1)) <$>
        (scope.walkSelections (scope.walkSpread budget (node.name :: visiting)) type
          fragment.selections).run depths := by
  have hcontains : visiting.contains node.name = false := by simpa using hnew
  have hlift {α : Type} (a : α) (next : α → Walk Nat) :
      ((liftM (Except.ok a : Except ExecutionFault α) : Walk α) >>= next).run depths =
        (next a).run depths := rfl
  have hget (next : Keyed Nat → Walk Nat) :
      ((get : Walk (Keyed Nat)) >>= next).run depths = (next depths).run depths := rfl
  rw [walkSpread]
  simp only [hfragment, htype, hkeeps, hlift, hget, hdepth, hcontains]
  rfl

private theorem measures_walkSpread (hwell : scope.system.WellFormed)
    (hroot : scope.system.get? root.name = some root) (hproper : scope.Proper root operation)
    {budget : Nat} {visiting : List String} (hnodup : visiting.Nodup)
    (hknown : visiting ⊆ scope.fragments.map Fragment.name)
    (hbudget : scope.fragments.length ≤ visiting.length + budget) :
    scope.MeasuresSpreads root operation visiting (scope.walkSpread budget visiting) := by
  induction budget using Nat.strongRecOn generalizing visiting with
  | ind budget ih =>
    intro parent node ⟨set, hset, hmem⟩ hfresh depths hexact
    cases hproper.obeys parent set hset _ hmem with
    | @spread _ fragment _ hfragment hcondition hdefinition =>
      obtain ⟨type, hget, htype⟩ :=
        conditionType_of_suits hwell (hset.registered hroot) hcondition
      cases hdepth : depths.get? node.name with
      | some depth =>
        obtain ⟨found, hfound, hdeepest⟩ := hexact node.name depth hdepth
        exact ⟨depth, depths, run_walkSpread_known hfragment htype hdepth, hexact,
          deepest_spread hfound hdeepest⟩
      | none =>
        have hnew : node.name ∉ visiting := fun hmem => hfresh node.name hmem .spread
        obtain ⟨hnodup', hknown', less, rfl, hless⟩ :=
          exists_less_of_new hnodup hknown hfragment hnew hbudget
        -- Nothing in the fragment comes back to it, or to a fragment around it.
        have hfresh' : ∀ selection ∈ fragment.selections, ∀ name ∈ node.name :: visiting,
            ¬ scope.Reaches selection name := by
          rintro selection hinside name (_ | ⟨_, hname⟩)
          · exact hproper.acyclic parent set node fragment hset hmem hfragment selection hinside
          · exact fun hreach => hfresh name hname (.through hfragment hinside hreach)
        have hinside : scope.Reachable root operation type fragment.selections :=
          .spread hset hmem hfragment hget
        have hmeasures := measures_selections hwell hroot hproper
          (ih less (Nat.lt_succ_self less) hnodup' hknown' hless) type fragment.selections
          hinside.reached hfresh'
        obtain ⟨depth, before, hrun, hbefore, hdeepest⟩ := hmeasures depths hexact
        obtain ⟨kept, hkeeps⟩ := Bindings.exists_keeps_iff.2 hdefinition
        have hspread := run_walkSpread_new less hfragment htype hdepth hnew hkeeps
        rw [hrun] at hspread
        exact ⟨depth, before.insert node.name depth, hspread, hbefore.insert hfragment hdeepest,
          deepest_spread hfragment hdeepest⟩

theorem exists_depth_of_proper (hwell : scope.system.WellFormed)
    (hroot : scope.system.get? root.name = some root) (hproper : scope.Proper root operation) :
    ∃ depth, scope.depth root operation = .ok depth ∧ scope.Deepest operation depth := by
  have hspread : scope.MeasuresSpreads root operation []
      (scope.walkSpread scope.fragments.length []) :=
    measures_walkSpread hwell hroot hproper List.nodup_nil (List.nil_subset _) (by simp)
  have hmeasures := measures_selections hwell hroot hproper hspread root operation
    Reachable.operation.reached (by simp)
  obtain ⟨depth, depths, hrun, -, hdeepest⟩ :=
    hmeasures [] fun name depth hget => by simp [Keyed.get?] at hget
  refine ⟨depth, ?_, hdeepest⟩
  rw [Scope.depth, hrun]
  rfl

/-- The walk accepts exactly the proper operations, and the depth that it returns is theirs. -/
theorem depth_eq_ok_iff (hwell : scope.system.WellFormed)
    (hroot : scope.system.get? root.name = some root) {depth : Nat} :
    scope.depth root operation = .ok depth ↔
      scope.Proper root operation ∧ scope.Deepest operation depth := by
  constructor
  · intro h
    have hproper := proper_of_valid hwell hroot (valid_of_depth_eq_ok h)
    obtain ⟨other, hother, hdeepest⟩ := exists_depth_of_proper hwell hroot hproper
    obtain rfl : depth = other := Except.ok.inj (h.symm.trans hother)
    exact ⟨hproper, hdeepest⟩
  · rintro ⟨hproper, hdeepest⟩
    obtain ⟨other, hother, hdeepest'⟩ := exists_depth_of_proper hwell hroot hproper
    rw [hother, hdeepest'.eq hdeepest]

end

end Scope

/-- The walk of an operation ends, whatever the document, and it accepts exactly the operations in
which every reachable selection obeys the rules, no fragment comes back to itself and fields nest
no deeper than allowed. The depth that it returns is the deepest nesting. -/
theorem walk_accepts_iff {draft : SchemaDraft} {schema : ExecutableSchema}
    (hfinish : draft.finish = .ok schema) {scope : Scope} (hschema : scope.schema = schema.toSchema)
    {root : ObjectType} (hroot : schema.query? = some root) (settings : Settings)
    (operation : Operation) :
    (∀ budget, scope.fragments.length ≤ budget →
      scope.depthWithin budget (.object root) operation.selections =
        scope.depth (.object root) operation.selections) ∧
    ((∃ depth, scope.depth (.object root) operation.selections = .ok depth ∧
        Plan.checkDepth settings operation depth = .ok ()) ↔
      scope.Proper (.object root) operation.selections ∧
        ∀ limit, settings.maxDepth = some limit → ∀ selection ∈ operation.selections,
          ∀ nested, scope.Nests selection nested → nested ≤ limit) ∧
    ∀ depth, scope.depth (.object root) operation.selections = .ok depth →
      scope.Deepest operation.selections depth := by
  have hwell := Scope.wellFormed_of_finish hschema hfinish
  have hregistered := Scope.get?_root hschema hroot
  have hiff (depth : Nat) : scope.depth (.object root) operation.selections = .ok depth ↔
      scope.Proper (.object root) operation.selections ∧
        scope.Deepest operation.selections depth := Scope.depth_eq_ok_iff hwell hregistered
  have hcheck (depth : Nat) : Plan.checkDepth settings operation depth = .ok () ↔
      ∀ limit, settings.maxDepth = some limit → depth ≤ limit := by
    unfold Plan.checkDepth
    cases settings.maxDepth with
    | none => simp
    | some limit => by_cases hlt : limit < depth <;> simp [hlt]; omega
  refine ⟨fun budget hbudget => Scope.depthWithin_eq_depth hbudget _ _, ⟨?_, ?_⟩, ?_⟩
  · rintro ⟨depth, hdepth, hallowed⟩
    obtain ⟨hproper, hdeepest⟩ := (hiff depth).1 hdepth
    refine ⟨hproper, fun limit hlimit selection hmem nested hnests => ?_⟩
    have hle := (hcheck depth).1 hallowed limit hlimit
    exact Nat.le_trans (hdeepest.bound selection hmem nested hnests) hle
  · rintro ⟨hproper, hlimits⟩
    obtain ⟨depth, hdepth, hdeepest⟩ := Scope.exists_depth_of_proper hwell hregistered hproper
    refine ⟨depth, hdepth, (hcheck depth).2 fun limit hlimit => ?_⟩
    rcases hdeepest.attained with rfl | ⟨selection, hmem, hnests⟩
    · exact Nat.zero_le limit
    · exact hlimits limit hlimit selection hmem depth hnests
  · exact fun depth hdepth => ((hiff depth).1 hdepth).2

def pageQuery : ObjectType := ⟨"Query", [⟨"node", .named "Node" true, []⟩], []⟩

/-- A schema with pages that have a next node. -/
def pageDraft : SchemaDraft :=
  let fields : List FieldDefinition :=
    [⟨"id", .named "ID" false, []⟩, ⟨"next", .named "Node" true, []⟩]
  [.object pageQuery, .interface ⟨"Node", fields, [], none⟩,
    .object ⟨"Page", fields, ["Node"]⟩].foldl SchemaDraft.register (.new "Query")

def pageSchema : ExecutableSchema :=
  { toTypeSystem := SchemaDraft.withPossibleTypes pageDraft.typeSystem
    resolvers := .parents
    directives := DirectiveSpec.builtins
    translator := .standard
    delays := .none }

def pageField (name : String) (selections : List Selection) : Selection :=
  .field ⟨⟨1, 1⟩, none, name, [], []⟩ selections

def pageSpread : Selection := .spread ⟨⟨1, 1⟩, "page", []⟩

/-- The document has the fragment `fragment page on Page { next { .. } }`. -/
def pageScope (inside : Selection) : Scope :=
  { schema := pageSchema.toSchema
    values := []
    fragments := [⟨"page", ⟨"Page", ⟨1, 1⟩⟩, [], [pageField "next" [inside]]⟩] }

/-- The operation `{ node { ...page } }`. -/
def pageOperation : Operation := ⟨⟨1, 1⟩, .query, [], [], [pageField "node" [pageSpread]]⟩

def useOf (directive : DirectiveSpec) (arguments : List Argument) : DirectiveUse :=
  ⟨⟨1, 1⟩, directive.name, arguments⟩

def skipIf (condition : Term) : DirectiveUse := useOf .skip [⟨"if", condition, ⟨1, 1⟩⟩]

def includeIf (condition : Term) : DirectiveUse := useOf .includeOnly [⟨"if", condition, ⟨1, 1⟩⟩]

def markedField (name : String) (directives : List DirectiveUse) (selections : List Selection) :
    Selection :=
  .field ⟨⟨1, 1⟩, none, name, [], directives⟩ selections

/-- Spreads with the directive `@paged(size: Int!)` are kept if the size is positive, and it must
not be negative. -/
def paged : DirectiveSpec :=
  { name := "paged"
    description := none
    locations := [.fragmentSpread]
    arguments := [⟨"size", .named "Int" false, none, none⟩]
    predicate := some fun arguments _ =>
      match arguments.get? "size" with
      | some (.number (.int size)) =>
        if size < 0 then .error "The size is negative." else .ok (decide (0 < size))
      | _ => .error "The size is missing."
    hook := none }

def pagedSchema : ExecutableSchema :=
  { pageSchema with directives := DirectiveSpec.builtins ++ [paged] }

def pagedScope (inside : Selection) : Scope :=
  { pageScope inside with schema := pagedSchema.toSchema }

/-- The use `@paged(size: size)`. -/
def pagedBy (size : Int) : DirectiveUse :=
  useOf paged [⟨"size", .number (.int size), ⟨1, 1⟩⟩]

/-- The operation `{ node .. { ...page .. } }` with directives on the field and on the spread. -/
def pagedOperation (onField onSpread : List DirectiveUse) : Operation :=
  { pageOperation with
    selections := [markedField "node" onField [.spread ⟨⟨1, 1⟩, "page", onSpread⟩]] }

/-- The next page may be asked for its identifier, but not for the same fragment again, not even if
a directive drops the fragment. The directive must be known, stand on a spread, have its size and
accept it. -/
theorem walk_of_pages :
    let idPages := pagedScope (pageField "id" [])
    let root : TypeDefinition := .object pageQuery
    idPages.Proper root (pagedOperation [] [pagedBy 2]).selections ∧
      idPages.Deepest (pagedOperation [] [pagedBy 2]).selections 3 ∧
      ¬ (pagedScope pageSpread).Proper root (pagedOperation [] [pagedBy 0]).selections ∧
      ¬ idPages.Proper root (pagedOperation [] [⟨⟨1, 1⟩, "sized", []⟩]).selections ∧
      ¬ idPages.Proper root (pagedOperation [pagedBy 2] []).selections ∧
      ¬ idPages.Proper root (pagedOperation [] [useOf paged []]).selections ∧
      ¬ idPages.Proper root (pagedOperation [] [pagedBy (-1)]).selections := by
  intro idPages root
  have hfinish : (pageDraft.directive paged).finish = .ok pagedSchema := rfl
  have hroot : pagedSchema.query? = some pageQuery := rfl
  have hwalk (inside : Selection) (onField onSpread : List DirectiveUse) :=
    walk_accepts_iff hfinish (rfl : (pagedScope inside).schema = pagedSchema.toSchema) hroot
      .default
      (pagedOperation onField onSpread)
  have hrefused {inside : Selection} {onField onSpread : List DirectiveUse} {fault : ExecutionFault}
      (h : (pagedScope inside).depth root (pagedOperation onField onSpread).selections =
        .error fault) :
      ¬ (pagedScope inside).Proper root (pagedOperation onField onSpread).selections := by
    intro hproper
    obtain ⟨depth, hdepth, -⟩ := (hwalk inside onField onSpread).2.1.2 ⟨hproper, nofun⟩
    cases h.symm.trans hdepth
  have hdepth : idPages.depth root (pagedOperation [] [pagedBy 2]).selections = .ok 3 := by
    decide +kernel
  have hcycle : (pagedScope pageSpread).depth root (pagedOperation [] [pagedBy 0]).selections =
      .error (.validation (.fragmentCycle "page" ⟨1, 1⟩)) := by decide +kernel
  have hunknown : idPages.depth root (pagedOperation [] [⟨⟨1, 1⟩, "sized", []⟩]).selections =
      .error (.validation (.unknownDirective "sized" ⟨1, 1⟩)) := by decide +kernel
  have hmisplaced : idPages.depth root (pagedOperation [pagedBy 2] []).selections =
      .error (.validation (.misplacedDirective "paged" .field ⟨1, 1⟩)) := by decide +kernel
  have hmissing : idPages.depth root (pagedOperation [] [useOf paged []]).selections =
      .error (.validation (.invalidDirective "paged"
        (InputFault.missingArgument "size" "Int!").message
        ⟨1, 1⟩)) := by decide +kernel
  have hnegative : idPages.depth root (pagedOperation [] [pagedBy (-1)]).selections =
      .error (.validation (.invalidDirective "paged" "The size is negative." ⟨1, 1⟩)) := by
    decide +kernel
  obtain ⟨-, hiff, hdeepest⟩ := hwalk (pageField "id" []) [] [pagedBy 2]
  exact ⟨(hiff.1 ⟨3, hdepth, rfl⟩).1, hdeepest 3 hdepth, hrefused hcycle, hrefused hunknown,
    hrefused hmisplaced, hrefused hmissing, hrefused hnegative⟩

end GraphQuery
