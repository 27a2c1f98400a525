import GraphQuery.Proofs.Selection.Flattening
import GraphQuery.Selection.Walk

/-!
# What an operation reaches

The selections of an operation, with those in the fragments that it spreads at any depth, and scopes
whose fragments agree on what is reached. Main statements: the walk of the operation ends alike in
both scopes, and valid selections that are reached are collected alike, whatever other fragments
there are.
-/

namespace GraphQuery

/-- The selections that an operation reaches with fragments, whether or not they are kept. -/
inductive Operation.Reaches (operation : Operation) (fragments : List Fragment) :
    Selection → Prop
  | here {selection} (hmem : selection ∈ operation.selections) :
      Reaches operation fragments selection
  | field {node selections selection}
      (h : Reaches operation fragments (.field node selections)) (hmem : selection ∈ selections) :
      Reaches operation fragments selection
  | inline {node selections selection}
      (h : Reaches operation fragments (.inline node selections)) (hmem : selection ∈ selections) :
      Reaches operation fragments selection
  | spread {node fragment selection} (h : Reaches operation fragments (.spread node))
      (hfragment : Fragment.find? fragments node.name = some fragment)
      (hmem : selection ∈ fragment.selections) : Reaches operation fragments selection

theorem Operation.Reaches.mem {operation : Operation} {fragments : List Fragment}
    {reachable : List Selection} (hhere : operation.selections ⊆ reachable)
    (hinside : ∀ selection ∈ reachable,
      match selection with
      | .field _ inner | .inline _ inner => inner ⊆ reachable
      | .spread node => ∀ fragment, Fragment.find? fragments node.name = some fragment →
        fragment.selections ⊆ reachable)
    {selection : Selection} (h : operation.Reaches fragments selection) :
    selection ∈ reachable := by
  induction h with
  | here hmem => exact hhere hmem
  | field _ hmem ih => exact hinside _ ih hmem
  | inline _ hmem ih => exact hinside _ ih hmem
  | spread _ hfragment hmem ih => exact hinside _ ih _ hfragment hmem

theorem Operation.reaches_selections {operation : Operation} {fragments : List Fragment}
    {group : FieldGroup}
    (h : ∀ field ∈ group.fields, operation.Reaches fragments (.field field.node field.selections)) :
    ∀ list ∈ group.selections, ∀ selection ∈ list, operation.Reaches fragments selection := by
  intro list hlist selection hmem
  obtain ⟨field, hfield, rfl⟩ := List.mem_map.1 hlist
  exact (h field hfield).field hmem

/-- Two documents define the same fragments under the names that an operation spreads where it
reaches, or both define none. -/
def Operation.SameFragments (operation : Operation) (fragments others : List Fragment) : Prop :=
  ∀ node, operation.Reaches fragments (.spread node) →
    Fragment.find? others node.name = Fragment.find? fragments node.name

namespace Scope

/-- The scope of a document with other fragments. -/
def withFragments (scope : Scope) (fragments : List Fragment) : Scope := { scope with fragments }

variable {scope : Scope} {operation : Operation} {others : List Fragment}

section

variable (scope)

@[simp] theorem toBindings_withFragments :
    (scope.withFragments others).toBindings = scope.toBindings := rfl

@[simp] theorem fragments_withFragments : (scope.withFragments others).fragments = others := rfl

@[simp] theorem conditionType_withFragments :
    (scope.withFragments others).conditionType = scope.conditionType := rfl

@[simp] theorem fieldType_withFragments :
    (scope.withFragments others).fieldType = scope.fieldType := rfl

end

private theorem fragment?_withFragments (hsame : operation.SameFragments scope.fragments others)
    {node : SpreadNode} (hreached : operation.Reaches scope.fragments (.spread node)) :
    (scope.withFragments others).fragment? node.name = scope.fragment? node.name :=
  hsame node hreached

section Walk

variable {spread spread' : TypeDefinition → SpreadNode → Walk Nat}

mutual

private theorem walkSelection_withFragments (others : List Fragment)
    (hspread : ∀ parent node, operation.Reaches scope.fragments (.spread node) →
      spread' parent node = spread parent node) (parent : TypeDefinition) :
    ∀ selection, operation.Reaches scope.fragments selection →
      (scope.withFragments others).walkSelection spread' parent selection =
        scope.walkSelection spread parent selection
  | .field node selections, hreached => by
    have hbelow (type : TypeDefinition) :=
      walkSelections_withFragments others hspread type selections fun _ hmem => hreached.field hmem
    simp only [walkSelection, toBindings_withFragments, fieldType_withFragments, hbelow]
  | .spread node, hreached => by
    simp only [walkSelection, toBindings_withFragments, hspread parent node hreached]
  | .inline node selections, hreached => by
    have hinside (type : TypeDefinition) :=
      walkSelections_withFragments others hspread type selections fun _ hmem => hreached.inline hmem
    simp only [walkSelection, toBindings_withFragments, conditionType_withFragments, hinside]

private theorem walkSelections_withFragments (others : List Fragment)
    (hspread : ∀ parent node, operation.Reaches scope.fragments (.spread node) →
      spread' parent node = spread parent node) (parent : TypeDefinition) :
    ∀ selections : List Selection,
      (∀ selection ∈ selections, operation.Reaches scope.fragments selection) →
      (scope.withFragments others).walkSelections spread' parent selections =
        scope.walkSelections spread parent selections
  | [], _ => rfl
  | selection :: rest, hreached => by
    rw [List.forall_mem_cons] at hreached
    rw [walkSelections, walkSelections,
      walkSelection_withFragments others hspread parent selection hreached.1,
      walkSelections_withFragments others hspread parent rest hreached.2]

end

/-- Fragments inside each other differ, so each document needs a step for each of its own
fragments, and they are used up together. -/
theorem walkSpread_withFragments (hsame : operation.SameFragments scope.fragments others)
    {budget more : Nat} {visiting : List String} (hnodup : visiting.Nodup)
    (hknown : visiting ⊆ scope.fragments.map Fragment.name)
    (hknown' : visiting ⊆ others.map Fragment.name)
    (hbudget : scope.fragments.length ≤ visiting.length + budget)
    (hmore : others.length ≤ visiting.length + more) (parent : TypeDefinition)
    (node : SpreadNode) (hreached : operation.Reaches scope.fragments (.spread node)) :
    (scope.withFragments others).walkSpread more visiting parent node =
      scope.walkSpread budget visiting parent node := by
  induction budget using Nat.strongRecOn generalizing more visiting parent node with
  | ind budget ih =>
    have hfound := fragment?_withFragments hsame hreached
    rw [walkSpread.eq_def, walkSpread.eq_def, hfound]
    cases hfragment : scope.fragment? node.name with
    | none => rfl
    | some fragment =>
      refine bind_congr fun type => bind_congr fun depths => ?_
      cases depths.get? node.name with
      | some depth => rfl
      | none =>
        by_cases hvisiting : node.name ∈ visiting
        · simp only [List.contains_iff_mem.2 hvisiting, if_true]
        · obtain ⟨hnodup', hcons, less, rfl, hless⟩ :=
            exists_less_of_new hnodup hknown hfragment hvisiting hbudget
          have hfragment' : (scope.withFragments others).fragment? node.name = some fragment :=
            hfound.trans hfragment
          obtain ⟨-, hcons', less', rfl, hless'⟩ :=
            exists_less_of_new hnodup hknown' hfragment' hvisiting hmore
          have hinside := walkSelections_withFragments others
            (ih less (Nat.lt_succ_self less) hnodup' hcons hcons' hless hless') type
            fragment.selections fun _ hmem => hreached.spread hfragment hmem
          simp only [toBindings_withFragments, hinside]

theorem depth_withFragments (hsame : operation.SameFragments scope.fragments others)
    (root : TypeDefinition) :
    (scope.withFragments others).depth root operation.selections =
      scope.depth root operation.selections := by
  have hspread (parent : TypeDefinition) (node : SpreadNode)
      (hreached : operation.Reaches scope.fragments (.spread node)) :
      (scope.withFragments others).walkSpread others.length [] parent node =
        scope.walkSpread scope.fragments.length [] parent node :=
    walkSpread_withFragments hsame List.nodup_nil (List.nil_subset _) (List.nil_subset _) (by simp)
      (by simp) parent node hreached
  have hwalk := walkSelections_withFragments others hspread root operation.selections
    fun _ hmem => .here hmem
  rw [depth, depth, fragments_withFragments, hwalk]

end Walk

section

variable {object : String} {selection : Selection}

private theorem Valid.withFragments (hsame : operation.SameFragments scope.fragments others)
    {parent : TypeDefinition} {depth : Nat} (h : scope.Valid parent depth selection)
    (hreached : operation.Reaches scope.fragments selection) :
    (scope.withFragments others).Valid parent depth selection := by
  induction h with
  | typename hkeeps hname => exact .typename hkeeps hname
  | leaf hkeeps hname hfield htype hleaf => exact .leaf hkeeps hname hfield htype hleaf
  | composite hkeeps hname hfield htype hleaf hsome _ ih =>
    refine .composite hkeeps hname hfield htype hleaf hsome fun selection hmem => ?_
    exact ih selection hmem (hreached.field hmem)
  | inline hkeeps hcondition _ ih =>
    exact .inline hkeeps hcondition fun selection hmem => ih selection hmem (hreached.inline hmem)
  | inlineOn hkeeps hcondition htype hoverlap _ ih =>
    refine .inlineOn hkeeps hcondition htype hoverlap fun selection hmem => ?_
    exact ih selection hmem (hreached.inline hmem)
  | spread hkeeps hfragment htype hoverlap hdefinition _ ih =>
    have hfound := (fragment?_withFragments hsame hreached).trans hfragment
    refine .spread hkeeps hfound htype hoverlap hdefinition fun selection hmem => ?_
    exact ih selection hmem (hreached.spread hfragment hmem)

private theorem Opens.withFragments (hsame : operation.SameFragments scope.fragments others)
    {body : List Selection} (h : scope.Opens object selection body)
    (hreached : operation.Reaches scope.fragments selection) :
    (scope.withFragments others).Opens object selection body ∧
      ∀ inner ∈ body, operation.Reaches scope.fragments inner := by
  cases h with
  | inline hkeeps =>
    refine ⟨.inline hkeeps, fun inner hmem => ?_⟩
    split at hmem
    · exact hreached.inline hmem
    · cases hmem
  | dropped hkeeps => exact ⟨.dropped hkeeps, by simp⟩
  | spread hkeeps hfragment hdefinition =>
    have hfound := (fragment?_withFragments hsame hreached).trans hfragment
    refine ⟨.spread hkeeps hfound hdefinition, fun inner hmem => ?_⟩
    split at hmem
    · exact hreached.spread hfragment hmem
    · cases hmem

private theorem Flattens.withFragments (hsame : operation.SameFragments scope.fragments others)
    {selections : List Selection} {fields : List SelectedField}
    (h : scope.Flattens object selections fields)
    (hreached : ∀ selection ∈ selections, operation.Reaches scope.fragments selection) :
    (scope.withFragments others).Flattens object selections fields ∧
      ∀ field ∈ fields, operation.Reaches scope.fragments (.field field.node field.selections) := by
  induction h with
  | nil => exact ⟨.nil, by simp⟩
  | @field node selections kept rest fields hkeeps _ ih =>
    rw [List.forall_mem_cons] at hreached
    obtain ⟨hflattens, hfields⟩ := ih hreached.2
    refine ⟨.field hkeeps hflattens, ?_⟩
    cases kept with
    | true => exact List.forall_mem_cons.2 ⟨hreached.1, hfields⟩
    | false => exact hfields
  | fragment hopens _ _ ihbody ihrest =>
    rw [List.forall_mem_cons] at hreached
    obtain ⟨hopens', hbody⟩ := hopens.withFragments hsame hreached.1
    obtain ⟨hinside, hreachedInside⟩ := ihbody hbody
    obtain ⟨hflattens, hfields⟩ := ihrest hreached.2
    refine ⟨.fragment hopens' hinside hflattens, fun field hmem => ?_⟩
    exact (List.mem_append.1 hmem).elim (hreachedInside field) (hfields field)

end

theorem exists_valid_of_reaches {root : TypeDefinition} {depth : Nat}
    (hoperation : ∀ selection ∈ operation.selections, scope.Valid root depth selection)
    {selection : Selection} (h : operation.Reaches scope.fragments selection) :
    ∃ parent depth, scope.Valid parent depth selection := by
  induction h with
  | here hmem => exact ⟨root, depth, hoperation _ hmem⟩
  | field _ hmem ih =>
    obtain ⟨_, _, hvalid⟩ := ih
    cases hvalid with
    | typename | leaf => cases hmem
    | composite _ _ _ _ _ _ hall => exact ⟨_, _, hall _ hmem⟩
  | inline _ hmem ih =>
    obtain ⟨_, _, hvalid⟩ := ih
    cases hvalid with
    | inline _ _ hall | inlineOn _ _ _ _ hall => exact ⟨_, _, hall _ hmem⟩
  | spread _ hfragment hmem ih =>
    obtain ⟨_, _, hvalid⟩ := ih
    cases hvalid with
    | spread _ hfound _ _ _ hall =>
      obtain rfl := Option.some.inj (hfound.symm.trans hfragment)
      exact ⟨_, _, hall _ hmem⟩

theorem collect_withFragments (hsame : operation.SameFragments scope.fragments others)
    {selections : List (List Selection)}
    (hvalid : ∀ list ∈ selections, ∀ selection ∈ list,
      ∃ parent depth, scope.Valid parent depth selection)
    (hreached : ∀ list ∈ selections, ∀ selection ∈ list,
      operation.Reaches scope.fragments selection) (object : String) :
    (scope.withFragments others).collect object selections = scope.collect object selections ∧
      ∀ groups, scope.collect object selections = .ok groups →
        ∀ group ∈ groups, ∀ field ∈ group.fields,
          operation.Reaches scope.fragments (.field field.node field.selections) := by
  have hvalid' : ∀ list ∈ selections, ∀ selection ∈ list,
      ∃ parent depth, (scope.withFragments others).Valid parent depth selection := by
    intro list hlist selection hmem
    obtain ⟨parent, depth, h⟩ := hvalid list hlist selection hmem
    exact ⟨parent, depth, h.withFragments hsame (hreached list hlist selection hmem)⟩
  obtain ⟨fields, hfields⟩ := exists_flattens hvalid object
  obtain ⟨hfields', hreachedFields⟩ := hfields.withFragments hsame fun selection hmem => by
    obtain ⟨list, hlist, hselection⟩ := List.mem_flatten.1 hmem
    exact hreached list hlist selection hselection
  have hcollect := collect_eq_of_flattens hvalid hfields
  refine ⟨(collect_eq_of_flattens hvalid' hfields').trans hcollect.symm, ?_⟩
  intro groups hgroups group hgroup field hfield
  obtain rfl := Except.ok.inj (hcollect.symm.trans hgroups)
  have hmember : field ∈ FieldGroup.members (FieldGroup.addAll [] fields) :=
    List.mem_flatMap.2 ⟨group, hgroup, hfield⟩
  have hnew : field ∈ fields := (FieldGroup.mem_members_addAll.1 hmember).resolve_left (by
    simp [FieldGroup.members])
  exact hreachedFields field hnew

end Scope

end GraphQuery
