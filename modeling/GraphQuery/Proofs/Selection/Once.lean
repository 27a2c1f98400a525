import GraphQuery.Proofs.Selection.Condensed

/-!
# Fragments spliced once

A collector that remembers which fragments it has spliced and splices none of them again, however
often they are spread. Main statement: what it collects from valid selections are the fields of
their flattening, condensed and grouped.
-/

namespace GraphQuery

namespace Scope

/-- The fragments that have been spliced so far, with the groups that have been collected. -/
structure Splicing where
  spliced : List String
  groups : List FieldGroup

abbrev OnceCollector := Splicing → Except ExecutionFault Splicing

mutual

/-- Collects what a selection asks of an object; `splice` collects the fragments that it uses. -/
def onceSelection (scope : Scope) (splice : SpreadNode → OnceCollector) (object : String) :
    Selection → OnceCollector
  | .field node selections, state => do
    if ← scope.keeps .field node.directives then
      pure { state with groups := FieldGroup.add ⟨node, selections⟩ state.groups }
    else pure state
  | .spread node, state => do
    if ← scope.keeps .fragmentSpread node.directives then splice node state else pure state
  | .inline node selections, state => do
    if ← scope.keeps .inlineFragment node.directives then
      if node.condition.all fun condition => scope.system.applies object condition.name then
        scope.onceSelections splice object selections state
      else pure state
    else pure state

def onceSelections (scope : Scope) (splice : SpreadNode → OnceCollector) (object : String) :
    List Selection → OnceCollector
  | [], state => pure state
  | selection :: rest, state => do
    let state ← scope.onceSelection splice object selection state
    scope.onceSelections splice object rest state

end

/-- Collects the fragment of a spread, unless it has been spliced before. -/
def onceSpread (scope : Scope) (object : String) (budget : Nat) (node : SpreadNode) :
    OnceCollector := fun state => do
  if state.spliced.contains node.name then pure state
  else
    match scope.fragment? node.name with
    | none => .error (.validation (.unknownFragment node.name node.position))
    | some fragment =>
      let kept ← scope.keeps .fragmentDefinition fragment.directives
      if kept && scope.system.applies object fragment.condition.name then
        match budget with
        | 0 => .error (.validation (.fragmentCycle node.name node.position))
        | budget + 1 =>
          scope.onceSelections (scope.onceSpread object budget) object fragment.selections
            { state with spliced := node.name :: state.spliced }
      else pure state

/-- The fields that lists of selections ask of an object, with each fragment spliced at most once
in all of them. -/
def collectOnce (scope : Scope) (object : String) (selections : List (List Selection)) :
    Except ExecutionFault (List FieldGroup) := do
  let final ← selections.foldlM
    (fun state list =>
      scope.onceSelections (scope.onceSpread object scope.fragments.length) object list state)
    ⟨[], []⟩
  pure final.groups

open FieldGroup (addAll)

variable {scope : Scope} {object : String}

private theorem onceSelections_append (splice : SpreadNode → OnceCollector)
    (selections others : List Selection) (state : Splicing) :
    scope.onceSelections splice object (selections ++ others) state =
      scope.onceSelections splice object selections state >>=
        scope.onceSelections splice object others := by
  induction selections generalizing state with
  | nil => rfl
  | cons selection rest ih => simp only [List.cons_append, onceSelections, bind_assoc, ih]

private theorem collectOnce_eq_onceSelections (selections : List (List Selection)) :
    scope.collectOnce object selections =
      Splicing.groups <$> scope.onceSelections (scope.onceSpread object scope.fragments.length)
        object selections.flatten ⟨[], []⟩ := by
  have hfold (start : Splicing) :
      selections.foldlM
          (fun state list => scope.onceSelections
            (scope.onceSpread object scope.fragments.length) object list state) start =
        scope.onceSelections (scope.onceSpread object scope.fragments.length) object
          selections.flatten start := by
    induction selections generalizing start with
    | nil => rfl
    | cons list rest ih =>
      rw [List.foldlM_cons, List.flatten_cons, onceSelections_append]
      exact bind_congr ih
  rw [collectOnce, hfold]
  rfl

section

variable {selection inner : Selection} {body : List Selection}

private theorem Opens.valid (h : scope.Opens object selection body)
    (hvalid : ∃ parent depth, scope.Valid parent depth selection) (hmem : inner ∈ body) :
    ∃ parent depth, scope.Valid parent depth inner := by
  obtain ⟨parent, depth, hselection⟩ := hvalid
  cases h with
  | inline =>
    split at hmem
    · cases hselection with
      | inline _ _ hall | inlineOn _ _ _ _ hall => exact ⟨_, _, hall inner hmem⟩
    · cases hmem
  | dropped => cases hmem
  | spread _ hfragment =>
    split at hmem
    · cases hselection with
      | spread _ hfound _ _ _ hall =>
        obtain rfl := Option.some.inj (hfound.symm.trans hfragment)
        exact ⟨_, _, hall inner hmem⟩
    · cases hmem

private theorem Opens.reaches (h : scope.Opens object selection body) (hmem : inner ∈ body)
    {name : String} (hreaches : scope.Reaches inner name) : scope.Reaches selection name := by
  cases h with
  | inline =>
    split at hmem
    · exact .inline hmem hreaches
    · cases hmem
  | dropped => cases hmem
  | spread _ hfragment =>
    split at hmem
    · exact .through hfragment hmem hreaches
    · cases hmem

end

/-- All fields of the fragment `name` are among `seen`. -/
def Covered (scope : Scope) (object : String) (seen : List SelectedField) (name : String) : Prop :=
  ∀ fragment inside, scope.fragment? name = some fragment →
    scope.Flattens object fragment.selections inside → inside ⊆ seen

/-- The invariant of the collector. A fragment that is being spliced is not covered yet, but
nothing inside it reaches it; all others that have been spliced are covered. -/
def Ready (scope : Scope) (object : String) (seen : List SelectedField) (spliced : List String)
    (selections : List Selection) : Prop :=
  ∀ name ∈ spliced, ∀ selection ∈ selections, scope.Reaches selection name →
    scope.Covered object seen name

/-- The collector adds the fields to the groups, less some that have been seen, and all fragments
that it splices are covered afterwards. -/
def AddsOnce (scope : Scope) (object : String) (seen fields : List SelectedField)
    (state : Splicing) (result : Except ExecutionFault Splicing) : Prop :=
  ∃ kept spliced, result = .ok ⟨spliced, addAll state.groups kept⟩ ∧ Condenses seen fields kept ∧
    ∀ name ∈ spliced, name ∈ state.spliced ∨ scope.Covered object (kept ++ seen) name

section

variable {seen more fields : List SelectedField} {state : Splicing} {selections : List Selection}

private theorem Covered.mono {name : String} (h : scope.Covered object seen name)
    (hsubset : seen ⊆ more) :
    scope.Covered object more name :=
  fun fragment inside hfragment hinside =>
    List.Subset.trans (h fragment inside hfragment hinside) hsubset

private theorem Ready.after {kept : List SelectedField} {spliced : List String}
    (h : scope.Ready object seen state.spliced selections)
    (hspliced : ∀ name ∈ spliced,
      name ∈ state.spliced ∨ scope.Covered object (kept ++ seen) name) :
    scope.Ready object (kept ++ seen) spliced selections := by
  intro name hname selection hmem hreaches
  rcases hspliced name hname with hold | hcovered
  · exact (h name hold selection hmem hreaches).mono (List.subset_append_right _ _)
  · exact hcovered

private theorem addsOnce_self : scope.AddsOnce object seen [] state (pure state) :=
  ⟨[], state.spliced, rfl, .nil, fun _ hname => .inl hname⟩

private theorem AddsOnce.bind {first : Except ExecutionFault Splicing} {next : OnceCollector}
    (h : scope.AddsOnce object seen fields state first)
    (hready : scope.Ready object seen state.spliced selections)
    (hnext : ∀ seen state, scope.Ready object seen state.spliced selections →
      scope.AddsOnce object seen more state (next state)) :
    scope.AddsOnce object seen (fields ++ more) state (first >>= next) := by
  obtain ⟨kept, spliced, rfl, hkept, hspliced⟩ := h
  obtain ⟨kept', spliced', hresult, hkept', hspliced'⟩ :=
    hnext (kept ++ seen) ⟨spliced, addAll state.groups kept⟩ (hready.after hspliced)
  have hmoved : kept ++ seen ⊆ kept ++ kept' ++ seen := by
    intro field hmem
    simp only [List.mem_append] at hmem ⊢
    tauto
  have hmoved' : kept' ++ (kept ++ seen) ⊆ kept ++ kept' ++ seen := by
    intro field hmem
    simp only [List.mem_append] at hmem ⊢
    tauto
  refine ⟨kept ++ kept', spliced', ?_, hkept.append hkept', fun name hname => ?_⟩
  · rw [FieldGroup.addAll_append]
    exact hresult
  · rcases hspliced' name hname with hname | hcovered
    · exact (hspliced name hname).imp id fun hcovered => hcovered.mono hmoved
    · exact .inr (hcovered.mono hmoved')

private theorem Ready.of_cons {selection : Selection} {spliced : List String}
    (h : scope.Ready object seen spliced (selection :: selections)) :
    scope.Ready object seen spliced [selection] ∧ scope.Ready object seen spliced selections := by
  constructor
  · intro name hname other hmem
    obtain rfl := List.mem_singleton.1 hmem
    exact h name hname other List.mem_cons_self
  · intro name hname other hmem
    exact h name hname other (List.mem_cons_of_mem _ hmem)

private theorem addsOnce_field {node : FieldNode} {kept : Bool}
    (hkeeps : scope.keeps .field node.directives = .ok kept)
    (splice : SpreadNode → OnceCollector) (selections : List Selection) :
    scope.AddsOnce object seen (if kept then [⟨node, selections⟩] else []) state
      (scope.onceSelection splice object (.field node selections) state) := by
  rw [onceSelection, hkeeps]
  cases kept with
  | false => exact addsOnce_self
  | true => exact ⟨[⟨node, selections⟩], state.spliced, rfl, .refl _ _, fun _ hname => .inl hname⟩

private theorem onceSelection_inline {splice : SpreadNode → OnceCollector} {node : InlineNode}
    {kept : Bool}
    (hkeeps : scope.keeps .inlineFragment node.directives = .ok kept) :
    scope.onceSelection splice object (.inline node selections) state =
      scope.onceSelections splice object
        (if kept && node.condition.all fun condition => scope.system.applies object condition.name
          then selections else []) state := by
  rw [onceSelection, hkeeps]
  cases kept with
  | false => rfl
  | true =>
    cases node.condition.all fun condition => scope.system.applies object condition.name <;> rfl

private theorem onceSpread_known {node : SpreadNode} {budget : Nat}
    (hname : node.name ∈ state.spliced) :
    scope.onceSpread object budget node state = pure state := by
  rw [onceSpread.eq_def, if_pos (List.contains_iff_mem.2 hname)]

private theorem onceSpread_new {node : SpreadNode} {fragment : Fragment} {kept : Bool}
    {budget : Nat}
    (hname : node.name ∉ state.spliced) (hfragment : scope.fragment? node.name = some fragment)
    (hdefinition : scope.keeps .fragmentDefinition fragment.directives = .ok kept) :
    scope.onceSpread object (budget + 1) node state =
      if kept && scope.system.applies object fragment.condition.name then
        scope.onceSelections (scope.onceSpread object budget) object fragment.selections
          { state with spliced := node.name :: state.spliced }
      else pure state := by
  rw [onceSpread, if_neg (mt List.contains_iff_mem.1 hname)]
  simp only [hfragment, hdefinition]
  rfl

private theorem addsOnce_new {node : SpreadNode} {fragment : Fragment} {budget : Nat}
    (hfragment : scope.fragment? node.name = some fragment)
    (hfields : scope.Flattens object fragment.selections fields)
    (h : scope.AddsOnce object seen fields { state with spliced := node.name :: state.spliced }
      (scope.onceSelections (scope.onceSpread object budget) object fragment.selections
        { state with spliced := node.name :: state.spliced })) :
    scope.AddsOnce object seen fields state
      (scope.onceSelections (scope.onceSpread object budget) object fragment.selections
        { state with spliced := node.name :: state.spliced }) := by
  obtain ⟨kept, spliced, hresult, hkept, hspliced⟩ := h
  refine ⟨kept, spliced, hresult, hkept, fun name hname => ?_⟩
  rcases hspliced name hname with hold | hcovered
  · rcases List.mem_cons.1 hold with rfl | hold
    · right
      intro found inside hfound hinside
      obtain rfl := Option.some.inj (hfound.symm.trans hfragment)
      rw [hfields.unique hinside]
      exact hkept.covers
    · exact .inl hold
  · exact .inr hcovered

/-- A spread adds the fields of its fragment once: those of a fragment that has been spliced before
have all been seen, those of a new one are what its selections add. -/
theorem addsOnce_spread {node : SpreadNode} {fragment : Fragment} {kept : Bool} {budget : Nat}
    (hfragment : scope.fragment? node.name = some fragment)
    (hdefinition : scope.keeps .fragmentDefinition fragment.directives = .ok kept)
    (hfields : scope.Flattens object
      (if kept && scope.system.applies object fragment.condition.name then fragment.selections
        else []) fields)
    (hready : scope.Ready object seen state.spliced [.spread node])
    (hnew : (kept && scope.system.applies object fragment.condition.name) = true →
      scope.AddsOnce object seen fields { state with spliced := node.name :: state.spliced }
        (scope.onceSelections (scope.onceSpread object budget) object fragment.selections
          { state with spliced := node.name :: state.spliced })) :
    scope.AddsOnce object seen fields state (scope.onceSpread object (budget + 1) node state) := by
  by_cases hname : node.name ∈ state.spliced
  · have hcovered := hready node.name hname _ List.mem_cons_self .spread
    have hseen : fields ⊆ seen := by
      split at hfields
      · exact hcovered fragment fields hfragment hfields
      · cases hfields
        exact List.nil_subset seen
    rw [onceSpread_known hname]
    exact ⟨[], state.spliced, rfl, .of_subset hseen, fun _ hold => .inl hold⟩
  · rw [onceSpread_new hname hfragment hdefinition]
    split at hfields
    · next happlies =>
      rw [if_pos happlies]
      exact addsOnce_new hfragment hfields (hnew happlies)
    · next happlies =>
      cases hfields
      rw [if_neg happlies]
      exact addsOnce_self

private theorem Opens.addsOnce {selection : Selection} {body : List Selection}
    (hopens : scope.Opens object selection body) (hfields : scope.Flattens object body fields)
    {budget : Nat} (hunfolds : scope.Unfolds budget selection)
    (hvalid : ∃ parent depth, scope.Valid parent depth selection)
    (hready : scope.Ready object seen state.spliced [selection])
    (hbody : ∀ budget state, (∀ inner ∈ body, scope.Unfolds budget inner) →
      scope.Ready object seen state.spliced body →
      scope.AddsOnce object seen fields state
        (scope.onceSelections (scope.onceSpread object budget) object body state)) :
    scope.AddsOnce object seen fields state
      (scope.onceSelection (scope.onceSpread object budget) object selection state) := by
  have hinside : scope.Ready object seen state.spliced body := by
    intro name hname inner hmem hreaches
    exact hready name hname selection List.mem_cons_self (hopens.reaches hmem hreaches)
  cases hopens with
  | @inline node selections kept hkeeps =>
    cases hunfolds with
    | inline hall =>
      rw [onceSelection_inline hkeeps]
      refine hbody budget state (fun inner hmem => ?_) hinside
      split at hmem
      · exact hall inner hmem
      · cases hmem
  | dropped hkeeps =>
    cases hfields
    rw [onceSelection, hkeeps]
    exact addsOnce_self
  | @spread node fragment kept hkeeps hfragment hdefinition =>
    cases hunfolds with
    | @spread less _ found hfound hall =>
      obtain rfl := Option.some.inj (hfound.symm.trans hfragment)
      rw [onceSelection, hkeeps]
      change scope.AddsOnce object seen fields state
        (scope.onceSpread object (less + 1) node state)
      refine addsOnce_spread hfragment hdefinition hfields hready fun happlies => ?_
      rw [if_pos happlies] at hbody hinside
      apply hbody less _ hall
      -- The fragment cannot be spread inside itself, so it may count as spliced there.
      intro other hother inner hmem hreaches
      rcases List.mem_cons.1 hother with rfl | hother
      · obtain ⟨parent, depth, hselection⟩ := hvalid
        exact absurd hreaches (hselection.not_reaches_self .spread hfragment hmem)
      · exact hinside other hother inner hmem hreaches

/-- Collection that splices fragments once adds the fields of the flattening, condensed. -/
theorem Flattens.addsOnce (h : scope.Flattens object selections fields) {budget : Nat}
    (hunfolds : ∀ selection ∈ selections, scope.Unfolds budget selection)
    (hvalid : ∀ selection ∈ selections, ∃ parent depth, scope.Valid parent depth selection)
    (hready : scope.Ready object seen state.spliced selections) :
    scope.AddsOnce object seen fields state
      (scope.onceSelections (scope.onceSpread object budget) object selections state) := by
  induction h generalizing budget seen state with
  | nil => exact addsOnce_self
  | @field node selections kept rest fields hkeeps _ ih =>
    rw [List.forall_mem_cons] at hunfolds hvalid
    have hrest := hready.of_cons.2
    have hadds := (addsOnce_field hkeeps (scope.onceSpread object budget) selections).bind
      hrest fun seen state hready => ih hunfolds.2 hvalid.2 hready
    cases kept with
    | true => exact hadds
    | false => exact hadds
  | @fragment selection body inside rest fields hopens hinside _ ihbody ihrest =>
    rw [List.forall_mem_cons] at hunfolds hvalid
    obtain ⟨hfirst, hrest⟩ := hready.of_cons
    have hbody : ∀ inner ∈ body, ∃ parent depth, scope.Valid parent depth inner :=
      fun inner hmem => hopens.valid hvalid.1 hmem
    have hadds := hopens.addsOnce hinside hunfolds.1 hvalid.1 hfirst
      fun budget state hunfolds hready => ihbody hunfolds hbody hready
    exact hadds.bind hrest fun seen state hready => ihrest hunfolds.2 hvalid.2 hready

end

theorem exists_flattens_of_condenses {before selections selections' : List Selection}
    (h : Condenses before selections selections') {seen fields : List SelectedField}
    (hbefore : ∀ selection ∈ before, ∀ inside,
      scope.Flattens object [selection] inside → inside ⊆ seen)
    (hfields : scope.Flattens object selections fields) :
    ∃ fields', scope.Flattens object selections' fields' ∧ Condenses seen fields fields' := by
  induction h generalizing seen fields with
  | nil => exact ⟨fields, hfields, .refl seen fields⟩
  | @keep before selection _ _ _ ih =>
    obtain ⟨inside, more, hinside, hmore, rfl⟩ := hfields.exists_cons
    have hbefore' : ∀ other ∈ selection :: before, ∀ others,
        scope.Flattens object [other] others → others ⊆ inside ++ seen := by
      intro other hmem others hothers
      rcases List.mem_cons.1 hmem with rfl | hmem
      · rw [hinside.unique hothers]
        exact List.subset_append_left inside seen
      · exact List.Subset.trans (hbefore other hmem others hothers)
          (List.subset_append_right inside seen)
    obtain ⟨more', hmore', hcondenses⟩ := ih hbefore' hmore
    exact ⟨inside ++ more', hinside.append hmore', (Condenses.refl _ _).append hcondenses⟩
  | drop hmem _ ih =>
    obtain ⟨inside, more, hinside, hmore, rfl⟩ := hfields.exists_cons
    obtain ⟨more', hmore', hcondenses⟩ := ih hbefore hmore
    have hdropped : Condenses seen inside [] := .of_subset (hbefore _ hmem inside hinside)
    exact ⟨more', hmore', hdropped.append hcondenses⟩

theorem exists_collectOnce {selections : List (List Selection)} {fields : List SelectedField}
    (hvalid : ∀ list ∈ selections, ∀ selection ∈ list,
      ∃ parent depth, scope.Valid parent depth selection)
    (h : scope.Flattens object selections.flatten fields) :
    ∃ kept, Condenses [] fields kept ∧
      scope.collectOnce object selections = .ok (addAll [] kept) := by
  have hall : ∀ selection ∈ selections.flatten,
      ∃ parent depth, scope.Valid parent depth selection := by
    intro selection hmem
    obtain ⟨list, hlist, hselection⟩ := List.mem_flatten.1 hmem
    exact hvalid list hlist selection hselection
  have hunfolds : ∀ selection ∈ selections.flatten,
      scope.Unfolds scope.fragments.length selection := by
    intro selection hmem
    obtain ⟨parent, depth, hselection⟩ := hall selection hmem
    exact hselection.unfolds
  have hready : scope.Ready object [] [] selections.flatten := nofun
  have hadds : scope.AddsOnce object [] fields ⟨[], []⟩ _ := h.addsOnce hunfolds hall hready
  obtain ⟨kept, spliced, hresult, hkept, -⟩ := hadds
  refine ⟨kept, hkept, ?_⟩
  rw [collectOnce_eq_onceSelections, hresult]
  rfl

end Scope

end GraphQuery
