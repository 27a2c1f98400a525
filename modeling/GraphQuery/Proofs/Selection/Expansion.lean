import GraphQuery.Proofs.Selection.Correspondence
import GraphQuery.Proofs.Selection.Memory
import GraphQuery.Proofs.Selection.Reached

/-!
# Expanded selections

Selections in which every spread of a fragment is replaced by an inline fragment with what the
fragment selects. Main statements: where fragments are defined and do not come back to themselves
there is an expansion, the walk of the expansion ends as the walk of the selections does, with the
same depth or the same fault, and it is flattened to the same fields, expanded.
-/

namespace GraphQuery

/-- The second selections are the first with all spreads replaced, also those below fields and
inside the fragments. The spreads and the definitions of their fragments have no directives. -/
inductive Expands (fragments : List Fragment) : List Selection → List Selection → Prop
  | nil : Expands fragments [] []
  | field {node selections selections' rest rest'}
      (hbelow : Expands fragments selections selections') (hrest : Expands fragments rest rest') :
      Expands fragments (.field node selections :: rest) (.field node selections' :: rest')
  | inline {node selections selections' rest rest'}
      (hinside : Expands fragments selections selections') (hrest : Expands fragments rest rest') :
      Expands fragments (.inline node selections :: rest) (.inline node selections' :: rest')
  | spread {node fragment body rest rest'} (hnode : node.directives = [])
      (hfragment : Fragment.find? fragments node.name = some fragment)
      (hdefinition : fragment.directives = []) (hbody : Expands fragments fragment.selections body)
      (hrest : Expands fragments rest rest') :
      Expands fragments (.spread node :: rest)
        (.inline ⟨node.position, some fragment.condition, []⟩ body :: rest')

/-- A field that selects the expansion of what another selects. -/
structure SelectedField.Expanded (fragments : List Fragment) (field field' : SelectedField) :
    Prop where
  node : field'.node = field.node
  selections : Expands fragments field.selections field'.selections

namespace Expands

variable {fragments : List Fragment} {selections selections' others others' : List Selection}

theorem append (h : Expands fragments selections selections')
    (hothers : Expands fragments others others') :
    Expands fragments (selections ++ others) (selections' ++ others') := by
  induction h with
  | nil => exact hothers
  | field hbelow _ _ ih => exact .field hbelow ih
  | inline hinside _ _ ih => exact .inline hinside ih
  | spread hnode hfragment hdefinition hbody _ _ ih =>
    exact .spread hnode hfragment hdefinition hbody ih

private theorem unique (h : Expands fragments selections selections')
    (h' : Expands fragments selections others) : others = selections' := by
  induction h generalizing others with
  | nil =>
    cases h'
    rfl
  | field _ _ ihbelow ihrest =>
    cases h' with
    | field hbelow' hrest' => rw [ihbelow hbelow', ihrest hrest']
  | inline _ _ ihinside ihrest =>
    cases h' with
    | inline hinside' hrest' => rw [ihinside hinside', ihrest hrest']
  | spread _ hfragment _ _ _ ihbody ihrest =>
    cases h' with
    | spread _ hfragment' _ hbody' hrest' =>
      obtain rfl := Option.some.inj (hfragment'.symm.trans hfragment)
      rw [ihbody hbody', ihrest hrest']

private theorem isEmpty_eq (h : Expands fragments selections selections') :
    selections'.isEmpty = selections.isEmpty := by
  cases h <;> rfl

private theorem exists_part {selection : Selection} (h : Expands fragments selections selections')
    (hmem : selection ∈ selections) :
    ∃ part, Expands fragments [selection] [part] ∧ sizeOf part < sizeOf selections' := by
  induction h with
  | nil => cases hmem
  | field hbelow _ _ ih =>
    rcases List.mem_cons.1 hmem with rfl | hmem
    · exact ⟨_, .field hbelow .nil, by simp; omega⟩
    · obtain ⟨part, hpart, hlt⟩ := ih hmem
      exact ⟨part, hpart, by simp; omega⟩
  | inline hinside _ _ ih =>
    rcases List.mem_cons.1 hmem with rfl | hmem
    · exact ⟨_, .inline hinside .nil, by simp; omega⟩
    · obtain ⟨part, hpart, hlt⟩ := ih hmem
      exact ⟨part, hpart, by simp; omega⟩
  | spread hnode hfragment hdefinition hbody _ _ ih =>
    rcases List.mem_cons.1 hmem with rfl | hmem
    · exact ⟨_, .spread hnode hfragment hdefinition hbody .nil, by simp; omega⟩
    · obtain ⟨part, hpart, hlt⟩ := ih hmem
      exact ⟨part, hpart, by simp; omega⟩

theorem unfolds {scope : Scope} (h : Expands fragments selections selections') (budget : Nat) :
    ∀ selection ∈ selections', scope.Unfolds budget selection := by
  induction h with
  | nil => exact List.forall_mem_nil _
  | field _ _ _ ih => exact List.forall_mem_cons.2 ⟨.field, ih⟩
  | inline _ _ ihinside ihrest => exact List.forall_mem_cons.2 ⟨.inline ihinside, ihrest⟩
  | spread _ _ _ _ _ ihbody ihrest => exact List.forall_mem_cons.2 ⟨.inline ihbody, ihrest⟩

end Expands

namespace Operation

/-- The operation with other selections. -/
def selecting (operation : Operation) (selections : List Selection) : Operation :=
  { operation with selections }

/-- The fragments that the operation reaches are defined and do not come back to themselves, and
neither their spreads nor their definitions have directives. -/
structure Expandable (operation : Operation) (fragments : List Fragment) : Prop where
  bare : ∀ node, operation.Reaches fragments (.spread node) → node.directives = []
  defined : ∀ node, operation.Reaches fragments (.spread node) →
    ∃ fragment, Fragment.find? fragments node.name = some fragment ∧ fragment.directives = []
  acyclic : ∀ node fragment inner, operation.Reaches fragments (.spread node) →
    Fragment.find? fragments node.name = some fragment →
    (operation.selecting fragment.selections).Reaches fragments (.spread inner) →
    inner.name ≠ node.name

variable {operation other : Operation} {fragments : List Fragment} {selections : List Selection}
  {visiting : List String}

private theorem Reaches.trans {selection : Selection}
    (h : (operation.selecting selections).Reaches fragments selection)
    (hall : ∀ selection ∈ selections, other.Reaches fragments selection) :
    other.Reaches fragments selection := by
  induction h with
  | here hmem => exact hall _ hmem
  | field _ hmem ih => exact .field ih hmem
  | inline _ hmem ih => exact .inline ih hmem
  | spread _ hfragment hmem ih => exact .spread ih hfragment hmem

/-- The selections reach none of the fragments `visiting`. -/
def Avoids (operation : Operation) (fragments : List Fragment) (visiting : List String)
    (selections : List Selection) : Prop :=
  ∀ name ∈ visiting, ∀ node,
    (operation.selecting selections).Reaches fragments (.spread node) → node.name ≠ name

private theorem Avoids.inside {inner : List Selection}
    (h : operation.Avoids fragments visiting selections)
    (hinner : ∀ selection ∈ inner, (operation.selecting selections).Reaches fragments selection) :
    operation.Avoids fragments visiting inner :=
  fun name hname node hreaches => h name hname node (hreaches.trans hinner)

mutual

private theorem exists_expands_selection
    (hspread : ∀ node, operation.Reaches fragments (.spread node) →
      operation.Avoids fragments visiting [.spread node] →
      ∃ expanded, Expands fragments [.spread node] expanded) :
    ∀ selection, operation.Reaches fragments selection →
      operation.Avoids fragments visiting [selection] →
      ∃ expanded, Expands fragments [selection] expanded
  | .field node selections, hreached, havoids => by
    obtain ⟨below, hbelow⟩ := exists_expands_selections hspread selections
      (fun _ hmem => hreached.field hmem)
      (havoids.inside fun _ hmem => .field (.here List.mem_cons_self) hmem)
    exact ⟨_, .field hbelow .nil⟩
  | .spread node, hreached, havoids => hspread node hreached havoids
  | .inline node selections, hreached, havoids => by
    obtain ⟨inside, hinside⟩ := exists_expands_selections hspread selections
      (fun _ hmem => hreached.inline hmem)
      (havoids.inside fun _ hmem => .inline (.here List.mem_cons_self) hmem)
    exact ⟨_, .inline hinside .nil⟩

private theorem exists_expands_selections
    (hspread : ∀ node, operation.Reaches fragments (.spread node) →
      operation.Avoids fragments visiting [.spread node] →
      ∃ expanded, Expands fragments [.spread node] expanded) :
    ∀ selections : List Selection,
      (∀ selection ∈ selections, operation.Reaches fragments selection) →
      operation.Avoids fragments visiting selections →
      ∃ expanded, Expands fragments selections expanded
  | [], _, _ => ⟨[], .nil⟩
  | selection :: rest, hreached, havoids => by
    rw [List.forall_mem_cons] at hreached
    have hfirst : operation.Avoids fragments visiting [selection] :=
      havoids.inside fun _ hmem => .here (List.mem_singleton.1 hmem ▸ List.mem_cons_self)
    have hrest : operation.Avoids fragments visiting rest :=
      havoids.inside fun _ hmem => .here (List.mem_cons_of_mem _ hmem)
    obtain ⟨first, hfirst⟩ := exists_expands_selection hspread selection hreached.1 hfirst
    obtain ⟨others, hothers⟩ := exists_expands_selections hspread rest hreached.2 hrest
    exact ⟨first ++ others, hfirst.append hothers⟩

end

private theorem Expandable.exists_expands_spread (h : operation.Expandable fragments) {budget : Nat}
    (hnodup : visiting.Nodup) (hknown : visiting ⊆ fragments.map Fragment.name)
    (hbudget : fragments.length ≤ visiting.length + budget) (node : SpreadNode)
    (hreached : operation.Reaches fragments (.spread node))
    (havoids : operation.Avoids fragments visiting [.spread node]) :
    ∃ expanded, Expands fragments [.spread node] expanded := by
  induction budget using Nat.strongRecOn generalizing visiting node with
  | ind budget ih =>
    obtain ⟨fragment, hfragment, hdefinition⟩ := h.defined node hreached
    have hhere : (operation.selecting [.spread node]).Reaches fragments (.spread node) :=
      .here List.mem_cons_self
    have hnew : node.name ∉ visiting := fun hmem => havoids node.name hmem node hhere rfl
    obtain ⟨hnodup', hknown', less, rfl, hless⟩ :=
      Scope.exists_less_of_new hnodup hknown hfragment hnew hbudget
    have hinside : operation.Avoids fragments (node.name :: visiting) fragment.selections := by
      intro name hname inner hinner
      rcases List.mem_cons.1 hname with rfl | hname
      · exact h.acyclic node fragment inner hreached hfragment hinner
      · exact havoids name hname inner (hinner.trans fun _ hmem => .spread hhere hfragment hmem)
    obtain ⟨body, hbody⟩ := exists_expands_selections
      (ih less (Nat.lt_succ_self less) hnodup' hknown' hless) fragment.selections
      (fun _ hmem => hreached.spread hfragment hmem) hinside
    exact ⟨_, .spread (h.bare node hreached) hfragment hdefinition hbody .nil⟩

theorem Expandable.exists_expands (h : operation.Expandable fragments) :
    ∃ expanded, Expands fragments operation.selections expanded := by
  refine exists_expands_selections ?_ operation.selections (fun _ hmem => .here hmem)
    (List.forall_mem_nil _)
  exact h.exists_expands_spread List.nodup_nil (List.nil_subset _) (Nat.le_add_left _ _)

private theorem Reaches.exists_expands {selection : Selection} {expanded : List Selection}
    (h : operation.Reaches fragments selection)
    (hexpands : Expands fragments operation.selections expanded) :
    ∃ part, Expands fragments [selection] [part] ∧ sizeOf part < sizeOf expanded := by
  induction h with
  | here hmem => exact hexpands.exists_part hmem
  | field _ hmem ih =>
    obtain ⟨part, hpart, hlt⟩ := ih
    cases hpart with
    | field hbelow _ =>
      obtain ⟨inner, hinner, hlt'⟩ := hbelow.exists_part hmem
      simp only [Selection.field.sizeOf_spec] at hlt
      exact ⟨inner, hinner, by omega⟩
  | inline _ hmem ih =>
    obtain ⟨part, hpart, hlt⟩ := ih
    cases hpart with
    | inline hinside _ =>
      obtain ⟨inner, hinner, hlt'⟩ := hinside.exists_part hmem
      simp only [Selection.inline.sizeOf_spec] at hlt
      exact ⟨inner, hinner, by omega⟩
  | spread _ hfragment hmem ih =>
    obtain ⟨part, hpart, hlt⟩ := ih
    cases hpart with
    | spread _ hfound _ hbody _ =>
      obtain rfl := Option.some.inj (hfound.symm.trans hfragment)
      obtain ⟨inner, hinner, hlt'⟩ := hbody.exists_part hmem
      simp only [Selection.inline.sizeOf_spec] at hlt
      exact ⟨inner, hinner, by omega⟩

theorem expandable_iff : operation.Expandable fragments ↔
    ∃ expanded, Expands fragments operation.selections expanded := by
  refine ⟨Expandable.exists_expands, fun ⟨expanded, hexpands⟩ => ⟨?_, ?_, ?_⟩⟩
  · intro node hreached
    obtain ⟨part, hpart, -⟩ := hreached.exists_expands hexpands
    cases hpart with
    | spread hnode => exact hnode
  · intro node hreached
    obtain ⟨part, hpart, -⟩ := hreached.exists_expands hexpands
    cases hpart with
    | spread _ hfragment hdefinition => exact ⟨_, hfragment, hdefinition⟩
  · intro node fragment inner hreached hfragment hinner heq
    obtain ⟨part, hpart, -⟩ := hreached.exists_expands hexpands
    cases hpart with
    | spread _ hfound _ hbody _ =>
      obtain rfl := Option.some.inj (hfound.symm.trans hfragment)
      obtain ⟨part, hpart, hlt⟩ := hinner.exists_expands hbody
      cases hpart with
      | spread _ hfound' _ hbody' _ =>
        -- The expansion of the fragment would be a part of itself.
        rw [heq] at hfound'
        obtain rfl := Option.some.inj (hfound'.symm.trans hfragment)
        obtain rfl := hbody.unique hbody'
        simp only [Selection.inline.sizeOf_spec] at hlt
        omega

end Operation

namespace Scope

variable {scope : Scope} {others : List Fragment} {spread' : TypeDefinition → SpreadNode → Walk Nat}

/-- The memory has the depths of fragments as the expansions of what they select have them. -/
def RemembersExpanded (scope : Scope) (others : List Fragment)
    (spread' : TypeDefinition → SpreadNode → Walk Nat) (depths : Keyed Nat) : Prop :=
  ∀ name depth, depths.get? name = some depth →
    ∃ fragment body, scope.fragment? name = some fragment ∧
      Expands scope.fragments fragment.selections body ∧
      ∀ type depths', scope.system.get? fragment.condition.name = some type →
        ((scope.withFragments others).walkSelections spread' type body).run depths' =
          .ok (depth, depths')

private theorem RemembersExpanded.insert {depths : Keyed Nat}
    (h : scope.RemembersExpanded others spread' depths) {name : String} {depth : Nat}
    {fragment : Fragment} {body : List Selection} (hfragment : scope.fragment? name = some fragment)
    (hbody : Expands scope.fragments fragment.selections body)
    (hwalk : ∀ type depths', scope.system.get? fragment.condition.name = some type →
      ((scope.withFragments others).walkSelections spread' type body).run depths' =
        .ok (depth, depths')) :
    scope.RemembersExpanded others spread' (depths.insert name depth) := by
  intro other found hfound
  rw [Keyed.get?_insert] at hfound
  split at hfound
  · next heq =>
    subst heq
    obtain rfl := Option.some.inj hfound
    exact ⟨fragment, body, hfragment, hbody, hwalk⟩
  · exact h other found hfound

/-- The fragments that are being walked, inside which the expanded selections stand. -/
def Around (scope : Scope) (visiting : List String) (expanded : List Selection) : Prop :=
  ∀ name ∈ visiting, ∃ fragment body, scope.fragment? name = some fragment ∧
    Expands scope.fragments fragment.selections body ∧ sizeOf expanded ≤ sizeOf body

private theorem Around.mono {visiting : List String} {expanded inner : List Selection}
    (h : scope.Around visiting expanded) (hle : sizeOf inner ≤ sizeOf expanded) :
    scope.Around visiting inner := by
  intro name hname
  obtain ⟨fragment, body, hfragment, hbody, hsize⟩ := h name hname
  exact ⟨fragment, body, hfragment, hbody, Nat.le_trans hle hsize⟩

private theorem Around.not_mem {visiting : List String} {expanded body : List Selection}
    {name : String}
    {fragment : Fragment} (h : scope.Around visiting expanded)
    (hfragment : scope.fragment? name = some fragment)
    (hbody : Expands scope.fragments fragment.selections body)
    (hlt : sizeOf body < sizeOf expanded) : name ∉ visiting := by
  intro hname
  obtain ⟨found, outer, hfound, houter, hle⟩ := h name hname
  obtain rfl := Option.some.inj (hfound.symm.trans hfragment)
  obtain rfl := hbody.unique houter
  exact absurd hlt (Nat.not_lt.2 hle)

private theorem mirrors_spread {node : SpreadNode} {fragment : Fragment} {body : List Selection}
    {budget : Nat} {visiting : List String} (hnode : node.directives = [])
    (hfragment : scope.fragment? node.name = some fragment) (hdefinition : fragment.directives = [])
    (hexpands : Expands scope.fragments fragment.selections body) (hnew : node.name ∉ visiting)
    (hbody : ∀ parent, Mirrors (scope.RemembersExpanded others spread')
      (scope.walkSelections (scope.walkSpread budget (node.name :: visiting)) parent
        fragment.selections)
      ((scope.withFragments others).walkSelections spread' parent body))
    (parent : TypeDefinition) :
    Mirrors (scope.RemembersExpanded others spread')
      (scope.walkSelection (scope.walkSpread (budget + 1) visiting) parent (.spread node))
      ((scope.withFragments others).walkSelection spread' parent
        (.inline ⟨node.position, some fragment.condition, []⟩ body)) := by
  have hkeeps (location : DirectiveLocation) : scope.keeps location [] = .ok true := rfl
  have hkeeps' : (scope.withFragments others).keeps .inlineFragment [] = .ok true := rfl
  have hinline : (scope.withFragments others).walkSelection spread' parent
      (.inline ⟨node.position, some fragment.condition, []⟩ body) =
        (liftM (scope.conditionType parent fragment.condition) >>= fun type =>
          (scope.withFragments others).walkSelections spread' type body) := by
    rw [walkSelection, hkeeps']
    rfl
  rw [walkSelection_spread (hnode ▸ hkeeps .fragmentSpread), hinline, walkSpread]
  simp only [hfragment]
  refine .check fun type htype => .recall fun depths hmemo => ?_
  cases hdepth : depths.get? node.name with
  | some depth =>
    obtain ⟨found, known, hfound, hknown, hwalk⟩ := hmemo node.name depth hdepth
    obtain rfl := Option.some.inj (hfound.symm.trans hfragment)
    obtain rfl := hexpands.unique hknown
    exact fun depths' => .of_eq_ok rfl (hwalk type depths' (conditionType_eq_ok_iff.1 htype).1)
      ⟨rfl, rfl, hmemo⟩
  | none =>
    suffices h : Mirrors (scope.RemembersExpanded others spread') _ _ from
      fun depths' => h depths depths' hmemo
    have hcontains : visiting.contains node.name = false := by simpa using hnew
    have hdirectives := hdefinition ▸ hkeeps .fragmentDefinition
    simp only [hcontains, Bool.false_eq_true, if_false, hdirectives]
    refine (hbody type).remember fun depths depth before _ hbefore _ hwalk => ?_
    refine hbefore.insert hfragment hexpands fun other memory hother => ?_
    obtain rfl := Option.some.inj ((conditionType_eq_ok_iff.1 htype).1.symm.trans hother)
    exact hwalk memory

/-- The walk of an expansion ends as that of the selections: with the same depth or fault. -/
theorem mirrors_of_expands {selections expanded : List Selection}
    (h : Expands scope.fragments selections expanded) {budget : Nat} {visiting : List String}
    (hnodup : visiting.Nodup) (hknown : visiting ⊆ scope.fragments.map Fragment.name)
    (hbudget : scope.fragments.length ≤ visiting.length + budget)
    (haround : scope.Around visiting expanded) (parent : TypeDefinition) :
    Mirrors (scope.RemembersExpanded others spread')
      (scope.walkSelections (scope.walkSpread budget visiting) parent selections)
      ((scope.withFragments others).walkSelections spread' parent expanded) := by
  induction h generalizing budget visiting parent with
  | nil => exact mirrors_pure 0
  | @field node selections selections' rest rest' hbelow _ ihbelow ihrest =>
    have hbelow' : scope.Around visiting selections' := haround.mono (by simp; omega)
    have hrest' : scope.Around visiting rest' := haround.mono (by simp)
    refine Mirrors.cons ?_ (ihrest hnodup hknown hbudget hrest' parent)
    rw [walkSelection, walkSelection, hbelow.isEmpty_eq]
    refine .check fun _ _ => .check fun found _ => ?_
    cases found with
    | none => exact mirrors_pure 1
    | some type =>
      exact (ihbelow hnodup hknown hbudget hbelow' type).bind fun depth => mirrors_pure _
  | @inline node selections selections' rest rest' hinside _ ihinside ihrest =>
    have hinside' : scope.Around visiting selections' := haround.mono (by simp; omega)
    have hrest' : scope.Around visiting rest' := haround.mono (by simp)
    refine Mirrors.cons ?_ (ihrest hnodup hknown hbudget hrest' parent)
    rw [walkSelection, walkSelection]
    refine .check fun _ _ => ?_
    cases node.condition with
    | none => exact ihinside hnodup hknown hbudget hinside' parent
    | some condition =>
      exact .check fun type _ => ihinside hnodup hknown hbudget hinside' type
  | @spread node fragment body rest rest' hnode hfragment hdefinition hbody _ ihbody ihrest =>
    have hrest' : scope.Around visiting rest' := haround.mono (by simp)
    have hnew : node.name ∉ visiting := haround.not_mem hfragment hbody (by simp; omega)
    obtain ⟨hnodup', hknown', less, rfl, hless⟩ :=
      exists_less_of_new hnodup hknown hfragment hnew hbudget
    have hbody' : scope.Around (node.name :: visiting) body := by
      intro name hname
      rcases List.mem_cons.1 hname with rfl | hname
      · exact ⟨fragment, body, hfragment, hbody, Nat.le_refl _⟩
      · exact haround.mono (by simp; omega) name hname
    refine Mirrors.cons ?_ (ihrest hnodup hknown hbudget hrest' parent)
    exact mirrors_spread hnode hfragment hdefinition hbody hnew
      (ihbody hnodup' hknown' hless hbody') parent

theorem depth_of_expands {selections expanded : List Selection}
    (h : Expands scope.fragments selections expanded) (others : List Fragment)
    (root : TypeDefinition) :
    (scope.withFragments others).depth root expanded = scope.depth root selections := by
  have hmemo : scope.RemembersExpanded others
      ((scope.withFragments others).walkSpread others.length []) [] := nofun
  have hmirrors := mirrors_of_expands h List.nodup_nil (List.nil_subset _)
    (Nat.le_add_left _ _) (List.forall_mem_nil _) root [] [] hmemo
  symm
  exact Related.eq (hmirrors.bind fun result result' hresult => .of_eq (hresult.1 ▸ rfl))

theorem flattensAs_of_expands {selections expanded : List Selection}
    (h : Expands scope.fragments selections expanded) (others : List Fragment) (object : String) :
    scope.FlattensAs (scope.withFragments others) object
      (SelectedField.Expanded scope.fragments) selections expanded := by
  induction h with
  | nil => exact flattensAs_nil
  | field hbelow _ _ ihrest =>
    refine .cons_cons (flattensAs_field fun kept hkeeps => ⟨hkeeps, fun _ => ?_⟩) ihrest
    exact ⟨rfl, hbelow⟩
  | inline _ _ ihinside ihrest =>
    refine .cons_cons (flattensAs_fragment nofun fun body hopens => ?_) ihrest
    cases hopens with
    | inline hkeeps => exact ⟨_, .inline hkeeps, ihinside.ite _⟩
  | spread hnode hfragment hdefinition _ _ ihbody ihrest =>
    refine .cons_cons (flattensAs_fragment nofun fun body hopens => ?_) ihrest
    have hkeeps (location : DirectiveLocation) : scope.keeps location [] = .ok true := rfl
    cases hopens with
    | dropped hkeeps' => cases hkeeps'.symm.trans (hnode ▸ hkeeps .fragmentSpread)
    | spread _ hfound hkeeps' =>
      obtain rfl := Option.some.inj (hfound.symm.trans hfragment)
      obtain rfl := Except.ok.inj (hkeeps'.symm.trans (hdefinition ▸ hkeeps .fragmentDefinition))
      exact ⟨_, .inline rfl, ihbody.ite _⟩

end Scope

end GraphQuery
