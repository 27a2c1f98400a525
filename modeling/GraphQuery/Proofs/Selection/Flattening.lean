import GraphQuery.Proofs.Selection.Collection

/-!
# Flattened selections

The fields that selections ask of an object, in document order and without groups or budgets: a
field stands for itself, and the use of a fragment stands for what is selected in the fragment.
Main statement: what is collected from valid selections is their flattening, grouped field by
field.
-/

namespace GraphQuery

namespace FieldGroup

/-- Adds fields one after the other. -/
def addAll (groups : List FieldGroup) (fields : List SelectedField) : List FieldGroup :=
  fields.foldl (fun groups field => add field groups) groups

@[simp] theorem addAll_nil (groups : List FieldGroup) : addAll groups [] = groups := rfl

@[simp] theorem addAll_cons (groups : List FieldGroup) (field : SelectedField)
    (fields : List SelectedField) :
    addAll groups (field :: fields) = addAll (add field groups) fields := rfl

theorem addAll_append (groups : List FieldGroup) (fields others : List SelectedField) :
    addAll groups (fields ++ others) = addAll (addAll groups fields) others :=
  List.foldl_append

theorem mem_members_addAll {field : SelectedField} {groups : List FieldGroup}
    {fields : List SelectedField} :
    field ∈ members (addAll groups fields) ↔ field ∈ members groups ∨ field ∈ fields := by
  induction fields generalizing groups with
  | nil => simp
  | cons first rest ih =>
    rw [addAll_cons, ih, mem_members_add, List.mem_cons]
    tauto

end FieldGroup

namespace Scope

open FieldGroup (addAll members)

variable {scope : Scope} {object : String}

/-- What is selected in place of a fragment that is used: the selections in it, or nothing if
directives drop it or its condition does not apply to the object. -/
inductive Opens (scope : Scope) (object : String) : Selection → List Selection → Prop
  | inline {node selections kept}
      (hkeeps : scope.keeps .inlineFragment node.directives = .ok kept) :
      Opens scope object (.inline node selections)
        (if kept && node.condition.all fun condition => scope.system.applies object condition.name
          then selections else [])
  | dropped {node} (hkeeps : scope.keeps .fragmentSpread node.directives = .ok false) :
      Opens scope object (.spread node) []
  | spread {node fragment kept} (hkeeps : scope.keeps .fragmentSpread node.directives = .ok true)
      (hfragment : scope.fragment? node.name = some fragment)
      (hdefinition : scope.keeps .fragmentDefinition fragment.directives = .ok kept) :
      Opens scope object (.spread node)
        (if kept && scope.system.applies object fragment.condition.name
          then fragment.selections else [])

/-- The fields that selections ask of an object, fragments opened. -/
inductive Flattens (scope : Scope) (object : String) :
    List Selection → List SelectedField → Prop
  | nil : Flattens scope object [] []
  | field {node selections kept rest fields}
      (hkeeps : scope.keeps .field node.directives = .ok kept)
      (hrest : Flattens scope object rest fields) :
      Flattens scope object (.field node selections :: rest)
        (if kept then ⟨node, selections⟩ :: fields else fields)
  | fragment {selection body inside rest fields} (hopens : scope.Opens object selection body)
      (hbody : Flattens scope object body inside) (hrest : Flattens scope object rest fields) :
      Flattens scope object (selection :: rest) (inside ++ fields)

theorem Flattens.append {selections others : List Selection} {fields more : List SelectedField}
    (h : scope.Flattens object selections fields) (hothers : scope.Flattens object others more) :
    scope.Flattens object (selections ++ others) (fields ++ more) := by
  induction h with
  | nil => exact hothers
  | @field node selections kept _ _ hkeeps _ ih =>
    cases kept with
    | true => exact .field hkeeps ih
    | false => exact .field hkeeps ih
  | fragment hopens hbody _ _ ih =>
    rw [List.cons_append, List.append_assoc]
    exact .fragment hopens hbody ih

private theorem Opens.unique {selection : Selection} {body body' : List Selection}
    (h : scope.Opens object selection body) (h' : scope.Opens object selection body') :
    body' = body := by
  cases h with
  | inline hkeeps =>
    cases h' with
    | inline hkeeps' => rw [Except.ok.inj (hkeeps'.symm.trans hkeeps)]
  | dropped hkeeps =>
    cases h' with
    | dropped => rfl
    | spread hkeeps' => cases hkeeps'.symm.trans hkeeps
  | spread hkeeps hfragment hdefinition =>
    cases h' with
    | dropped hkeeps' => cases hkeeps'.symm.trans hkeeps
    | spread _ hfragment' hdefinition' =>
      obtain rfl := Option.some.inj (hfragment'.symm.trans hfragment)
      rw [Except.ok.inj (hdefinition'.symm.trans hdefinition)]

theorem Flattens.unique {selections : List Selection} {fields others : List SelectedField}
    (h : scope.Flattens object selections fields) (h' : scope.Flattens object selections others) :
    others = fields := by
  induction h generalizing others with
  | nil =>
    cases h'
    rfl
  | field hkeeps _ ih =>
    cases h' with
    | field hkeeps' hrest' => rw [Except.ok.inj (hkeeps'.symm.trans hkeeps), ih hrest']
    | fragment hopens' => cases hopens'
  | fragment hopens _ _ ihbody ihrest =>
    cases h' with
    | field => cases hopens
    | fragment hopens' hbody' hrest' =>
      rw [hopens.unique hopens'] at hbody'
      rw [ihbody hbody', ihrest hrest']

theorem Flattens.exists_cons {selection : Selection} {rest : List Selection}
    {fields : List SelectedField} (h : scope.Flattens object (selection :: rest) fields) :
    ∃ inside more, scope.Flattens object [selection] inside ∧ scope.Flattens object rest more ∧
      fields = inside ++ more := by
  cases h with
  | @field _ _ kept _ fields hkeeps hrest =>
    refine ⟨_, fields, .field hkeeps .nil, hrest, ?_⟩
    cases kept <;> rfl
  | @fragment _ _ inside _ fields hopens hbody hrest =>
    refine ⟨inside ++ [], fields, .fragment hopens hbody .nil, hrest, ?_⟩
    rw [List.append_nil]

theorem exists_flattens_of_forall {selections : List Selection}
    (h : ∀ selection ∈ selections, ∃ fields, scope.Flattens object [selection] fields) :
    ∃ fields, scope.Flattens object selections fields := by
  induction selections with
  | nil => exact ⟨[], .nil⟩
  | cons selection rest ih =>
    rw [List.forall_mem_cons] at h
    obtain ⟨fields, hfields⟩ := h.1
    obtain ⟨more, hmore⟩ := ih h.2
    exact ⟨fields ++ more, hfields.append hmore⟩

private theorem exists_flattens_of_opens {selection : Selection} {body : List Selection}
    (hopens : scope.Opens object selection body)
    (h : ∃ inside, scope.Flattens object body inside) :
    ∃ fields, scope.Flattens object [selection] fields := by
  obtain ⟨inside, hinside⟩ := h
  exact ⟨inside ++ [], .fragment hopens hinside .nil⟩

private theorem exists_flattens_if {selections : List Selection} (condition : Bool)
    (h : ∃ fields, scope.Flattens object selections fields) :
    ∃ fields, scope.Flattens object (if condition then selections else []) fields := by
  cases condition with
  | true => exact h
  | false => exact ⟨[], .nil⟩

theorem Valid.exists_flattens {parent : TypeDefinition} {depth : Nat} {selection : Selection}
    (h : scope.Valid parent depth selection) (object : String) :
    ∃ fields, scope.Flattens object [selection] fields := by
  induction h with
  | typename hkeeps | leaf hkeeps | composite hkeeps => exact ⟨_, .field hkeeps .nil⟩
  | inline hkeeps _ _ ih | inlineOn hkeeps _ _ _ _ ih =>
    exact exists_flattens_of_opens (.inline hkeeps)
      (exists_flattens_if _ (exists_flattens_of_forall ih))
  | @spread _ _ node kept _ _ _ hkeeps hfragment _ _ hdefinition _ ih =>
    cases kept with
    | false => exact exists_flattens_of_opens (.dropped hkeeps) ⟨[], .nil⟩
    | true =>
      exact exists_flattens_of_opens (.spread hkeeps hfragment hdefinition)
        (exists_flattens_if _ (exists_flattens_of_forall ih))

private theorem collectSelections_append (splice : SpreadNode → Collector)
    (selections others : List Selection) (groups : List FieldGroup) :
    scope.collectSelections splice object (selections ++ others) groups =
      scope.collectSelections splice object selections groups >>=
        scope.collectSelections splice object others := by
  induction selections generalizing groups with
  | nil => rfl
  | cons selection rest ih =>
    simp only [List.cons_append, collectSelections, bind_assoc, ih]

theorem collect_eq_collectSelections (selections : List (List Selection)) :
    scope.collect object selections =
      scope.collectSelections (scope.collectSpread object scope.fragments.length) object
        selections.flatten [] := by
  unfold collect
  generalize [] = start
  induction selections generalizing start with
  | nil => rfl
  | cons list rest ih =>
    rw [List.foldlM_cons, List.flatten_cons, collectSelections_append]
    exact bind_congr fun groups => ih groups

section

variable {splice : SpreadNode → Collector} {groups : List FieldGroup} {kept : Bool}

private theorem collectSelection_field {node : FieldNode} {selections : List Selection}
    (hkeeps : scope.keeps .field node.directives = .ok kept) :
    scope.collectSelection splice object (.field node selections) groups =
      .ok (if kept then FieldGroup.add ⟨node, selections⟩ groups else groups) := by
  rw [collectSelection, hkeeps]
  cases kept <;> rfl

theorem collectSelection_inline {node : InlineNode} {selections : List Selection}
    (hkeeps : scope.keeps .inlineFragment node.directives = .ok kept) :
    scope.collectSelection splice object (.inline node selections) groups =
      scope.collectSelections splice object
        (if kept && node.condition.all fun condition => scope.system.applies object condition.name
          then selections else []) groups := by
  rw [collectSelection, hkeeps]
  cases kept with
  | false => rfl
  | true =>
    cases node.condition.all fun condition => scope.system.applies object condition.name <;> rfl

private theorem collectSelection_dropped {node : SpreadNode}
    (hkeeps : scope.keeps .fragmentSpread node.directives = .ok false) :
    scope.collectSelection splice object (.spread node) groups = .ok groups := by
  rw [collectSelection, hkeeps]
  rfl

theorem collectSelection_spread {node : SpreadNode} {fragment : Fragment} {budget : Nat}
    (hkeeps : scope.keeps .fragmentSpread node.directives = .ok true)
    (hfragment : scope.fragment? node.name = some fragment)
    (hdefinition : scope.keeps .fragmentDefinition fragment.directives = .ok kept) :
    scope.collectSelection (scope.collectSpread object (budget + 1)) object (.spread node) groups =
      scope.collectSelections (scope.collectSpread object budget) object
        (if kept && scope.system.applies object fragment.condition.name
          then fragment.selections else []) groups := by
  rw [collectSelection, hkeeps]
  have hspread : scope.collectSpread object (budget + 1) node groups =
      scope.collectSelections (scope.collectSpread object budget) object
        (if kept && scope.system.applies object fragment.condition.name
          then fragment.selections else []) groups := by
    rw [collectSpread]
    simp only [hfragment, hdefinition]
    cases kept with
    | false => rfl
    | true => cases scope.system.applies object fragment.condition.name <;> rfl
  exact hspread

end

private theorem Unfolds.opens {budget : Nat} {selection : Selection} {body : List Selection}
    (h : scope.Unfolds budget selection) (hopens : scope.Opens object selection body)
    (groups : List FieldGroup) :
    ∃ less, (∀ inner ∈ body, scope.Unfolds less inner) ∧
      scope.collectSelection (scope.collectSpread object budget) object selection groups =
        scope.collectSelections (scope.collectSpread object less) object body groups := by
  cases hopens with
  | inline hkeeps =>
    cases h with
    | inline hall =>
      refine ⟨budget, fun inner hmem => ?_, collectSelection_inline hkeeps⟩
      split at hmem
      · exact hall inner hmem
      · cases hmem
  | dropped hkeeps => exact ⟨0, by simp, collectSelection_dropped hkeeps⟩
  | spread hkeeps hfragment hdefinition =>
    cases h with
    | @spread less _ found hfound hall =>
      obtain rfl := Option.some.inj (hfound.symm.trans hfragment)
      refine ⟨less, fun inner hmem => ?_, collectSelection_spread hkeeps hfragment hdefinition⟩
      split at hmem
      · exact hall inner hmem
      · cases hmem

/-- Collection adds the fields of the flattening. -/
theorem Flattens.collectSelections_eq {selections : List Selection} {fields : List SelectedField}
    (h : scope.Flattens object selections fields) {budget : Nat}
    (hunfolds : ∀ selection ∈ selections, scope.Unfolds budget selection)
    (groups : List FieldGroup) :
    scope.collectSelections (scope.collectSpread object budget) object selections groups =
      .ok (addAll groups fields) := by
  induction h generalizing budget groups with
  | nil => rfl
  | @field node selections kept rest fields hkeeps _ ih =>
    rw [List.forall_mem_cons] at hunfolds
    rw [collectSelections, collectSelection_field hkeeps]
    have hrest := ih hunfolds.2
    cases kept with
    | true => exact hrest _
    | false => exact hrest _
  | @fragment selection body inside rest fields hopens _ _ ihbody ihrest =>
    rw [List.forall_mem_cons] at hunfolds
    obtain ⟨less, hless, hselection⟩ := hunfolds.1.opens hopens groups
    have hrest := ihrest hunfolds.2 (addAll groups inside)
    rw [collectSelections, hselection, ihbody hless groups, FieldGroup.addAll_append, ← hrest]
    rfl

/-- What is collected from valid selections is their flattening, grouped. -/
theorem collect_eq_of_flattens {selections : List (List Selection)} {fields : List SelectedField}
    (hvalid : ∀ list ∈ selections, ∀ selection ∈ list,
      ∃ parent depth, scope.Valid parent depth selection)
    (h : scope.Flattens object selections.flatten fields) :
    scope.collect object selections = .ok (addAll [] fields) := by
  rw [collect_eq_collectSelections]
  refine h.collectSelections_eq (fun selection hmem => ?_) []
  obtain ⟨list, hlist, hselection⟩ := List.mem_flatten.1 hmem
  obtain ⟨parent, depth, hvalid⟩ := hvalid list hlist selection hselection
  exact hvalid.unfolds

theorem exists_flattens {selections : List (List Selection)}
    (hvalid : ∀ list ∈ selections, ∀ selection ∈ list,
      ∃ parent depth, scope.Valid parent depth selection) (object : String) :
    ∃ fields, scope.Flattens object selections.flatten fields := by
  refine exists_flattens_of_forall fun selection hmem => ?_
  obtain ⟨list, hlist, hselection⟩ := List.mem_flatten.1 hmem
  obtain ⟨parent, depth, hvalid⟩ := hvalid list hlist selection hselection
  exact hvalid.exists_flattens object

end Scope

end GraphQuery
