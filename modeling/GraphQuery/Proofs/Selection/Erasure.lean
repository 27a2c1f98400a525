import GraphQuery.Proofs.Binding.Inclusion
import GraphQuery.Proofs.Selection.Correspondence

/-!
# Erased directives

Selections without what their directives exclude, and without the directives that do not wrap a
producer. Main statement: the fields that are left are the fields that selections ask of an object,
in the same order.
-/

namespace GraphQuery

namespace Scope

variable {scope : Scope} {object : String}

/-- Directives exclude the spread or the definition of its fragment. -/
def excludesSpread (scope : Scope) (node : SpreadNode) : Bool :=
  node.directives.any (scope.excludes .fragmentSpread) ||
    (scope.fragment? node.name).any fun fragment =>
      fragment.directives.any (scope.excludes .fragmentDefinition)

mutual

/-- What is left of a selection: nothing if it is excluded. -/
def eraseSelection (scope : Scope) : Selection → List Selection
  | .field node selections =>
    if node.directives.any (scope.excludes .field) then []
    else
      [.field { node with directives := node.directives.filter scope.wraps }
        (scope.eraseSelections selections)]
  | .spread node =>
    if scope.excludesSpread node then []
    else [.spread { node with directives := node.directives.filter scope.wraps }]
  | .inline node selections =>
    if node.directives.any (scope.excludes .inlineFragment) then []
    else
      [.inline { node with directives := node.directives.filter scope.wraps }
        (scope.eraseSelections selections)]

/-- What directives leave of selections, at any depth. -/
def eraseSelections (scope : Scope) : List Selection → List Selection
  | [] => []
  | selection :: rest => scope.eraseSelection selection ++ scope.eraseSelections rest

end

def eraseFragment (scope : Scope) (fragment : Fragment) : Fragment :=
  { fragment with
    directives := fragment.directives.filter scope.wraps
    selections := scope.eraseSelections fragment.selections }

/-- The scope of a document whose fragments are erased. -/
def erased (scope : Scope) : Scope :=
  { scope with fragments := scope.fragments.map scope.eraseFragment }

@[simp] theorem toBindings_erased (scope : Scope) : scope.erased.toBindings = scope.toBindings :=
  rfl

private theorem fragment?_erased (scope : Scope) (name : String) :
    scope.erased.fragment? name = (scope.fragment? name).map scope.eraseFragment := by
  unfold fragment? Fragment.find? erased
  rw [List.find?_map]
  rfl

private theorem eraseSelections_eq_flatMap (scope : Scope) (selections : List Selection) :
    scope.eraseSelections selections = selections.flatMap scope.eraseSelection := by
  induction selections with
  | nil => rfl
  | cons selection rest ih => rw [eraseSelections, List.flatMap_cons, ih]

private theorem eraseSelections_append (scope : Scope) (selections others : List Selection) :
    scope.eraseSelections (selections ++ others) =
      scope.eraseSelections selections ++ scope.eraseSelections others := by
  simp only [eraseSelections_eq_flatMap, List.flatMap_append]

private theorem eraseSelections_ite (scope : Scope) (condition : Bool)
    (selections : List Selection) :
    scope.eraseSelections (if condition then selections else []) =
      if condition then scope.eraseSelections selections else [] := by
  cases condition <;> rfl

/-- The field is kept, and the other one is what is left of it. -/
structure ErasesTo (scope : Scope) (field field' : SelectedField) : Prop where
  keeps : scope.keeps .field field.node.directives = .ok true
  node : field'.node =
    { field.node with directives := field.node.directives.filter scope.wraps }
  selections : field'.selections = scope.eraseSelections field.selections

theorem flatten_erased {fields fields' : List SelectedField}
    (h : List.Forall₂ scope.ErasesTo fields fields') :
    (fields'.map SelectedField.selections).flatten =
      scope.eraseSelections (fields.map SelectedField.selections).flatten := by
  induction h with
  | nil => rfl
  | cons hfield _ ih =>
    simp only [List.map_cons, List.flatten_cons, eraseSelections_append, hfield.selections, ih]

private theorem any_excludes {location : DirectiveLocation} {uses : List DirectiveUse} {kept : Bool}
    (h : scope.keeps location uses = .ok kept) : uses.any (scope.excludes location) = !kept := by
  rw [Bindings.keeps_eq_not_any h, Bool.not_not]

private theorem Opens.erased {selection : Selection} {body : List Selection}
    (h : scope.Opens object selection body) :
    (scope.eraseSelection selection = [] ∧ body = []) ∨
      ∃ left, scope.eraseSelection selection = [left] ∧
        scope.erased.Opens object left (scope.eraseSelections body) := by
  cases h with
  | @inline node selections kept hkeeps =>
    have hexcludes := any_excludes hkeeps
    cases kept with
    | false => exact .inl ⟨by rw [eraseSelection, hexcludes]; rfl, rfl⟩
    | true =>
      have hkeeps' : scope.erased.keeps .inlineFragment (node.directives.filter scope.wraps) =
          .ok true := Bindings.keeps_filter hkeeps scope.wraps
      have hleft : scope.eraseSelection (.inline node selections) =
          [.inline ⟨node.position, node.condition, node.directives.filter scope.wraps⟩
            (scope.eraseSelections selections)] := by
        rw [eraseSelection, hexcludes]
        rfl
      refine .inr ⟨_, hleft, ?_⟩
      rw [eraseSelections_ite]
      exact .inline hkeeps'
  | @dropped node hkeeps =>
    have hexcludes : scope.excludesSpread node = true := by
      rw [excludesSpread, any_excludes hkeeps]
      rfl
    exact .inl ⟨by rw [eraseSelection, hexcludes]; rfl, rfl⟩
  | @spread node fragment kept hkeeps hfragment hdefinition =>
    have hexcludes : scope.excludesSpread node = !kept := by
      rw [excludesSpread, any_excludes hkeeps, hfragment, Option.any_some, any_excludes hdefinition]
      rfl
    cases kept with
    | false => exact .inl ⟨by rw [eraseSelection, hexcludes]; rfl, rfl⟩
    | true =>
      obtain ⟨left, hname, huses, hleft⟩ : ∃ left : SpreadNode, left.name = node.name ∧
          left.directives = node.directives.filter scope.wraps ∧
          scope.eraseSelection (.spread node) = [.spread left] :=
        ⟨{ node with directives := node.directives.filter scope.wraps }, rfl, rfl,
          by rw [eraseSelection, hexcludes]; rfl⟩
      have hkeeps' : scope.erased.keeps .fragmentSpread left.directives = .ok true :=
        huses ▸ Bindings.keeps_filter hkeeps scope.wraps
      have hfragment' : scope.erased.fragment? left.name = some (scope.eraseFragment fragment) := by
        rw [fragment?_erased, hname, hfragment]
        rfl
      have hdefinition' : scope.erased.keeps .fragmentDefinition
          (scope.eraseFragment fragment).directives = .ok true :=
        Bindings.keeps_filter hdefinition scope.wraps
      refine .inr ⟨_, hleft, ?_⟩
      rw [eraseSelections_ite]
      exact .spread hkeeps' hfragment' hdefinition'

/-- The fields that are left are those that the selections ask of an object. -/
theorem flattensAs_erased (scope : Scope) (object : String) (selections : List Selection) :
    scope.FlattensAs scope.erased object scope.ErasesTo selections
      (scope.eraseSelections selections) := by
  intro fields h
  induction h with
  | nil => exact ⟨[], .nil, .nil⟩
  | @field node selections kept rest fields hkeeps _ ih =>
    obtain ⟨fields', hfields', hrelated⟩ := ih
    have hexcludes := any_excludes hkeeps
    rw [eraseSelections, eraseSelection, hexcludes]
    cases kept with
    | false => exact ⟨fields', hfields', hrelated⟩
    | true =>
      have hkeeps' : scope.erased.keeps .field (node.directives.filter scope.wraps) = .ok true :=
        Bindings.keeps_filter hkeeps scope.wraps
      exact ⟨_, .field hkeeps' hfields', .cons ⟨hkeeps, rfl, rfl⟩ hrelated⟩
  | fragment hopens hbody _ ihbody ihrest =>
    obtain ⟨inside', hinside', hrelated⟩ := ihbody
    obtain ⟨fields', hfields', hrelated'⟩ := ihrest
    rw [eraseSelections]
    rcases hopens.erased with ⟨hnone, rfl⟩ | ⟨left, hleft, hopens'⟩
    · cases hbody
      rw [hnone]
      exact ⟨fields', hfields', hrelated'⟩
    · rw [hleft]
      exact ⟨_, .fragment hopens' hinside' hfields', List.rel_append hrelated hrelated'⟩

end Scope

/-- The operation without what directives exclude and without those that wrap no producer. -/
def Operation.erased (operation : Operation) (scope : Scope) : Operation :=
  { operation with
    definitions := operation.definitions.map fun definition =>
      { definition with directives := definition.directives.filter scope.wraps }
    directives := operation.directives.filter scope.wraps
    selections := scope.eraseSelections operation.selections }

end GraphQuery
