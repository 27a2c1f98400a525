import GraphQuery.Selection.Scope

/-!
# Collected fields

The fields that selections ask of one object, grouped by response key. Keys stand in the order in
which they first appear, and the fields of a key in document order; the first of them decides
what is executed, and all of them what is selected below.
-/

namespace GraphQuery

structure SelectedField where
  node : FieldNode
  selections : List Selection

structure FieldGroup where
  key : String
  first : SelectedField
  rest : List SelectedField

namespace FieldGroup

def fields (group : FieldGroup) : List SelectedField := group.first :: group.rest

/-- What all fields of the group select on their value. -/
def selections (group : FieldGroup) : List (List Selection) :=
  group.fields.map SelectedField.selections

/-- Adds a field to the group of its key, behind all groups if there is none. -/
def add (field : SelectedField) : List FieldGroup → List FieldGroup
  | [] => [⟨field.node.responseKey, field, []⟩]
  | group :: groups =>
    if group.key = field.node.responseKey then
      { group with rest := group.rest ++ [field] } :: groups
    else group :: add field groups

def under (key : String) : List FieldGroup → List SelectedField
  | [] => []
  | group :: groups => if group.key = key then group.fields else under key groups

theorem map_key_add (field : SelectedField) (groups : List FieldGroup) :
    (add field groups).map key =
      if field.node.responseKey ∈ groups.map key then groups.map key
      else groups.map key ++ [field.node.responseKey] := by
  induction groups with
  | nil => simp [add]
  | cons group groups ih => grind [add]

theorem under_add (key : String) (field : SelectedField) (groups : List FieldGroup) :
    under key (add field groups) =
      under key groups ++ if field.node.responseKey = key then [field] else [] := by
  induction groups with
  | nil => simp [add, under, fields]
  | cons group groups ih => grind [add, under, fields]

end FieldGroup

namespace Scope

abbrev Collector := List FieldGroup → Except ExecutionFault (List FieldGroup)

mutual

/-- Collects what a selection asks of an object; `splice` collects the fragments that it uses. -/
def collectSelection (scope : Scope) (splice : SpreadNode → Collector) (object : String) :
    Selection → Collector
  | .field node selections, groups => do
    if ← scope.keeps .field node.directives then pure (FieldGroup.add ⟨node, selections⟩ groups)
    else pure groups
  | .spread node, groups => do
    if ← scope.keeps .fragmentSpread node.directives then splice node groups else pure groups
  | .inline node selections, groups => do
    if ← scope.keeps .inlineFragment node.directives then
      if node.condition.all fun condition => scope.system.applies object condition.name then
        scope.collectSelections splice object selections groups
      else pure groups
    else pure groups

def collectSelections (scope : Scope) (splice : SpreadNode → Collector) (object : String) :
    List Selection → Collector
  | [], groups => pure groups
  | selection :: rest, groups => do
    let groups ← scope.collectSelection splice object selection groups
    scope.collectSelections splice object rest groups

end

/-- Collects the fragment of a spread. Fragments that are spread inside each other are different
ones, so a budget of one step for each fragment of the document is never used up. -/
def collectSpread (scope : Scope) (object : String) (budget : Nat) (node : SpreadNode) :
    Collector := fun groups => do
  match scope.fragment? node.name with
  | none => .error (.validation (.unknownFragment node.name node.position))
  | some fragment =>
    let kept ← scope.keeps .fragmentDefinition fragment.directives
    if kept && scope.system.applies object fragment.condition.name then
      match budget with
      | 0 => .error (.validation (.fragmentCycle node.name node.position))
      | budget + 1 =>
        scope.collectSelections (scope.collectSpread object budget) object fragment.selections
          groups
    else pure groups

def collect (scope : Scope) (object : String) (selections : List (List Selection)) :
    Except ExecutionFault (List FieldGroup) :=
  selections.foldlM
    (fun groups list =>
      scope.collectSelections (scope.collectSpread object scope.fragments.length) object list
        groups)
    []

end Scope

end GraphQuery
