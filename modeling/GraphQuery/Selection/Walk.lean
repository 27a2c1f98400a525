import GraphQuery.Selection.Scope

/-!
# The validation walk

Walks every selection that an operation reaches, kept or not, with its static parent type, and
returns how deep its fields nest. A fragment is walked once, since its depth does not depend on
where it is spread. The names of the fragments that are being walked tell a cycle.
-/

namespace GraphQuery

/-- A walk keeps the depths of the fragments that it has finished. -/
abbrev Walk := StateT (Keyed Nat) (Except ExecutionFault)

namespace Scope

/-- The type that a fragment is restricted to. Some object must be of it and of the parent. -/
def conditionType (scope : Scope) (parent : TypeDefinition) (condition : TypeCondition) :
    Except ExecutionFault TypeDefinition :=
  match scope.system.get? condition.name with
  | none => .error (.validation (.unknownType condition.name condition.position))
  | some type =>
    if scope.system.overlap parent.name type.name then .ok type
    else
      .error (.validation (.incompatibleFragment type.name parent.name condition.position))

/-- What a field's selections are checked against: nothing for a field without selections, else
the type inside the lists of the field's type. -/
def fieldType (scope : Scope) (parent : TypeDefinition) (node : FieldNode)
    (hasSelections : Bool) : Except ExecutionFault (Option TypeDefinition) :=
  if node.name == "__typename" then
    if hasSelections then
      .error (.validation (.leafSelections node.name "String!" node.position))
    else .ok none
  else
    match parent.field? node.name with
    | none => .error (.validation (.unknownField node.name parent.name node.position))
    | some definition =>
      match scope.system.innermost? definition.type with
      | none => .error (.validation (.unknownType definition.type.text node.position))
      | some type =>
        match type.isLeaf, hasSelections with
        | true, false => .ok none
        | true, true =>
          .error (.validation (.leafSelections node.name definition.type.text node.position))
        | false, false =>
          .error (.validation (.missingSelections node.name definition.type.text node.position))
        | false, true => .ok (some type)

mutual

/-- Walks a selection; `spread` walks the fragments that it uses. -/
def walkSelection (scope : Scope) (spread : TypeDefinition → SpreadNode → Walk Nat)
    (parent : TypeDefinition) : Selection → Walk Nat
  | .field node selections => do
    let _ ← scope.keeps .field node.directives
    match ← scope.fieldType parent node (!selections.isEmpty) with
    | none => pure 1
    | some type => do pure (1 + (← scope.walkSelections spread type selections))
  | .spread node => do
    let _ ← scope.keeps .fragmentSpread node.directives
    spread parent node
  | .inline node selections => do
    let _ ← scope.keeps .inlineFragment node.directives
    match node.condition with
    | none => scope.walkSelections spread parent selections
    | some condition => do
      scope.walkSelections spread (← scope.conditionType parent condition) selections

def walkSelections (scope : Scope) (spread : TypeDefinition → SpreadNode → Walk Nat)
    (parent : TypeDefinition) : List Selection → Walk Nat
  | [] => pure 0
  | selection :: rest => do
    let first ← scope.walkSelection spread parent selection
    let others ← scope.walkSelections spread parent rest
    pure (max first others)

end

/-- Walks the fragment of a spread inside the fragments `visiting`. Their names differ, so a
budget of one step for each fragment of the document is never used up. -/
def walkSpread (scope : Scope) (budget : Nat) (visiting : List String) (parent : TypeDefinition)
    (node : SpreadNode) : Walk Nat := do
  let cycle : ExecutionFault := .validation (.fragmentCycle node.name node.position)
  match scope.fragment? node.name with
  | none => throw (.validation (.unknownFragment node.name node.position))
  | some fragment =>
    let type ← scope.conditionType parent fragment.condition
    match (← get).get? node.name with
    | some depth => pure depth
    | none =>
      if visiting.contains node.name then throw cycle
      else
        let _ ← scope.keeps .fragmentDefinition fragment.directives
        match budget with
        | 0 => throw cycle
        | budget + 1 =>
          let depth ← scope.walkSelections (scope.walkSpread budget (node.name :: visiting)) type
            fragment.selections
          modify fun depths => depths.insert node.name depth
          pure depth

/-- The depth of the selections of an operation, one for a single field. -/
def depth (scope : Scope) (root : TypeDefinition) (selections : List Selection) :
    Except ExecutionFault Nat := do
  let walk := scope.walkSelections (scope.walkSpread scope.fragments.length []) root selections
  pure (← walk.run []).1

end Scope

end GraphQuery
