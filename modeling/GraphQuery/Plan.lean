import GraphQuery.Binding.Variables
import GraphQuery.Request
import GraphQuery.Selection.Collected
import GraphQuery.Selection.Walk
import GraphQuery.Settings

/-!
# Plans

A plan is a request that has been accepted: its operation is selected, its variables are coerced
and its selections are checked. Nothing has been executed yet.
-/

namespace GraphQuery

structure Plan extends Scope where
  delays : Delays
  settings : Settings
  operation : Operation
  rootType : ObjectType
  root : Json
  /-- How deep the fields of the operation nest. -/
  depth : Nat

namespace Plan

/-- Only queries are executed. -/
def rootTypeOf (system : TypeSystem) (operation : Operation) : Except Violation ObjectType :=
  match operation.kind with
  | .query =>
    match system.query? with
    | some type => .ok type
    | none => .error (.unknownType system.queryType operation.position)
  | kind => .error (.unsupportedOperation kind operation.position)

def checkDepth (settings : Settings) (operation : Operation) (depth : Nat) :
    Except Violation Unit :=
  match settings.maxDepth with
  | none => .ok ()
  | some maxDepth =>
    if maxDepth < depth then .error (.tooDeep maxDepth operation.position) else .ok ()

/-- Walks the operation from its root and returns how deep it is. -/
def walk (scope : Scope) (settings : Settings) (operation : Operation) :
    Except ExecutionFault Nat := do
  let root ← (rootTypeOf scope.system operation).mapError .validation
  match scope.system.get? root.name with
  | none => pure 0
  | some type =>
    let depth ← scope.depth type operation.selections
    (checkDepth settings operation depth).mapError .validation
    pure depth

def ofRequest (schema : ExecutableSchema) (settings : Settings) (request : Request) :
    Except ExecutionFault Plan := do
  let operation ←
    (request.document.operations.select request.operationName).mapError .validation
  let rootType ← (rootTypeOf schema.toTypeSystem operation).mapError .validation
  let values ← request.inputs.coerce schema.toSchema operation.definitions
  let scope : Scope :=
    { schema := schema.toSchema, values, fragments := request.document.fragments }
  let _ ← scope.bindDirectives .query operation.directives
  operation.definitions.forM fun definition => do
    let _ ← scope.bindDirectives .variableDefinition definition.directives
  let depth ← walk scope settings operation
  pure
    { toScope := scope
      delays := schema.delays
      settings
      operation
      rootType
      root := request.root
      depth }

end Plan

end GraphQuery
