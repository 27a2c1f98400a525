import GraphQuery.Fault.Violation
import GraphQuery.Variables

/-!
# Requests

A document with the name of the operation to execute, the variables and the value at which the
root fields start.
-/

namespace GraphQuery

structure Request where
  document : Document
  operationName : Option String
  inputs : Variables
  root : Json

namespace Operations

def select (operations : Operations) (name : Option String) : Except Violation Operation :=
  match operations, name with
  | .single operation, none => .ok operation
  | .single _, some name => .error (.unknownOperation name)
  | .named operations, some name =>
    match operations.get? name with
    | some operation => .ok operation
    | none => .error (.unknownOperation name)
  | .named [], none => .error .missingOperation
  | .named [(_, operation)], none => .ok operation
  | .named _, none => .error .missingOperationName

end Operations

end GraphQuery
