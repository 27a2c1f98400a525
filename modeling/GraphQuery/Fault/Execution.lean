import GraphQuery.Fault.Code
import GraphQuery.Fault.Input
import GraphQuery.Fault.Violation

/-!
# Execution faults

Everything that can go wrong with a request. Violations and variable faults are fatal, so no data
is produced; the others are caught at the field that raised them.
-/

namespace GraphQuery

structure ResolverFault where
  message : String
  deriving DecidableEq, Repr

/-- Terms that have no value. -/
inductive UnsupportedTerm where
  | objectValue
  | otherValue
  deriving DecidableEq, Repr

def UnsupportedTerm.text : UnsupportedTerm → String
  | .objectValue => "Object values"
  | .otherValue => "Values of this kind"

inductive ExecutionFault where
  | validation (violation : Violation)
  | variable (name : String) (position : Position) (source : InputFault)
  | coercion (source : InputFault)
  | resolver (source : ResolverFault)
  | unsupported (term : UnsupportedTerm) (position : Option Position)
  deriving DecidableEq, Repr

namespace ExecutionFault

def message : ExecutionFault → String
  | .validation violation => violation.message
  | .variable name _ source =>
    "Variable $" ++ name ++ " got an invalid value: " ++ source.message
  | .coercion source => source.message
  | .resolver source => source.message
  | .unsupported term _ => term.text ++ " are not supported by this executor."

def code : ExecutionFault → ErrorCode
  | .validation _ => .operationValidationError
  | .variable .. => .variableError
  | .coercion _ => .argumentError
  | .resolver _ => .resolverError
  | .unsupported .. => .unsupportedConstruct

/-- Whether the fault ends the whole request rather than a single field. -/
def isFatal (fault : ExecutionFault) : Bool := fault.code.isRequestError

def position? : ExecutionFault → Option Position
  | .validation violation => violation.position?
  | .variable _ position _ => some position
  | .unsupported _ position => position
  | .coercion _ => none
  | .resolver _ => none

end ExecutionFault

end GraphQuery
