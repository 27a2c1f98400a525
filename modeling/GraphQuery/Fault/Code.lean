/-!
# Error codes

The codes under which errors are reported. Two of them belong to whole requests, the others to
single fields.
-/

namespace GraphQuery

inductive ErrorCode where
  | operationValidationError
  | variableError
  | argumentError
  | resolverError
  | unsupportedConstruct
  deriving DecidableEq, Repr

namespace ErrorCode

def text : ErrorCode → String
  | .operationValidationError => "OPERATION_VALIDATION_ERROR"
  | .variableError => "VARIABLE_ERROR"
  | .argumentError => "ARGUMENT_ERROR"
  | .resolverError => "RESOLVER_ERROR"
  | .unsupportedConstruct => "UNSUPPORTED_CONSTRUCT"

/-- Whether an error of this code fails the whole request. -/
def isRequestError : ErrorCode → Bool
  | .operationValidationError => true
  | .variableError => true
  | _ => false

end ErrorCode

end GraphQuery
