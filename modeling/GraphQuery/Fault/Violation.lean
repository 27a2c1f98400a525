import GraphQuery.Document
import GraphQuery.Document.Location

/-!
# Violations

What makes a request unacceptable before anything is executed, with the position in the document
at which it is reported.
-/

namespace GraphQuery

inductive Violation where
  | missingOperation
  | missingOperationName
  | unknownOperation (name : String)
  | unsupportedOperation (kind : OperationKind) (position : Position)
  | unknownFragment (name : String) (position : Position)
  | fragmentCycle (name : String) (position : Position)
  | incompatibleFragment (condition : String) (parent : String) (position : Position)
  | unknownType (name : String) (position : Position)
  | unknownField (name : String) (parent : String) (position : Position)
  | missingSelections (name : String) (type : String) (position : Position)
  | leafSelections (name : String) (type : String) (position : Position)
  | unknownDirective (name : String) (position : Position)
  | misplacedDirective (name : String) (location : DirectiveLocation) (position : Position)
  | invalidDirective (name : String) (message : String) (position : Position)
  | nonInputVariable (name : String) (type : String) (position : Position)
  | tooDeep (maxDepth : Nat) (position : Position)
  deriving DecidableEq, Repr

namespace Violation

def message : Violation → String
  | .missingOperation => "Must provide an operation."
  | .missingOperationName =>
    "Must provide operation name if query contains multiple operations."
  | .unknownOperation name => "Unknown operation named '" ++ name ++ "'."
  | .unsupportedOperation kind _ =>
    "Can only execute queries, found a " ++ kind.text ++ " operation."
  | .unknownFragment name _ => "Unknown fragment named '" ++ name ++ "'."
  | .fragmentCycle name _ => "Fragment '" ++ name ++ "' cannot spread itself."
  | .incompatibleFragment condition parent _ =>
    "Fragment cannot be spread here as objects of type '" ++ parent
      ++ "' can never be of type '" ++ condition ++ "'."
  | .unknownType name _ => "Unknown type '" ++ name ++ "'."
  | .unknownField name parent _ =>
    "Cannot query field '" ++ name ++ "' on type '" ++ parent ++ "'."
  | .missingSelections name type _ =>
    "Field '" ++ name ++ "' of type '" ++ type ++ "' must have a selection of subfields."
  | .leafSelections name type _ =>
    "Field '" ++ name ++ "' must not have a selection since type '" ++ type
      ++ "' has no subfields."
  | .unknownDirective name _ => "Unknown directive '@" ++ name ++ "'."
  | .misplacedDirective name location _ =>
    "Directive '@" ++ name ++ "' may not be used on " ++ location.text ++ "."
  | .invalidDirective name message _ =>
    "Invalid usage of directive '@" ++ name ++ "': " ++ message
  | .nonInputVariable name type _ =>
    "Variable $" ++ name ++ " cannot be of non-input type '" ++ type ++ "'."
  | .tooDeep maxDepth _ =>
    "Query is nested too deep, the maximum depth is " ++ toString maxDepth ++ "."

def position? : Violation → Option Position
  | .missingOperation => none
  | .missingOperationName => none
  | .unknownOperation _ => none
  | .unsupportedOperation _ position => some position
  | .unknownFragment _ position => some position
  | .fragmentCycle _ position => some position
  | .incompatibleFragment _ _ position => some position
  | .unknownType _ position => some position
  | .unknownField _ _ position => some position
  | .missingSelections _ _ position => some position
  | .leafSelections _ _ position => some position
  | .unknownDirective _ position => some position
  | .misplacedDirective _ _ position => some position
  | .invalidDirective _ _ position => some position
  | .nonInputVariable _ _ position => some position
  | .tooDeep _ position => some position

end Violation

end GraphQuery
