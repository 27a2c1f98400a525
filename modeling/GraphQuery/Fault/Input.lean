import GraphQuery.Value

/-!
# Input faults

Why a value could not be read as an argument or a variable. A fault inside nested lists carries
the indices that lead to the offending value, the outermost first.
-/

namespace GraphQuery

inductive InputFault where
  | unexpectedNull (expected : String) (path : List Nat)
  | wrongScalarKind (actual : ValueKind) (expected : String) (path : List Nat)
  | wrongScalarValue (actual : String) (expected : String) (path : List Nat)
  | wrongEnumKind (enum : String) (actual : ValueKind) (path : List Nat)
  | unknownEnumValue (enum : String) (value : String) (path : List Nat)
  | unknownInputType (name : String) (path : List Nat)
  | unknownVariable (name : String)
  | missingArgument (name : String) (expected : String)
  | unknownArgument (name : String)
  | invalidArgument (name : String) (source : InputFault)
  deriving DecidableEq, Repr

namespace InputFault

/-- The fault of a list whose item `index` has the fault. -/
def atIndex (index : Nat) : InputFault → InputFault
  | .unexpectedNull expected path => .unexpectedNull expected (index :: path)
  | .wrongScalarKind actual expected path => .wrongScalarKind actual expected (index :: path)
  | .wrongScalarValue actual expected path => .wrongScalarValue actual expected (index :: path)
  | .wrongEnumKind enum actual path => .wrongEnumKind enum actual (index :: path)
  | .unknownEnumValue enum value path => .unknownEnumValue enum value (index :: path)
  | .unknownInputType name path => .unknownInputType name (index :: path)
  | fault => fault

/-- The text of an index path, nothing for the value itself. -/
def pathText : List Nat → String
  | [] => ""
  | path => " at path '" ++ String.join (path.map fun index => "." ++ toString index) ++ "'"

def message : InputFault → String
  | .unexpectedNull expected path =>
    "Found a null where we expected a " ++ expected ++ pathText path
  | .wrongScalarKind actual expected path =>
    "Found a " ++ actual.text ++ " value where we expected a " ++ expected ++ " scalar"
      ++ pathText path
  | .wrongScalarValue actual expected path =>
    "Found value " ++ actual ++ " which cannot be coerced into a " ++ expected ++ " scalar"
      ++ pathText path
  | .wrongEnumKind enum actual path =>
    "Found a " ++ actual.text ++ " value where we expected a " ++ enum ++ " enum value"
      ++ pathText path
  | .unknownEnumValue enum value path =>
    "Unknown enum value '" ++ value ++ "' for enum " ++ enum ++ pathText path
  | .unknownInputType name path =>
    "Type '" ++ name ++ "' is not a known input type" ++ pathText path
  | .unknownVariable name => "Unknown variable $" ++ name
  | .missingArgument name expected =>
    "Missing required argument '" ++ name ++ "' of type " ++ expected
  | .unknownArgument name => "Unknown argument '" ++ name ++ "'"
  | .invalidArgument name source =>
    "Invalid value for argument '" ++ name ++ "': " ++ source.message

end InputFault

end GraphQuery
