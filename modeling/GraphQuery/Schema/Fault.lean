import GraphQuery.Fault.Input

/-!
# Schema faults

What makes a list of definitions no schema.
-/

namespace GraphQuery

inductive Referrer where
  | type (name : String)
  | field (owner : String) (name : String)
  | argument (owner : String) (fieldName : String) (name : String)
  | directiveArgument (directive : String) (name : String)
  deriving DecidableEq, Repr

def Referrer.text : Referrer → String
  | .type name => "type '" ++ name ++ "'"
  | .field owner name => "field '" ++ owner ++ "." ++ name ++ "'"
  | .argument owner fieldName name =>
    "argument '" ++ owner ++ "." ++ fieldName ++ "(" ++ name ++ ":)'"
  | .directiveArgument directive name =>
    "argument '@" ++ directive ++ "(" ++ name ++ ":)'"

inductive SchemaFault where
  | missingQueryType (name : String)
  | queryTypeNotObject (name : String)
  | duplicateType (name : String)
  | unknownType (type : String) (referrer : Referrer)
  | notAnInterface (object : String) (interface : String)
  | invalidUnionMember (union : String) (member : String)
  | notAnInputType (type : String) (referrer : Referrer)
  | missingInterfaceField (object : String) (interface : String) (field : String)
  | invalidDefaultValue (referrer : Referrer) (source : InputFault)
  deriving DecidableEq, Repr

def SchemaFault.message : SchemaFault → String
  | .missingQueryType name => "The query root type '" ++ name ++ "' is not defined."
  | .queryTypeNotObject name => "The query root type '" ++ name ++ "' must be an object type."
  | .duplicateType name => "Type '" ++ name ++ "' is defined more than once."
  | .unknownType type referrer =>
    "Unknown type '" ++ type ++ "' referenced by " ++ referrer.text ++ "."
  | .notAnInterface object interface =>
    "Type '" ++ object ++ "' cannot implement '" ++ interface ++ "' which is not an interface."
  | .invalidUnionMember union member =>
    "Union '" ++ union ++ "' can only contain object types, found '" ++ member ++ "'."
  | .notAnInputType type referrer =>
    referrer.text ++ " must have an input type, found '" ++ type ++ "'."
  | .missingInterfaceField object interface field =>
    "Type '" ++ object ++ "' implements '" ++ interface ++ "' but does not define its field '"
      ++ field ++ "'."
  | .invalidDefaultValue referrer source =>
    "Invalid default value for " ++ referrer.text ++ ": " ++ source.message

end GraphQuery
