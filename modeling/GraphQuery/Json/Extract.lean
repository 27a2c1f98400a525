import GraphQuery.Json
import GraphQuery.Text.Quoted

/-!
# Typed reading of JSON

Reads a JSON value as a string, an integer of a width, a float, a truth value or a list of these.
Integers serve as floats, but floats never as integers.
-/

namespace GraphQuery

inductive ExtractFault where
  | wrongKind (found : Json) (wanted : String)
  | outOfRange (n : Int) (wanted : String)
  | unknownKey (key : String) (known : List String)
  | tooManyItems (length : Nat)

namespace ExtractFault

/-- What a value is called in a message: scalars with their text, lists and objects without. -/
def found : Json → String
  | .null => "null"
  | .bool true => "boolean `true`"
  | .bool false => "boolean `false`"
  | .number (.int n) => "integer `" ++ toString n ++ "`"
  | .number (.float x) => "floating point `" ++ Number.floatText x ++ "`"
  | .string s => "string " ++ Quoted.quote s
  | .array _ => "sequence"
  | .object _ => "map"

def message : ExtractFault → String
  | .wrongKind value wanted => "invalid type: " ++ found value ++ ", expected " ++ wanted
  | .outOfRange n wanted =>
    "invalid value: integer `" ++ toString n ++ "`, expected " ++ wanted
  | .unknownKey key known =>
    "unknown field `" ++ key ++ "`, expected "
      ++ String.intercalate " or " (known.map fun name => "`" ++ name ++ "`")
  | .tooManyItems length =>
    "invalid length " ++ toString length ++ ", expected fewer elements in array"

end ExtractFault

structure IntegerRange where
  name : String
  low : Int
  high : Int

namespace IntegerRange

def signed64 : IntegerRange := ⟨"i64", -0x8000000000000000, 0x7fffffffffffffff⟩

def unsigned64 : IntegerRange := ⟨"u64", 0, 0xffffffffffffffff⟩

/-- Counts and limits. -/
def size : IntegerRange := ⟨"usize", 0, 0xffffffffffffffff⟩

end IntegerRange

namespace Json

def asString : Json → Except ExtractFault String
  | .string s => .ok s
  | value => .error (.wrongKind value "a string")

def asInteger (range : IntegerRange) : Json → Except ExtractFault Int
  | .number (.int n) =>
    if range.low ≤ n ∧ n ≤ range.high then .ok n else .error (.outOfRange n range.name)
  | value => .error (.wrongKind value range.name)

def asFloat : Json → Except ExtractFault Binary64
  | .number n => .ok n.toFloat
  | value => .error (.wrongKind value "f64")

def asBool : Json → Except ExtractFault Bool
  | .bool b => .ok b
  | value => .error (.wrongKind value "a boolean")

/-- Reads every item with `item`; the first failure counts. -/
def asList {α : Type} (item : Json → Except ExtractFault α) : Json → Except ExtractFault (List α)
  | .array items => items.mapM item
  | value => .error (.wrongKind value "a sequence")

end Json

end GraphQuery
