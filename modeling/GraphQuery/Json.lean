import GraphQuery.Keyed
import GraphQuery.Number

/-!
# JSON values

JSON with ordered objects and with integers apart from floats, as resolvers produce it and as
responses are written.
-/

namespace GraphQuery

inductive Json where
  | null
  | bool (b : Bool)
  | number (n : Number)
  | string (s : String)
  | array (items : List Json)
  | object (fields : List (String × Json))
  deriving Inhabited

namespace Json

def ofNat (n : Nat) : Json := .number (.int n)

def isNull : Json → Bool
  | .null => true
  | _ => false

def property? : Json → String → Option Json
  | .object fields, name => Keyed.get? fields name
  | _, _ => none

/-- The property `name`, null if it is absent or if this is no object. -/
def property (value : Json) (name : String) : Json := (value.property? name).getD .null

def items? : Json → Option (List Json)
  | .array items => some items
  | _ => none

def string? : Json → Option String
  | .string s => some s
  | _ => none

def typename? (value : Json) : Option String := do (← value.property? "__typename").string?

mutual

/-- Equality of values: numbers compare numerically within their kind, and the order of an
object's keys does not matter. -/
def same : Json → Json → Bool
  | .null, .null => true
  | .bool a, .bool b => a == b
  | .number m, .number n => m.same n
  | .string s, .string t => s == t
  | .array xs, .array ys => sameItems xs ys
  | .object xs, .object ys => xs.length == ys.length && sameFields xs ys
  | _, _ => false

def sameItems : List Json → List Json → Bool
  | [], [] => true
  | x :: xs, y :: ys => same x y && sameItems xs ys
  | _, _ => false

def sameFields : List (String × Json) → List (String × Json) → Bool
  | [], _ => true
  | (key, x) :: xs, ys =>
    (match Keyed.get? ys key with
      | some y => same x y
      | none => false) && sameFields xs ys

end

end Json

end GraphQuery
