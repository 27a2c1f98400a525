import GraphQuery.Json

/-!
# Native values

The values that variables, arguments, defaults and response data are made of. They extend JSON by
enum values and binary data, which only exist on this side of the border.
-/

namespace GraphQuery

inductive Value where
  | null
  | number (n : Number)
  | string (s : String)
  | boolean (b : Bool)
  | binary (bytes : List UInt8)
  | enum (name : String)
  | list (items : List Value)
  | object (fields : List (String × Value))
  deriving Inhabited

inductive ValueKind where
  | string | integer | enum | float | object | boolean | list | null | binary
  deriving DecidableEq, Repr

def ValueKind.text : ValueKind → String
  | .string => "String"
  | .integer => "Integer"
  | .enum => "Enum"
  | .float => "Float"
  | .object => "Object"
  | .boolean => "Boolean"
  | .list => "List"
  | .null => "Null"
  | .binary => "Binary"

namespace Value

def kind : Value → ValueKind
  | .null => .null
  | .number (.float _) => .float
  | .number (.int _) => .integer
  | .string _ => .string
  | .boolean _ => .boolean
  | .binary _ => .binary
  | .enum _ => .enum
  | .list _ => .list
  | .object _ => .object

mutual

/-- The JSON of a value: an enum value is a string and binary data a list of bytes. -/
def toJson : Value → Json
  | .null => .null
  | .number n => .number n
  | .string s => .string s
  | .boolean b => .bool b
  | .binary bytes => .array (bytes.map fun b => .ofNat b.toNat)
  | .enum name => .string name
  | .list items => .array (itemsToJson items)
  | .object fields => .object (fieldsToJson fields)

def itemsToJson : List Value → List Json
  | [] => []
  | x :: xs => x.toJson :: itemsToJson xs

def fieldsToJson : List (String × Value) → List (String × Json)
  | [] => []
  | (key, x) :: xs => (key, x.toJson) :: fieldsToJson xs

end

mutual

/-- The value of JSON, never an enum value or binary data. -/
def ofJson : Json → Value
  | .null => .null
  | .bool b => .boolean b
  | .number n => .number n
  | .string s => .string s
  | .array items => .list (ofItems items)
  | .object fields => .object (ofFields fields)

def ofItems : List Json → List Value
  | [] => []
  | x :: xs => ofJson x :: ofItems xs

def ofFields : List (String × Json) → List (String × Value)
  | [] => []
  | (key, x) :: xs => (key, ofJson x) :: ofFields xs

end

/-- Inside a quoted string a control character without a letter of its own is written as `\u` and
its decimal code, padded to four digits. -/
def quoteChar (c : Char) : List Char :=
  match c with
  | '\r' => ['\\', 'r']
  | '\n' => ['\\', 'n']
  | '\t' => ['\\', 't']
  | '"' => ['\\', '"']
  | '\\' => ['\\', '\\']
  | c =>
    if c.toNat < 32 ∨ (127 ≤ c.toNat ∧ c.toNat < 160) then
      let digits := Nat.toDigits 10 c.toNat
      '\\' :: 'u' :: (List.replicate (4 - digits.length) '0' ++ digits)
    else [c]

mutual

def text : Value → String
  | .null => "null"
  | .number n => n.text
  | .string s => "\"" ++ String.ofList (s.toList.flatMap quoteChar) ++ "\""
  | .boolean true => "true"
  | .boolean false => "false"
  | .binary bytes => "[" ++ String.intercalate ", " (bytes.map fun b => toString b.toNat) ++ "]"
  | .enum name => name
  | .list items => "[" ++ String.intercalate ", " (itemTexts items) ++ "]"
  | .object fields => "\x7b" ++ String.intercalate ", " (fieldTexts fields) ++ "\x7d"

def itemTexts : List Value → List String
  | [] => []
  | x :: xs => x.text :: itemTexts xs

def fieldTexts : List (String × Value) → List String
  | [] => []
  | (key, x) :: xs => (key ++ ": " ++ x.text) :: fieldTexts xs

end

theorem itemsToJson_eq_map (items : List Value) : itemsToJson items = items.map toJson := by
  induction items with
  | nil => rfl
  | cons x xs ih => rw [itemsToJson, ih, List.map_cons]

theorem ofItems_eq_map (items : List Json) : ofItems items = items.map ofJson := by
  induction items with
  | nil => rfl
  | cons x xs ih => rw [ofItems, ih, List.map_cons]

end Value

end GraphQuery
