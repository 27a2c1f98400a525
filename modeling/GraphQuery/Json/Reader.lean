import GraphQuery.Json

/-!
# Reading JSON

A reader for JSON text over a list of characters. Every nested value costs at least one
character, so a budget of one step for each character is never used up.
-/

namespace GraphQuery

namespace Json

def isBlank (c : Char) : Bool := c == ' ' || c == '\t' || c == '\n' || c == '\r'

def skipBlanks (cs : List Char) : List Char := cs.dropWhile isBlank

def hexValue? (c : Char) : Option Nat :=
  if c.isDigit then some (c.toNat - '0'.toNat)
  else if 'a' ≤ c ∧ c ≤ 'f' then some (c.toNat - 'a'.toNat + 10)
  else if 'A' ≤ c ∧ c ≤ 'F' then some (c.toNat - 'A'.toNat + 10)
  else none

def hexQuad? (a b c d : Char) : Option Nat := do
  pure ((((← hexValue? a) * 16 + (← hexValue? b)) * 16 + (← hexValue? c)) * 16 + (← hexValue? d))

def charOfCode? (code : Nat) : Option Char :=
  if 0xD800 ≤ code ∧ code < 0xE000 then none else some (Char.ofNat code)

def charOfPair? (high low : Nat) : Option Char :=
  if 0xD800 ≤ high ∧ high < 0xDC00 ∧ 0xDC00 ≤ low ∧ low < 0xE000 then
    some (Char.ofNat (0x10000 + (high - 0xD800) * 1024 + (low - 0xDC00)))
  else none

def escaped? : Char → Option Char
  | '"' => some '"'
  | '\\' => some '\\'
  | '/' => some '/'
  | 'b' => some '\x08'
  | 'f' => some '\x0c'
  | 'n' => some '\n'
  | 'r' => some '\r'
  | 't' => some '\t'
  | _ => none

/-- The rest of a string after its opening quote. -/
def readString (done : List Char) : List Char → Option (String × List Char)
  | '"' :: rest => some (String.ofList done.reverse, rest)
  | '\\' :: 'u' :: a :: b :: c :: d :: rest => do
    let code ← hexQuad? a b c d
    match charOfCode? code with
    | some char => readString (char :: done) rest
    | none =>
      match rest with
      | '\\' :: 'u' :: e :: f :: g :: h :: rest =>
        let char ← charOfPair? code (← hexQuad? e f g h)
        readString (char :: done) rest
      | _ => none
  | '\\' :: c :: rest => do readString ((← escaped? c) :: done) rest
  | c :: rest => if c.toNat < 32 then none else readString (c :: done) rest
  | [] => none

def keyword? (word : String) (cs : List Char) : Option (List Char) :=
  if word.toList.isPrefixOf cs then some (cs.drop word.length) else none

mutual

def readValue : Nat → List Char → Option (Json × List Char)
  | 0, _ => none
  | steps + 1, cs =>
    match skipBlanks cs with
    | 'n' :: rest => do pure (.null, ← keyword? "ull" rest)
    | 't' :: rest => do pure (.bool true, ← keyword? "rue" rest)
    | 'f' :: rest => do pure (.bool false, ← keyword? "alse" rest)
    | '"' :: rest => do
      let (s, rest) ← readString [] rest
      pure (.string s, rest)
    | '[' :: rest =>
      match skipBlanks rest with
      | ']' :: rest => some (.array [], rest)
      | rest => readItems steps rest []
    | '\x7b' :: rest =>
      match skipBlanks rest with
      | '\x7d' :: rest => some (.object [], rest)
      | rest => readFields steps rest []
    | rest => do
      let (numeral, rest) ← Numeral.scan rest
      pure (.number (← Number.ofNumeral? numeral), rest)

def readItems : Nat → List Char → List Json → Option (Json × List Char)
  | 0, _, _ => none
  | steps + 1, cs, done => do
    let (item, rest) ← readValue steps cs
    match skipBlanks rest with
    | ',' :: rest => readItems steps rest (item :: done)
    | ']' :: rest => some (.array (item :: done).reverse, rest)
    | _ => none

def readFields : Nat → List Char → Keyed Json → Option (Json × List Char)
  | 0, _, _ => none
  | steps + 1, cs, done =>
    match skipBlanks cs with
    | '"' :: rest => do
      let (key, rest) ← readString [] rest
      match skipBlanks rest with
      | ':' :: rest =>
        let (value, rest) ← readValue steps rest
        match skipBlanks rest with
        | ',' :: rest => readFields steps rest (done.insert key value)
        | '\x7d' :: rest => some (.object (done.insert key value), rest)
        | _ => none
      | _ => none
    | _ => none

end

/-- Reads one JSON value that takes up the whole text. -/
def read? (s : String) : Option Json :=
  let cs := s.toList
  match readValue (cs.length + 1) cs with
  | some (value, rest) => if (skipBlanks rest).isEmpty then some value else none
  | none => none

end Json

end GraphQuery
