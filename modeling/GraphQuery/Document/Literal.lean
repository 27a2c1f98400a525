import GraphQuery.Document.Cursor
import GraphQuery.Json.Reader

/-!
# Literals

Numbers and strings of query documents. Plain strings have the escapes of JSON; block strings have
none, and their common indent and their blank first and last lines are cut off.
-/

namespace GraphQuery

namespace BlockString

def lines (line : List Char) : List Char → List (List Char)
  | [] => [line.reverse]
  | '\r' :: '\n' :: rest => line.reverse :: lines [] rest
  | '\r' :: rest => line.reverse :: lines [] rest
  | '\n' :: rest => line.reverse :: lines [] rest
  | c :: rest => lines (c :: line) rest

def isIndent (c : Char) : Bool := c == '\t' || c == ' '

def isBlankLine (line : List Char) : Bool := line.all isIndent

/-- The least indent of lines that are not blank. -/
def commonIndent (lines : List (List Char)) : Nat :=
  let indents := (lines.filter fun line => !isBlankLine line).map fun line =>
    (line.takeWhile isIndent).length
  indents.min?.getD 0

/-- Cuts the indent from a line that is at least as long. -/
def cut (indent : Nat) (line : List Char) : List Char :=
  if indent ≤ line.length then line.drop indent else line

def trimBlank (lines : List (List Char)) : List (List Char) :=
  ((lines.dropWhile isBlankLine).reverse.dropWhile isBlankLine).reverse

def value (raw : List Char) : String :=
  match lines [] raw with
  | [] => ""
  | first :: others =>
    let indent := commonIndent others
    let kept := trimBlank (first :: others.map (cut indent))
    String.ofList (['\n'].intercalate kept)

/-- The text up to the closing quotes and how many characters it takes with them. -/
def raw (done : List Char) (size : Nat) : List Char → Option (List Char × Nat)
  | '"' :: '"' :: '"' :: _ => some (done.reverse, size + 3)
  | '\\' :: '"' :: '"' :: '"' :: rest => raw ('"' :: '"' :: '"' :: '\\' :: done) (size + 4) rest
  | c :: rest => raw (c :: done) (size + 1) rest
  | [] => none

end BlockString

/-- The value of a plain string after its opening quote and how many characters it takes with the
closing one. -/
def plainString (done : List Char) (size : Nat) : List Char → Option (List Char × Nat)
  | '"' :: _ => some (done.reverse, size + 1)
  | '\\' :: 'u' :: a :: b :: c :: d :: rest => do
    let char ← Json.charOfCode? (← Json.hexQuad? a b c d)
    plainString (char :: done) (size + 6) rest
  | '\\' :: c :: rest => do plainString ((← Json.escaped? c) :: done) (size + 2) rest
  | c :: rest => if c = '\r' ∨ c = '\n' then none else plainString (c :: done) (size + 1) rest
  | [] => none

namespace Rule

def blockString : Rule String := do
  exactly "\"\"\""
  match BlockString.raw [] 0 (← get).rest with
  | none => failure
  | some (raw, size) =>
    modify fun cursor => cursor.skip size
    pure (BlockString.value raw)

def quotedString : Rule String := do
  exactly "\""
  match plainString [] 0 (← get).rest with
  | none => failure
  | some (value, size) =>
    modify fun cursor => cursor.skip size
    pure (String.ofList value)

def string : Rule String := blockString <|> quotedString

/-- A number that no name follows. A magnitude beyond the range of floats is a fault. -/
def number : Rule Number := do
  let cursor ← get
  match Numeral.scan cursor.rest with
  | none => failure
  | some (numeral, rest) =>
    if (rest.head?.map isNameStart).getD false then failure
    else
      set (cursor.skip (cursor.rest.length - rest.length))
      match Number.ofNumeral? numeral with
      | some n => pure n
      | none => do
        report .malformed
        pure (.int 0)

end Rule

end GraphQuery
