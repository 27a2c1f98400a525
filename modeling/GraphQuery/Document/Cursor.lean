import GraphQuery.Document

/-!
# Cursors

The state in which a document is read: the characters ahead and the position of the first of
them. A rule either succeeds and moves the cursor or fails and leaves it where it was, so the
alternatives of a rule are tried in order. A fault in well-formed text does not stop the reading;
the first one is kept.
-/

namespace GraphQuery

inductive DocumentFault where
  | malformed
  | recursionLimit
  | missingOperation
  | multipleOperations
  | duplicateOperation (name : String)
  | duplicateFragment (name : String)
  deriving DecidableEq, Repr

def DocumentFault.message : DocumentFault → String
  | .malformed => "malformed document"
  | .recursionLimit => "recursion limit exceeded."
  | .missingOperation => "document does not contain an operation"
  | .multipleOperations => "document contains multiple operations"
  | .duplicateOperation name => "operation " ++ name ++ " is defined twice"
  | .duplicateFragment name => "fragment " ++ name ++ " is defined twice"

structure Cursor where
  rest : List Char
  position : Position
  fault : Option DocumentFault

/-- A rule of the grammar. -/
abbrev Rule := StateT Cursor Option

namespace Cursor

def start (text : String) : Cursor :=
  { rest := text.toList, position := ⟨1, 1⟩, fault := none }

end Cursor

/-- The position behind a character. A line ends with its line feed; a carriage return only goes
back to the first column. -/
def Position.after (p : Position) (c : Char) : Position :=
  if c = '\n' then ⟨p.line + 1, 1⟩ else if c = '\r' then ⟨p.line, 1⟩ else ⟨p.line, p.column + 1⟩

namespace Cursor

def skip (cursor : Cursor) (n : Nat) : Cursor :=
  { cursor with
    rest := cursor.rest.drop n
    position := (cursor.rest.take n).foldl Position.after cursor.position }

/-- Blanks between tokens; the comma and the byte order mark are among them. -/
def isBlank (c : Char) : Bool :=
  c == ' ' || c == ',' || c == '\t' || c == '\uFEFF' || c == '\r' || c == '\n'

/-- How many characters of blanks and comments come first. -/
def blanks (inComment : Bool) : List Char → Nat
  | [] => 0
  | c :: rest =>
    if inComment then
      if c == '\r' || c == '\n' then blanks false rest + 1 else blanks true rest + 1
    else if isBlank c then blanks false rest + 1
    else if c == '#' then blanks true rest + 1
    else 0

def skipBlanks (cursor : Cursor) : Cursor := cursor.skip (blanks false cursor.rest)

end Cursor

namespace Rule

def here : Rule Position := do
  modify Cursor.skipBlanks
  pure (← get).position

/-- Keeps a fault if there is none yet. -/
def report (fault : DocumentFault) : Rule Unit :=
  modify fun cursor => { cursor with fault := cursor.fault.or (some fault) }

/-- Moves over `word` if it comes next, without looking behind it. -/
def exactly (word : String) : Rule Unit := do
  if word.toList.isPrefixOf (← get).rest then modify fun cursor => cursor.skip word.length
  else failure

def token (word : String) : Rule Unit := do
  let _ ← here
  exactly word

/-- Succeeds without moving if `rule` fails. -/
def notAhead {α : Type} (rule : Rule α) : Rule Unit := fun cursor =>
  match rule cursor with
  | some _ => none
  | none => some ((), cursor)

def optional {α : Type} (rule : Rule α) : Rule (Option α) := (some <$> rule) <|> pure none

/-- Applies a rule as often as it succeeds, at most `size` times. -/
def many {α : Type} (rule : Rule α) : Nat → Rule (List α)
  | 0 => pure []
  | size + 1 => do
    match ← optional rule with
    | none => pure []
    | some a => do pure (a :: (← many rule size))

def many1 {α : Type} (rule : Rule α) (size : Nat) : Rule (List α) := do
  let first ← rule
  pure (first :: (← many rule size))

def isNameStart (c : Char) : Bool := c.isAlpha || c == '_'

def isNamePart (c : Char) : Bool := c.isAlphanum || c == '_'

/-- A name right at the cursor. -/
def exactName : Rule String := do
  match (← get).rest with
  | [] => failure
  | c :: rest =>
    if isNameStart c then
      let name := c :: rest.takeWhile isNamePart
      modify fun cursor => cursor.skip name.length
      pure (String.ofList name)
    else failure

def name : Rule String := do
  let _ ← here
  exactName

end Rule

end GraphQuery
