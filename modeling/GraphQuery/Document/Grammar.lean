import GraphQuery.Document.Literal

/-!
# The grammar of query documents

One rule for each part of a document. Blanks and comments may stand between tokens. Keywords need
no blank behind them, so `queryA` starts the query `A`. Rules that nest take a budget; every level
costs at least one character, so one step for each character of the text suffices.
-/

namespace GraphQuery

namespace Rule

/-- How deep selections may nest below those of an operation or a fragment. -/
def nestingLimit : Nat := 64

/-- A variable, a literal, or a list or an object of these; `constant` leaves variables out. -/
def term (constant : Bool) (size : Nat) : Nat → Rule Term
  | 0 => failure
  | budget + 1 => do
    let _ ← here
    let reference : Rule Term := do
      if constant then failure
      exactly "$"
      pure (.variable (← name))
    let list : Rule Term := do
      exactly "["
      let items ← many (term constant size budget) size
      token "]"
      pure (.list items)
    let field : Rule (String × Term) := do
      let key ← name
      token ":"
      pure (key, ← term constant size budget)
    let object : Rule Term := do
      exactly "\x7b"
      let fields ← many field size
      token "\x7d"
      pure (.object (Keyed.ofList fields))
    reference
      <|> (.number <$> number)
      <|> (.string <$> string)
      <|> (do exactly "true"; pure (.boolean true))
      <|> (do exactly "false"; pure (.boolean false))
      <|> (do exactly "null"; pure .null)
      <|> (.enum <$> exactName)
      <|> list
      <|> object

def argument (size : Nat) : Rule Argument := do
  let name ← name
  token ":"
  let position ← here
  pure { name, value := ← term false size size, position }

def arguments (size : Nat) : Rule (List Argument) := do
  let parenthesized : Rule (List Argument) := do
    token "("
    let arguments ← many1 (argument size) size
    token ")"
    pure arguments
  pure ((← optional parenthesized).getD [])

def directive (size : Nat) : Rule DirectiveUse := do
  let position ← here
  exactly "@"
  pure { position, name := ← name, arguments := ← arguments size }

def directives (size : Nat) : Rule (List DirectiveUse) := many (directive size) size

/-- A type, without blanks inside. -/
def typeExpr : Nat → Rule TypeExpr
  | 0 => failure
  | budget + 1 => do
    let named : Rule (Bool → TypeExpr) := .named <$> exactName
    let list : Rule (Bool → TypeExpr) := do
      exactly "["
      let item ← typeExpr budget
      exactly "]"
      pure (.list item)
    let build ← named <|> list
    let mark ← optional (exactly "!")
    pure (build mark.isNone)

/-- `on` and a type name, with at least one blank and no comment between them. -/
def typeCondition : Rule TypeCondition := do
  let _ ← here
  exactly "on"
  let gap := ((← get).rest.takeWhile Cursor.isBlank).length
  if gap = 0 then failure
  modify fun cursor => cursor.skip gap
  let position := (← get).position
  pure { name := ← exactName, position }

/-- A field, an inline fragment or a spread, in this order; `nested` reads the selections inside
of it. -/
def selection (size : Nat) (nested : Rule (List Selection)) : Rule Selection := do
  let position ← here
  let label : Rule String := do
    let label ← name
    token ":"
    pure label
  let field : Rule Selection := do
    let aliasName ← optional label
    let name ← name
    let arguments ← arguments size
    let directives ← directives size
    let selections ← optional nested
    pure (.field { position, aliasName, name, arguments, directives } (selections.getD []))
  let inline : Rule Selection := do
    exactly "..."
    let condition ← optional typeCondition
    let directives ← directives size
    pure (.inline { position, condition, directives } (← nested))
  let spread : Rule Selection := do
    exactly "..."
    notAhead typeCondition
    let name ← name
    pure (.spread { position, name, directives := ← directives size })
  field <|> inline <|> spread

/-- Selections in braces. Below the limit `depth` every deeper one is a fault. -/
def selections (size : Nat) : Nat → Nat → Rule (List Selection)
  | 0, _ => failure
  | budget + 1, depth => do
    let nested : Rule (List Selection) := do
      let _ ← here
      if (← get).rest.head? ≠ some '\x7b' then failure
      if depth = 0 then report .recursionLimit
      selections size budget (depth - 1)
    token "\x7b"
    let items ← many1 (selection size nested) size
    token "\x7d"
    pure items

def topSelections (size : Nat) : Rule (List Selection) := selections size size nestingLimit

mutual

def constant : Term → Value
  | .null | .variable _ => .null
  | .number n => .number n
  | .string s => .string s
  | .boolean b => .boolean b
  | .binary bytes => .binary bytes
  | .enum name => .enum name
  | .list items => .list (constants items)
  | .object fields => .object (constantFields fields)

def constants : List Term → List Value
  | [] => []
  | x :: xs => constant x :: constants xs

def constantFields : List (String × Term) → List (String × Value)
  | [] => []
  | (key, x) :: xs => (key, constant x) :: constantFields xs

end

def variableDefinition (size : Nat) : Rule VariableDefinition := do
  let position ← here
  exactly "$"
  let name ← name
  token ":"
  let typePosition ← here
  let type ← typeExpr size
  let directives ← directives size
  let default ← optional do
    token "="
    constant <$> term true size size
  pure { position, name, type, typePosition, directives, default }

def variableDefinitions (size : Nat) : Rule (List VariableDefinition) := do
  let parenthesized : Rule (List VariableDefinition) := do
    token "("
    let definitions ← many (variableDefinition size) size
    token ")"
    pure definitions
  pure ((← optional parenthesized).getD [])

/-- An operation with its name, or selections alone. -/
def operation (size : Nat) : Rule (Option String × Operation) := do
  let position ← here
  let kind : Rule OperationKind :=
    (do exactly "query"; pure .query)
      <|> (do exactly "mutation"; pure .mutation)
      <|> (do exactly "subscription"; pure .subscription)
  let full : Rule (Option String × Operation) := do
    let kind ← kind
    let name ← optional name
    let definitions ← variableDefinitions size
    let directives ← directives size
    let selections ← topSelections size
    pure (name, { position, kind, definitions, directives, selections })
  let short : Rule (Option String × Operation) := do
    let selections ← topSelections size
    pure (none, { position, kind := .query, definitions := [], directives := [], selections })
  full <|> short

def fragment (size : Nat) : Rule Fragment := do
  token "fragment"
  let name ← name
  let condition ← typeCondition
  let directives ← directives size
  pure { name, condition, directives, selections := ← topSelections size }

inductive Definition where
  | operation (name : Option String) (operation : Operation)
  | fragment (fragment : Fragment)

def definition (size : Nat) : Rule Definition :=
  (do let (name, operation) ← operation size; pure (.operation name operation))
    <|> (.fragment <$> fragment size)

def definitions (size : Nat) : Rule (List Definition) := do
  let definitions ← many1 (definition size) size
  let _ ← here
  if (← get).rest.isEmpty then pure definitions else failure

end Rule

end GraphQuery
