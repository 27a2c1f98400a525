import GraphQuery.Keyed
import GraphQuery.TypeExpr
import GraphQuery.Value

/-!
# Query documents

The tree of a query document: operations and fragments made of selections, with the positions at
which errors are reported.
-/

namespace GraphQuery

/-- Line and column in a document, both counted from one. -/
structure Position where
  line : Nat
  column : Nat
  deriving DecidableEq, Repr, Inhabited

def Position.text (p : Position) : String := toString p.line ++ ":" ++ toString p.column

/-- A value as a document writes it: a native value that may refer to variables. -/
inductive Term where
  | variable (name : String)
  | null
  | number (n : Number)
  | string (s : String)
  | boolean (b : Bool)
  | binary (bytes : List UInt8)
  | enum (name : String)
  | list (items : List Term)
  | object (fields : List (String × Term))
  deriving Inhabited

/-- An argument as written; the position is that of its value. -/
structure Argument where
  name : String
  value : Term
  position : Position
  deriving Inhabited

structure DirectiveUse where
  position : Position
  name : String
  arguments : List Argument
  deriving Inhabited

/-- The type that a fragment is restricted to, with the position of the name. -/
structure TypeCondition where
  name : String
  position : Position
  deriving DecidableEq, Repr, Inhabited

/-- A selected field without its own selections. -/
structure FieldNode where
  position : Position
  aliasName : Option String
  name : String
  arguments : List Argument
  directives : List DirectiveUse
  deriving Inhabited

/-- The key of the field in the response. -/
def FieldNode.responseKey (node : FieldNode) : String := node.aliasName.getD node.name

structure SpreadNode where
  position : Position
  name : String
  directives : List DirectiveUse
  deriving Inhabited

structure InlineNode where
  position : Position
  condition : Option TypeCondition
  directives : List DirectiveUse
  deriving Inhabited

inductive Selection where
  | field (node : FieldNode) (selections : List Selection)
  | spread (node : SpreadNode)
  | inline (node : InlineNode) (selections : List Selection)
  deriving Inhabited

structure Fragment where
  name : String
  condition : TypeCondition
  directives : List DirectiveUse
  selections : List Selection
  deriving Inhabited

inductive OperationKind where
  | query | mutation | subscription
  deriving DecidableEq, Repr, Inhabited

def OperationKind.text : OperationKind → String
  | .query => "query"
  | .mutation => "mutation"
  | .subscription => "subscription"

/-- A declared variable; the position is that of the declaration. -/
structure VariableDefinition where
  position : Position
  name : String
  type : TypeExpr
  typePosition : Position
  directives : List DirectiveUse
  default : Option Value
  deriving Inhabited

structure Operation where
  position : Position
  kind : OperationKind
  definitions : List VariableDefinition
  directives : List DirectiveUse
  selections : List Selection
  deriving Inhabited

/-- The operations of a document: a single one without a name, or any number of named ones. -/
inductive Operations where
  | single (operation : Operation)
  | named (operations : Keyed Operation)
  deriving Inhabited

structure Document where
  operations : Operations
  fragments : List Fragment
  deriving Inhabited

def Fragment.find? (fragments : List Fragment) (name : String) : Option Fragment :=
  List.find? (fun fragment => fragment.name == name) fragments

mutual

/-- The term that writes a native value. -/
def Term.ofValue : Value → Term
  | .null => .null
  | .number n => .number n
  | .string s => .string s
  | .boolean b => .boolean b
  | .binary bytes => .binary bytes
  | .enum name => .enum name
  | .list items => .list (Term.ofItems items)
  | .object fields => .object (Term.ofFields fields)

def Term.ofItems : List Value → List Term
  | [] => []
  | x :: xs => Term.ofValue x :: Term.ofItems xs

def Term.ofFields : List (String × Value) → List (String × Term)
  | [] => []
  | (key, x) :: xs => (key, Term.ofValue x) :: Term.ofFields xs

end

end GraphQuery
