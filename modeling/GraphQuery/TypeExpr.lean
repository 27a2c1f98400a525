/-!
# Type expressions

The types of fields, arguments and variables: a name or a list of another type, each of them
nullable or not. A trailing exclamation mark makes a type non-null.
-/

namespace GraphQuery

inductive TypeExpr where
  | named (name : String) (nullable : Bool)
  | list (item : TypeExpr) (nullable : Bool)
  deriving DecidableEq, Repr, Inhabited

namespace TypeExpr

def nullable : TypeExpr → Bool
  | .named _ nullable => nullable
  | .list _ nullable => nullable

def innermost : TypeExpr → String
  | .named name _ => name
  | .list item _ => item.innermost

def text : TypeExpr → String
  | .named name nullable => name ++ if nullable then "" else "!"
  | .list item nullable => "[" ++ item.text ++ "]" ++ if nullable then "" else "!"

def dropLast? (c : Char) (cs : List Char) : Option (List Char) :=
  if cs.getLast? = some c then some cs.dropLast else none

/-- Reads a type whose lists are nested less than `steps` deep. -/
def readChars : Nat → List Char → Option TypeExpr
  | 0, _ => none
  | steps + 1, cs =>
    let (nullable, cs) := match dropLast? '!' cs with
      | some rest => (false, rest)
      | none => (true, cs)
    match cs with
    | '[' :: inside => do
      let item ← readChars steps (← dropLast? ']' inside)
      pure (.list item nullable)
    | cs => some (.named (String.ofList cs) nullable)

/-- Reads a type. Any text without an opening bracket in front is a name, whatever it contains;
a list without its closing bracket is no type. -/
def read? (s : String) : Option TypeExpr := readChars (s.length + 1) s.toList

/-- Reads a type; a text that is no type becomes a nullable name that no schema knows. -/
def read (s : String) : TypeExpr := (read? s).getD (.named s true)

end TypeExpr

end GraphQuery
