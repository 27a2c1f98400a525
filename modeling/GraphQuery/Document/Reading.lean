import GraphQuery.Document.Grammar

/-!
# Reading documents

Gathers the definitions of a text into a document. An operation without a name must be the only
one, names are not used twice, and there is at least one operation.
-/

namespace GraphQuery

namespace Document

/-- The operations gathered so far, if there are any. -/
def addOperation (operations : Option Operations) (name : Option String) (operation : Operation) :
    Except DocumentFault Operations :=
  match operations, name with
  | none, none => .ok (.single operation)
  | none, some name => .ok (.named [(name, operation)])
  | some (.named known), some name =>
    if known.keys.contains name then .error (.duplicateOperation name)
    else .ok (.named (known ++ [(name, operation)]))
  | some _, _ => .error .multipleOperations

def addFragment (fragments : List Fragment) (fragment : Fragment) :
    Except DocumentFault (List Fragment) :=
  if (Fragment.find? fragments fragment.name).isSome then
    .error (.duplicateFragment fragment.name)
  else .ok (fragments ++ [fragment])

def gather (operations : Option Operations) (fragments : List Fragment) :
    List Rule.Definition → Except DocumentFault (Option Operations × List Fragment)
  | [] => .ok (operations, fragments)
  | .operation name operation :: rest => do
    gather (some (← addOperation operations name operation)) fragments rest
  | .fragment fragment :: rest => do gather operations (← addFragment fragments fragment) rest

/-- Reads a document. A fault that the reading has kept comes before those of gathering. -/
def read (text : String) : Except DocumentFault Document := do
  match (Rule.definitions (text.length + 1)).run (Cursor.start text) with
  | none => .error .malformed
  | some (definitions, cursor) =>
    match cursor.fault with
    | some fault => .error fault
    | none =>
      let (operations, fragments) ← gather none [] definitions
      match operations with
      | none => .error .missingOperation
      | some operations => pure { operations, fragments }

end Document

end GraphQuery
