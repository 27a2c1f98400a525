import GraphQuery.Schema

/-!
# Values of terms

Literals get their value from the schema's translator, lists are read item by item, and variables
stand for the coerced values of the request. Objects are not supported.
-/

namespace GraphQuery

/-- What gives terms and directives their meaning: a schema and the coerced variables. -/
structure Bindings where
  schema : Schema
  values : Keyed Value

namespace Bindings

mutual

/-- The value of a term. A fault is reported at the position of the whole argument. -/
def readTerm (bindings : Bindings) (position : Position) (term : Term) :
    Except ExecutionFault Value :=
  match bindings.schema.translator.literal term with
  | some value => .ok value
  | none =>
    match term with
    | .list items => .list <$> bindings.readItems position items
    | .variable name =>
      match bindings.values.get? name with
      | some value => .ok value
      | none => .error (.coercion (.unknownVariable name))
    | .object _ => .error (.unsupported .objectValue (some position))
    | _ => .error (.unsupported .otherValue (some position))

def readItems (bindings : Bindings) (position : Position) :
    List Term → Except ExecutionFault (List Value)
  | [] => .ok []
  | term :: rest => do
    let value ← bindings.readTerm position term
    pure (value :: (← bindings.readItems position rest))

end

end Bindings

end GraphQuery
