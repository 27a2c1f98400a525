import GraphQuery.Fault.Input
import GraphQuery.TypeSystem

/-!
# Input coercion

Brings a native value into the form of an input type: integers become floats where floats are
wanted, names become enum values, and a single value stands for the list of it.
-/

namespace GraphQuery

namespace TypeSystem

/-- Coerces a value that is not null into a scalar. -/
def coerceScalar (scalar : ScalarType) (value : Value) : Except InputFault Value :=
  match scalar.kind, value with
  | .custom, value => .ok value
  | .int, .number n =>
    match n.toInt32? with
    | some i => .ok (.number (.int i))
    | none => .error (.wrongScalarValue n.text scalar.name [])
  | .float, .number n => .ok (.number (.float n.toFloat))
  | .string, .string s => .ok (.string s)
  | .id, .string s => .ok (.string s)
  | .id, .number (.int n) => .ok (.string (Number.int n).text)
  | .boolean, .boolean b => .ok (.boolean b)
  | _, value => .error (.wrongScalarKind value.kind scalar.name [])

/-- Coerces a value that is not null into an enum value; a string counts as the name of one. -/
def coerceEnum (enum : EnumType) (value : Value) : Except InputFault Value :=
  let named := fun (name : String) =>
    if enum.values.contains name then .ok (.enum name)
    else .error (.unknownEnumValue enum.name name [])
  match value with
  | .enum name => named name
  | .string name => named name
  | value => .error (.wrongEnumKind enum.name value.kind [])

def coerceNamed (system : TypeSystem) (name : String) (value : Value) : Except InputFault Value :=
  match system.get? name with
  | some (.scalar scalar) => coerceScalar scalar value
  | some (.enum enum) => coerceEnum enum value
  | _ => .error (.unknownInputType name [])

/-- Coerces the items of a list from `index` on; the first failure counts. -/
def coerceItems (coerce : Value → Except InputFault Value) (index : Nat) :
    List Value → Except InputFault (List Value)
  | [] => .ok []
  | value :: rest => do
    let first ← (coerce value).mapError (InputFault.atIndex index)
    pure (first :: (← coerceItems coerce (index + 1) rest))

def coerceInput (system : TypeSystem) : TypeExpr → Value → Except InputFault Value
  | .named name nullable, value =>
    match value with
    | .null =>
      if nullable then .ok .null
      else .error (.unexpectedNull (TypeExpr.named name nullable).text [])
    | value => system.coerceNamed name value
  | .list item nullable, value =>
    match value with
    | .null =>
      if nullable then .ok .null
      else .error (.unexpectedNull (TypeExpr.list item nullable).text [])
    | .list items => .list <$> coerceItems (coerceInput system item) 0 items
    | value => do pure (.list [← coerceInput system item value])

end TypeSystem

end GraphQuery
