import GraphQuery.Json.Text
import GraphQuery.TypeSystem

/-!
# Leaf values

Brings the JSON that a resolver produced for a scalar or an enum into the value that the response
shows. The value is not null.
-/

namespace GraphQuery

namespace TypeSystem

/-- The value of a scalar, `none` if the JSON does not represent one. -/
def scalarLeaf? (kind : ScalarKind) (value : Json) : Option Value :=
  match kind, value with
  | .custom, value => some (.ofJson value)
  | .int, .number n => n.toInt32?.map fun i => .number (.int i)
  | .float, .number n => some (.number (.float n.toFloat))
  | .string, .string s => some (.string s)
  | .string, .bool b => some (.string (Json.bool b).text)
  | .string, .number n => some (.string n.text)
  | .id, .string s => some (.string s)
  | .id, .number n => some (.string n.text)
  | .boolean, .bool b => some (.boolean b)
  | _, _ => none

/-- The value of an enum, `none` if the JSON does not name one. -/
def enumLeaf? (enum : EnumType) (value : Json) : Option Value := do
  let name ← value.string?
  if enum.values.contains name then some (.enum name) else none

/-- The value of a leaf type, or the message that refuses it. -/
def serializeLeaf (type : TypeDefinition) (value : Json) : Except String Value :=
  let refused := Except.error (type.name ++ " cannot represent value: " ++ value.text)
  match type with
  | .enum enum => ((enumLeaf? enum value).map Except.ok).getD refused
  | .scalar scalar => ((scalarLeaf? scalar.kind value).map Except.ok).getD refused
  | _ => .error (type.name ++ " is not a leaf type")

end TypeSystem

end GraphQuery
