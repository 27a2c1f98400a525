import GraphQuery.Document
import GraphQuery.Resolver
import GraphQuery.TypeSystem.Coercion
import GraphQuery.TypeSystem.Leaf

/-!
# Translators

The part of a schema that decides what values mean: which literals there are, how inputs are
coerced and how leaves are shown.
-/

namespace GraphQuery

structure Translator where
  /-- The value of a literal; nothing for lists, objects and variables, which are read part by
  part. -/
  literal : Term → Option Value
  /-- Coerces a native value into an input type. -/
  coerce : BoundSystem → TypeExpr → Value → Except InputFault Value
  /-- Serializes the non-null value that a resolver produced for a scalar or an enum. -/
  leaf : BoundSystem → TypeDefinition → Json → Except String Value

namespace Translator

/-- The value of every term that is no list, no object and no variable. -/
def literal? : Term → Option Value
  | .null => some .null
  | .number n => some (.number n)
  | .string s => some (.string s)
  | .boolean b => some (.boolean b)
  | .binary bytes => some (.binary bytes)
  | .enum name => some (.enum name)
  | .variable _ | .list _ | .object _ => none

/-- The rules for the built-in scalars; values of custom scalars pass as they are. -/
def standard : Translator :=
  { literal := literal?
    coerce := fun system => system.coerceInput
    leaf := fun _ => TypeSystem.serializeLeaf }

end Translator

end GraphQuery
