import GraphQuery.Directive
import GraphQuery.Translator

/-!
# Schemas

What requests are read and checked against: a type system with its resolvers, directives and a
translator. How long resolvers take stands beside them and matters to nothing but the execution.
-/

namespace GraphQuery

structure Schema extends BoundSystem where
  directives : List DirectiveSpec
  translator : Translator

namespace Schema

def directive? (schema : Schema) (name : String) : Option DirectiveSpec :=
  DirectiveSpec.find? schema.directives name

def coerce (schema : Schema) (type : TypeExpr) (value : Value) : Except InputFault Value :=
  schema.translator.coerce schema.toBoundSystem type value

def leaf (schema : Schema) (type : TypeDefinition) (value : Json) : Except String Value :=
  schema.translator.leaf schema.toBoundSystem type value

end Schema

/-- A schema with the times that its resolvers take. -/
structure ExecutableSchema extends Schema where
  delays : Delays

end GraphQuery
