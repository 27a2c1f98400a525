import GraphQuery.Fault.Execution
import GraphQuery.Json.Extract
import GraphQuery.Response
import GraphQuery.TypeSystem

/-!
# Resolvers

What produces the value of a field: the property of the parent value that has the field's name, or
a resolver of its own, which sees the parent value and the arguments.
-/

namespace GraphQuery

/-- Coerced argument values in the order in which the parameters are declared. -/
abbrev ArgumentValues := List (String × Value)

namespace ArgumentValues

def get? (arguments : ArgumentValues) (name : String) : Option Value :=
  Keyed.get? arguments name

def json (arguments : ArgumentValues) (name : String) : Json :=
  ((arguments.get? name).map Value.toJson).getD .null

/-- Reads the argument as a type, nothing if it is missing or null. -/
def getAs {α : Type} (arguments : ArgumentValues) (read : Json → Except ExtractFault α)
    (name : String) : Except ResolverFault (Option α) :=
  match arguments.get? name with
  | none | some .null => .ok none
  | some value =>
    match read value.toJson with
    | .ok a => .ok (some a)
    | .error fault => .error ⟨fault.message⟩

end ArgumentValues

structure ResolverContext where
  fieldName : String
  parent : Json
  arguments : ArgumentValues

/-- A resolver with a rule of its own, as a function of the place of the value and of the context.
No place is resolved twice in a run, so what a resolver remembers from one call to the next, and
answers equal contexts differently for, is in the place. -/
abbrev ResolverFunction := ResponsePath → ResolverContext → Except ResolverFault Json

inductive Resolver where
  /-- Reads the property named after the field from the parent value. -/
  | parent
  | custom (answer : ResolverFunction)

/-- What there is for each field, by the name of the type and of the field. -/
abbrev FieldTable (α : Type) := String → String → α

def FieldTable.update {α : Type} (table : FieldTable α) (type field : String) (entry : α) :
    FieldTable α :=
  fun t f => if t = type ∧ f = field then entry else table t f

abbrev ResolverTable := FieldTable Resolver

def ResolverTable.parents : ResolverTable := fun _ _ => .parent

/-- How many polls the resolver of a field takes, which may differ from place to place. -/
abbrev Delays := FieldTable (ResponsePath → Nat)

def Delays.none : Delays := fun _ _ _ => 0

/-- A resolver with the polls that it takes. -/
structure CustomResolver where
  answer : ResolverFunction
  polls : ResponsePath → Nat

/-- A type system whose fields are bound to their resolvers. How long these take is no part of
it. -/
structure BoundSystem extends TypeSystem where
  resolvers : ResolverTable

end GraphQuery
