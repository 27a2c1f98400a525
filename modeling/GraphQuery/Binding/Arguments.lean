import GraphQuery.Binding.Terms

/-!
# Argument binding

Brings the arguments that a document writes into the order of the declared parameters. A parameter
that is not written gets its default, or null if its type allows it.
-/

namespace GraphQuery

namespace Bindings

def bindParameter (bindings : Bindings) (arguments : List Argument) (parameter : Parameter) :
    Except ExecutionFault Value :=
  match arguments.find? fun argument => argument.name == parameter.name with
  | some argument => do
    let value ← bindings.readTerm argument.position argument.value
    match bindings.schema.coerce parameter.type value with
    | .ok value => .ok value
    | .error source => .error (.coercion (.invalidArgument parameter.name source))
  | none =>
    match parameter.default with
    | some value => .ok value
    | none =>
      if parameter.type.nullable then .ok .null
      else .error (.coercion (.missingArgument parameter.name parameter.type.text))

def undeclared? (parameters : List Parameter) (arguments : List Argument) : Option Argument :=
  arguments.find? fun argument =>
    !parameters.any fun parameter => parameter.name == argument.name

/-- The values of the parameters. An undeclared argument comes before any other fault. -/
def bindArguments (bindings : Bindings) (parameters : List Parameter)
    (arguments : List Argument) : Except ExecutionFault ArgumentValues :=
  match undeclared? parameters arguments with
  | some argument => .error (.coercion (.unknownArgument argument.name))
  | none =>
    parameters.mapM fun parameter => do
      pure (parameter.name, ← bindings.bindParameter arguments parameter)

end Bindings

end GraphQuery
