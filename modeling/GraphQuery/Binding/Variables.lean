import GraphQuery.Schema
import GraphQuery.Variables

/-!
# Variable coercion

The variables that an operation declares, coerced once against their types: the supplied value,
else the default, else null.
-/

namespace GraphQuery

namespace VariableDefinition

/-- The value of a declared variable before coercion. A supplied null is a value. -/
def supplied (definition : VariableDefinition) (inputs : Variables) : Value :=
  (inputs.get? definition.name).getD (definition.default.getD .null)

def checkType (definition : VariableDefinition) (system : TypeSystem) :
    Except ExecutionFault Unit :=
  match system.innermost? definition.type with
  | none =>
    .error (.validation (.unknownType definition.type.innermost definition.typePosition))
  | some type =>
    if type.isInput then .ok ()
    else
      .error (.validation
        (.nonInputVariable definition.name definition.type.text definition.position))

def coerce (definition : VariableDefinition) (schema : Schema) (inputs : Variables) :
    Except ExecutionFault Value := do
  definition.checkType schema.toTypeSystem
  match schema.coerce definition.type (definition.supplied inputs) with
  | .ok value => .ok value
  | .error source => .error (.variable definition.name definition.position source)

end VariableDefinition

namespace Variables

/-- The coerced values of the declared variables; the first failure counts, and of two
declarations of one name the second. -/
def coerce (inputs : Variables) (schema : Schema) (definitions : List VariableDefinition) :
    Except ExecutionFault (Keyed Value) :=
  definitions.foldlM
    (fun values definition => do
      pure (values.insert definition.name (← definition.coerce schema inputs)))
    []

end Variables

end GraphQuery
