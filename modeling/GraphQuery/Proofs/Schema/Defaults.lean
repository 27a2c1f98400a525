import GraphQuery.Proofs.Binding.Agreement
import GraphQuery.Proofs.Schema.Settled

/-!
# Settled defaults

What finishing a draft with the standard translator does to defaults. Main statement: the defaults
that a schema declares, for fields and for directives, are values of their types.
-/

namespace GraphQuery

/-- A default is a value of its parameter's type. -/
def Parameter.Settled (system : TypeSystem) (parameter : Parameter) : Prop :=
  ∀ value, parameter.default = some value → system.InputValue parameter.type value

private theorem Parameter.Coerced.settled {system : TypeSystem} {declared coerced : Parameter}
    (h : declared.Coerced system.coerceInput coerced) : coerced.Settled system := by
  intro value hvalue
  have hdefault := h.default
  rw [hvalue] at hdefault
  generalize declared.default = original at hdefault
  cases hdefault with
  | some hresult =>
    rw [h.type]
    exact TypeSystem.inputValue_of_coerceInput hresult

private theorem TypeDefinition.Coerced.settled_of_object {registered : List TypeDefinition}
    {system : TypeSystem} {type : TypeDefinition} {object : ObjectType}
    (h : type.Coerced registered system.coerceInput (.object object)) :
    ∀ field ∈ object.fields, ∀ parameter ∈ field.arguments, parameter.Settled system := by
  cases h with
  | object hfields =>
    intro field hfield parameter hparameter
    obtain ⟨_, -, hcoerced⟩ := exists_of_mem_right hfields hfield
    obtain ⟨_, -, hcoerced⟩ := exists_of_mem_right hcoerced.arguments hparameter
    exact hcoerced.settled

namespace SchemaDraft

theorem settled_of_finish {draft : SchemaDraft} {schema : ExecutableSchema}
    (hfinish : draft.finish = .ok schema) (htranslator : schema.translator = .standard)
    {parameters : List Parameter} (hdeclares : schema.toSchema.Declares parameters) :
    ∀ parameter ∈ parameters, parameter.Settled schema.toTypeSystem := by
  have hdraft : draft.translator = .standard :=
    (finished_of_finish hfinish).translator.symm.trans htranslator
  have hestablished := ((finish_eq_ok_iff hdraft).1 hfinish).2
  have htypes := hestablished.types
  have hdirectives := hestablished.directives
  rw [coerce_eq_of_standard htranslator] at htypes hdirectives
  intro parameter hmem
  cases hdeclares with
  | field hobject hfield =>
    obtain ⟨_, -, hcoerced⟩ := exists_of_mem_right htypes hobject
    exact hcoerced.settled_of_object _ hfield parameter hmem
  | directive hspec =>
    obtain ⟨_, -, hcoerced⟩ := exists_of_mem_right hdirectives hspec
    obtain ⟨_, -, hcoerced⟩ := exists_of_mem_right hcoerced.arguments hmem
    exact hcoerced.settled

end SchemaDraft

end GraphQuery
