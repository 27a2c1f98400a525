import GraphQuery.Binding.Variables
import GraphQuery.Proofs.Binding.Agreement
import GraphQuery.Proofs.Binding.Faults
import GraphQuery.Proofs.Schema.ParameterPlace
import GraphQuery.Proofs.Schema.Coerced
import GraphQuery.Proofs.TypeSystem.FirstFault

/-!
# Known input types

Coercion can report that a type is no input type. Main statements: with the standard translator no
draft fails with such a fault, and under a schema neither the variables of a request nor the
arguments of fields and directives do, since their types are checked before.
-/

namespace GraphQuery

/-- The fault is no unknown input type, neither itself nor in an argument. -/
def InputFault.Known : InputFault → Prop
  | .unknownInputType .. => False
  | .invalidArgument _ source => source.Known
  | _ => True

def ExecutionFault.Known : ExecutionFault → Prop
  | .variable _ _ source => source.Known
  | .coercion source => source.Known
  | _ => True

def SchemaFault.Known : SchemaFault → Prop
  | .invalidDefaultValue _ source => source.Known
  | _ => True

/-- The type inside the lists is an input type. -/
def TypeSystem.KnowsInput (system : TypeSystem) (type : TypeExpr) : Prop :=
  ∃ found, system.innermost? type = some found ∧ found.isInput = true

private theorem InputFault.known_atIndex_iff {index : Nat} {fault : InputFault} :
    (fault.atIndex index).Known ↔ fault.Known := by
  cases fault <;> rfl

namespace TypeSystem

variable {system : TypeSystem}

private theorem known_coerceNamed {name : String} {found : TypeDefinition}
    (hget : system.get? name = some found) (hinput : found.isInput = true) (value : Value) :
    FailsOnly InputFault.Known (system.coerceNamed name value) := by
  intro fault h
  rw [coerceNamed, hget] at h
  cases found with
  | scalar scalar => obtain ⟨_, rfl⟩ | rfl := coerceScalar_error h <;> trivial
  | enum enum => obtain ⟨_, rfl⟩ | rfl := coerceEnum_error h <;> trivial
  | object | interface | union => cases hinput

private theorem known_coerceItems {coerce : Value → Except InputFault Value}
    (h : ∀ value, FailsOnly InputFault.Known (coerce value)) (start : Nat) (values : List Value) :
    FailsOnly InputFault.Known (coerceItems coerce start values) := by
  intro fault hfault
  obtain ⟨_, value, source, -, hsource, rfl, -⟩ := exists_of_coerceItems_error hfault
  exact InputFault.known_atIndex_iff.2 (h value source hsource)

private theorem known_coerceInput {type : TypeExpr} (htype : system.KnowsInput type)
    (value : Value) :
    FailsOnly InputFault.Known (system.coerceInput type value) := by
  have hnull (type : TypeExpr) : InputFault.Known (.unexpectedNull type.text []) := trivial
  induction type generalizing value with
  | named name nullable =>
    obtain ⟨found, hget, hinput⟩ := htype
    unfold coerceInput
    split
    · split
      · exact .ok _
      · exact .error (hnull _)
    · exact known_coerceNamed hget hinput _
  | list item nullable ih =>
    have hitem : ∀ value, FailsOnly InputFault.Known (system.coerceInput item value) := ih htype
    unfold coerceInput
    split
    · split
      · exact .ok _
      · exact .error (hnull _)
    · exact (known_coerceItems hitem 0 _).map Value.list
    · exact (hitem _).bind fun single => .ok _

end TypeSystem

namespace SchemaDraft

variable {system : TypeSystem}

private theorem known_checkDistinct (seen : List String) (types : List TypeDefinition) :
    FailsOnly SchemaFault.Known (checkDistinct seen types) := by
  induction types generalizing seen with
  | nil => exact .ok ()
  | cons type rest ih =>
    rw [checkDistinct]
    split
    · exact .error trivial
    · exact ih _

private theorem known_checkQueryType : FailsOnly SchemaFault.Known (checkQueryType system) := by
  unfold checkQueryType
  split
  · exact .error trivial
  · exact .ok ()
  · exact .error trivial

private theorem known_checkInputReference (type : TypeExpr) (referrer : Referrer) :
    FailsOnly SchemaFault.Known (checkInputReference system type referrer) := by
  unfold checkInputReference
  split
  · exact .error trivial
  · split
    · exact .ok ()
    · exact .error trivial

private theorem known_checkField (owner : String) (field : FieldDefinition) :
    FailsOnly SchemaFault.Known (checkField system owner field) := by
  refine .bind ?_ fun _ => .forM fun argument _ => known_checkInputReference _ _
  unfold checkReference
  split
  · exact .error trivial
  · exact .ok ()

private theorem known_checkImplements (object : ObjectType) (interface : String) :
    FailsOnly SchemaFault.Known (checkImplements system object interface) := by
  unfold checkImplements
  split
  · split
    · exact .error trivial
    · exact .ok ()
  · exact .error trivial
  · exact .error trivial

private theorem known_checkMember (union member : String) :
    FailsOnly SchemaFault.Known (checkMember system union member) := by
  unfold checkMember
  split
  · exact .ok ()
  · exact .error trivial

private theorem known_checkType (type : TypeDefinition) :
    FailsOnly SchemaFault.Known (checkType system type) := by
  refine .bind (.forM fun field _ => known_checkField _ field) fun _ => ?_
  cases type with
  | object object => exact .forM fun name _ => known_checkImplements object name
  | union union => exact .forM fun name _ => known_checkMember union.name name
  | interface | enum | scalar => exact .ok ()

private theorem known_settleParameters {coerce : InputCoercion} {translator : Translator}
    {bound : BoundSystem} (hcoerce : translator.coerce bound = coerce) {parameters : List Parameter}
    (h : ∀ parameter ∈ parameters, ∀ value,
      FailsOnly InputFault.Known (coerce parameter.type value)) (referrer : String → Referrer) :
    FailsOnly SchemaFault.Known
      (parameters.mapM (settleParameter translator bound referrer)) := by
  refine .mapM fun parameter hmem => ?_
  unfold settleParameter
  split
  · exact .ok _
  · split
    · exact .ok _
    · next source hsource =>
      rw [hcoerce] at hsource
      exact .error (h parameter hmem _ source hsource)

private theorem known_settleType {coerce : InputCoercion} {translator : Translator}
    {bound : BoundSystem} (hcoerce : translator.coerce bound = coerce) {type : TypeDefinition}
    (h : ∀ field ∈ type.fields, ∀ parameter ∈ field.arguments, ∀ value,
      FailsOnly InputFault.Known (coerce parameter.type value)) :
    FailsOnly SchemaFault.Known (settleType translator bound type) := by
  have hfields (owner : String) :
      FailsOnly SchemaFault.Known (type.fields.mapM (settleField translator bound owner)) := by
    refine .mapM fun field hfield => ?_
    exact (known_settleParameters hcoerce (h field hfield) _).bind fun arguments => .ok _
  cases type with
  | object type | interface type => exact (hfields _).bind fun fields => .ok _
  | union | enum | scalar => exact .ok _

/-- Finishing a draft never finds a default whose type is no input type, since the types are checked
before the defaults are coerced. -/
theorem known_finish {draft : SchemaDraft} (htranslator : draft.translator = .standard) :
    FailsOnly SchemaFault.Known draft.finish := by
  have hcoerce (system : BoundSystem) : draft.translator.coerce system = system.coerceInput := by
    rw [htranslator]
    rfl
  have hpossible := coerceInput_withPossibleTypes draft.typeSystem
  refine .bind_of_ok (known_checkDistinct _ _) fun _ _ => ?_
  refine .bind_of_ok known_checkQueryType fun _ _ => ?_
  refine .bind_of_ok (.forM fun type _ => known_checkType type) fun _ htypes => ?_
  refine .bind_of_ok (.forM fun spec _ => .forM fun argument _ => known_checkInputReference _ _)
    fun _ hdirectives => ?_
  refine .bind_of_ok (.mapM fun type htype => ?_) fun types hsettled => ?_
  · rw [types_withPossibleTypes] at htype
    obtain ⟨declared, hdeclared, rfl⟩ := List.mem_map.1 htype
    refine known_settleType ((hcoerce _).trans hpossible) fun field hfield => ?_
    rw [TypeDefinition.fields_withDeclarers] at hfield
    have hcheck := (checkType_eq_ok_iff.1 (forM_eq_ok_iff.1 htypes declared hdeclared)).1
    have harguments := (checkField_eq_ok_iff.1 (hcheck field hfield)).2
    exact fun parameter hmem => TypeSystem.known_coerceInput (harguments parameter hmem)
  · rw [settleTypes_eq_ok_iff, hcoerce, hpossible] at hsettled
    have hsame : (TypeSystem.mk draft.queryType types).coerceInput =
        (withPossibleTypes draft.typeSystem).coerceInput :=
      (coerceInput_of_coerced hsettled).trans hpossible.symm
    refine .bind (.mapM fun spec hspec => ?_) fun directives => .ok _
    have hcheck := checkDirective_eq_ok_iff.1 (forM_eq_ok_iff.1 hdirectives spec hspec)
    refine .bind (known_settleParameters ((hcoerce _).trans hsame) ?_ _)
      fun arguments => .ok _
    exact fun parameter hmem => TypeSystem.known_coerceInput (hcheck parameter hmem)

theorem knowsInput_of_declares {draft : SchemaDraft} {schema : ExecutableSchema}
    (hfinish : draft.finish = .ok schema) {parameters : List Parameter}
    (hdeclares : schema.toSchema.Declares parameters) :
    ∀ parameter ∈ parameters, schema.KnowsInput parameter.type := by
  intro parameter hmem
  obtain ⟨k, hk⟩ := List.mem_iff_getElem?.1 hmem
  cases hdeclares with
  | @field object field hobject hfield =>
    obtain ⟨i, hi⟩ := List.mem_iff_getElem?.1 hobject
    obtain ⟨j, hj⟩ := List.mem_iff_getElem?.1 hfield
    have hplace : (ParameterPlace.field i j k).find? schema.types schema.directives =
        some (.argument object.name field.name parameter.name, parameter) := by
      simp [ParameterPlace.find?, hi, hj, hk, TypeDefinition.fields, TypeDefinition.name]
    exact isInput_of_finish hfinish hplace
  | @directive spec hspec =>
    obtain ⟨i, hi⟩ := List.mem_iff_getElem?.1 hspec
    have hplace : (ParameterPlace.directive i k).find? schema.types schema.directives =
        some (.directiveArgument spec.name parameter.name, parameter) := by
      simp [ParameterPlace.find?, hi, hk]
    exact isInput_of_finish hfinish hplace

end SchemaDraft

private theorem Schema.known_coerce {schema : Schema} (htranslator : schema.translator = .standard)
    {type : TypeExpr} (htype : schema.KnowsInput type) (value : Value) :
    FailsOnly InputFault.Known (schema.coerce type value) := by
  rw [Schema.coerce, htranslator]
  exact TypeSystem.known_coerceInput htype value

private theorem VariableDefinition.known_checkType (definition : VariableDefinition)
    (system : TypeSystem) : FailsOnly ExecutionFault.Known (definition.checkType system) := by
  unfold checkType
  split
  · exact .error trivial
  · split
    · exact .ok ()
    · exact .error trivial

theorem VariableDefinition.knowsInput_of_checkType {definition : VariableDefinition}
    {system : TypeSystem} (h : definition.checkType system = .ok ()) :
    system.KnowsInput definition.type := by
  unfold checkType at h
  split at h
  · cases h
  · next found hfound =>
    split at h
    · next hinput => exact ⟨found, hfound, hinput⟩
    · cases h

theorem Variables.known_coerce {schema : Schema} (htranslator : schema.translator = .standard)
    (inputs : Variables) (definitions : List VariableDefinition) :
    FailsOnly ExecutionFault.Known (inputs.coerce schema definitions) := by
  refine .foldlM (fun values definition _ => .bind ?_ fun value => .ok _) []
  refine .bind_of_ok (definition.known_checkType _) fun _ hcheck => ?_
  have htype := VariableDefinition.knowsInput_of_checkType hcheck
  cases hcoerce : schema.coerce definition.type (definition.supplied inputs) with
  | ok value => exact .ok value
  | error source => exact .error (schema.known_coerce htranslator htype _ source hcoerce)

theorem Bindings.known_bindArguments {bindings : Bindings}
    (htranslator : bindings.schema.translator = .standard) {parameters : List Parameter}
    (hparameters : ∀ parameter ∈ parameters, bindings.schema.KnowsInput parameter.type)
    (arguments : List Argument) :
    FailsOnly ExecutionFault.Known (bindings.bindArguments parameters arguments) := by
  intro fault h
  cases unbound_bindArguments parameters arguments fault h with
  | undeclared | unknownVariable | unsupported | missing => trivial
  | @invalid parameter value source hmem hcoerce =>
    have hsource : source.Known :=
      bindings.schema.known_coerce htranslator (hparameters parameter hmem) value source hcoerce
    exact hsource

end GraphQuery
