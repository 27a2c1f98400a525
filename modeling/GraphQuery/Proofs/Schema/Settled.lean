import GraphQuery.Proofs.Schema.Coerced

/-!
# Settled types

What finishing a draft does to its types: interfaces get their possible types and defaults are
coerced, while names, fields and the types of fields stay as they are registered.
-/

namespace GraphQuery

open List (Forall₂)

/-- The fields differ in their arguments at most. -/
def FieldDefinition.SameType (field other : FieldDefinition) : Prop :=
  field.name = other.name ∧ field.type = other.type

/-- What becomes of a registered type. -/
inductive TypeDefinition.Settled (registered : List TypeDefinition) :
    TypeDefinition → TypeDefinition → Prop
  | object {name implements fields fields'}
      (hfields : Forall₂ FieldDefinition.SameType fields fields') :
      Settled registered (.object ⟨name, fields, implements⟩) (.object ⟨name, fields', implements⟩)
  | interface {name possibleTypes typeResolver fields fields'}
      (hfields : Forall₂ FieldDefinition.SameType fields fields') :
      Settled registered (.interface ⟨name, fields, possibleTypes, typeResolver⟩)
        (.interface ⟨name, fields', SchemaDraft.declarersOf registered name, typeResolver⟩)
  | union {type} : Settled registered (.union type) (.union type)
  | enum {type} : Settled registered (.enum type) (.enum type)
  | scalar {type} : Settled registered (.scalar type) (.scalar type)

private theorem FieldDefinition.Coerced.sameType {coerce : InputCoercion}
    {field coerced : FieldDefinition}
    (h : field.Coerced coerce coerced) : field.SameType coerced :=
  ⟨h.name.symm, h.type.symm⟩

private theorem TypeDefinition.Coerced.settled {registered : List TypeDefinition}
    {coerce : InputCoercion}
    {type coerced : TypeDefinition} (h : type.Coerced registered coerce coerced) :
    type.Settled registered coerced := by
  cases h with
  | object hfields => exact .object (hfields.imp fun _ _ => FieldDefinition.Coerced.sameType)
  | interface hfields =>
    rw [← SchemaDraft.declarersOf_eq_flatMap]
    exact .interface (hfields.imp fun _ _ => FieldDefinition.Coerced.sameType)
  | union => exact .union
  | enum => exact .enum
  | scalar => exact .scalar

namespace SchemaDraft

/-- What an accepted draft has passed, and what the schema has of it. -/
structure Finished (draft : SchemaDraft) (schema : ExecutableSchema) : Prop where
  distinct : checkDistinct [] draft.types = .ok ()
  query : checkQueryType draft.typeSystem = .ok ()
  types : ∀ type ∈ draft.types, checkType draft.typeSystem type = .ok ()
  settled : Forall₂ (TypeDefinition.Settled draft.types) draft.types schema.types
  queryType : schema.queryType = draft.queryType
  translator : schema.translator = draft.translator
  resolvers : schema.resolvers = draft.resolvers

theorem finished_of_finish {draft : SchemaDraft} {schema : ExecutableSchema}
    (h : draft.finish = .ok schema) : draft.Finished schema := by
  simp only [finish, bind_eq_ok_iff, pure_eq_ok_iff] at h
  obtain ⟨⟨⟩, hdistinct, ⟨⟩, hquery, ⟨⟩, hchecks, ⟨⟩, -, types, htypes, directives, -, rfl⟩ := h
  have hsettled := (settleTypes_eq_ok_iff.1 htypes).imp fun _ _ => TypeDefinition.Coerced.settled
  exact ⟨hdistinct, hquery, forM_eq_ok_iff.1 hchecks, hsettled, rfl, rfl, rfl⟩

end SchemaDraft

end GraphQuery
