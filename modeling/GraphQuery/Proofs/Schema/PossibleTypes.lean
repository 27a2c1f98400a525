import GraphQuery.Proofs.TypeSystem.Admits

/-!
# Possible types

Which objects the values of a type can be, by what was registered. Main statement: the possible
types of a finished schema are the object itself, the objects that declare the interface, or the
members of the union.
-/

namespace GraphQuery

/-- The object is registered to be of the type. -/
def ObjectType.Belongs (object : ObjectType) : TypeDefinition → Prop
  | .object other => object = other
  | .interface interface => interface.name ∈ object.implements
  | .union union => object.name ∈ union.members
  | .enum _ | .scalar _ => False

/-- The object is of the type of the condition. -/
def ObjectType.Satisfies (object : ObjectType) (system : TypeSystem) (condition : TypeCondition) :
    Prop :=
  ∃ type ∈ system.types, type.name = condition.name ∧ object.Belongs type

namespace SchemaDraft

variable {draft : SchemaDraft} {schema : ExecutableSchema} {object : ObjectType}

private theorem Finished.eq_of_name_eq (h : draft.Finished schema) {type other : TypeDefinition}
    (htype : type ∈ schema.types) (hother : other ∈ schema.types) (hname : type.name = other.name) :
    type = other := by
  have hfound := find?_name_of_mem h.nodup htype
  rw [hname, find?_name_of_mem h.nodup hother] at hfound
  exact (Option.some.inj hfound).symm

private theorem Finished.mem_possibleTypes_iff (h : draft.Finished schema)
    {interface : InterfaceType}
    (hinterface : .interface interface ∈ schema.types) (hobject : .object object ∈ schema.types) :
    object.name ∈ interface.possibleTypes ↔ interface.name ∈ object.implements := by
  obtain ⟨type, htype, hsettled⟩ := exists_of_mem_right h.settled hinterface
  cases hsettled with
  | interface =>
    rw [mem_declarersOf_iff]
    constructor
    · -- A declarer of the name is settled as this object, since names differ.
      rintro ⟨declarer, hdeclarer, himplements, hname⟩
      obtain ⟨settled, hmem, hdeclared⟩ := exists_of_mem_left h.settled hdeclarer
      obtain rfl := h.eq_of_name_eq hmem hobject (hdeclared.name_eq.symm.trans hname)
      cases hdeclared
      exact himplements
    · intro himplements
      obtain ⟨registered, hregistered, hdeclared⟩ := exists_of_mem_right h.settled hobject
      cases hdeclared with
      | object => exact ⟨_, hregistered, himplements, rfl⟩

/-- The objects that a type of a finished schema can be are those registered to be of it. -/
theorem isPossible_iff_belongs (hfinish : draft.finish = .ok schema) {type : TypeDefinition}
    (htype : type ∈ schema.types) (hobject : .object object ∈ schema.types) :
    schema.isPossible type.name object.name = true ↔ object.Belongs type := by
  have h := finished_of_finish hfinish
  have hget : schema.get? type.name = some type := find?_name_of_mem h.nodup htype
  rw [TypeSystem.isPossible, hget]
  simp only [List.contains_iff_mem]
  cases type with
  | object other =>
    refine List.mem_singleton.trans ⟨fun hname => ?_, congrArg ObjectType.name⟩
    exact TypeDefinition.object.inj (h.eq_of_name_eq hobject htype hname)
  | interface interface => exact h.mem_possibleTypes_iff htype hobject
  | union union => exact Iff.rfl
  | enum | scalar => exact List.mem_nil_iff _

/-- In a finished schema a fragment applies to the objects of the type of its condition. -/
theorem applies_iff_satisfies (hfinish : draft.finish = .ok schema)
    (hobject : .object object ∈ schema.types) {condition : TypeCondition} :
    schema.applies object.name condition.name = true ↔
      object.Satisfies schema.toTypeSystem condition := by
  have hwell := wellFormed_of_finish hfinish
  rw [TypeSystem.applies_eq_isPossible (hwell.object?_iff.2 hobject)]
  constructor
  · intro hpossible
    cases hget : schema.get? condition.name with
    | none => simp [TypeSystem.isPossible, hget] at hpossible
    | some type =>
      have htype : type ∈ schema.types := List.mem_of_find?_eq_some hget
      have hname : type.name = condition.name := TypeSystem.name_of_get? hget
      rw [← hname] at hpossible
      exact ⟨type, htype, hname, (isPossible_iff_belongs hfinish htype hobject).1 hpossible⟩
  · rintro ⟨type, htype, hname, hbelongs⟩
    rw [← hname]
    exact (isPossible_iff_belongs hfinish htype hobject).2 hbelongs

end SchemaDraft

end GraphQuery
