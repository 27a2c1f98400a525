import GraphQuery.Proofs.Schema.Checks
import GraphQuery.Proofs.Schema.Settled

/-!
# Well-formed type systems

What the execution of requests may assume of the types of a schema. Main statement: the types of a
schema that was finished are well-formed.
-/

namespace GraphQuery

namespace TypeSystem

structure WellFormed (system : TypeSystem) : Prop where
  /-- Types are found under their names. -/
  unique : ∀ type ∈ system.types, system.get? type.name = some type
  /-- The types of fields are known. -/
  known : ∀ type ∈ system.types, ∀ field ∈ type.fields,
    ∃ found, system.innermost? field.type = some found
  /-- The possible types of interfaces are objects that have their fields. -/
  declared : ∀ interface, .interface interface ∈ system.types →
    ∀ name ∈ interface.possibleTypes, ∃ object, system.object? name = some object ∧
      ∀ field ∈ interface.fields, (object.field? field.name).isSome
  /-- The members of unions are objects. -/
  members : ∀ union, .union union ∈ system.types →
    ∀ name ∈ union.members, ∃ object, system.object? name = some object
  /-- Queries start at an object. -/
  query : ∃ object, system.query? = some object

end TypeSystem

namespace TypeDefinition

variable {registered : List TypeDefinition} {type settled : TypeDefinition}

theorem Settled.name_eq (h : type.Settled registered settled) : type.name = settled.name := by
  cases h <;> rfl

private theorem Settled.fields (h : type.Settled registered settled) :
    List.Forall₂ FieldDefinition.SameType type.fields settled.fields := by
  cases h with
  | object hfields | interface hfields => exact hfields
  | union | enum | scalar => exact .nil

private theorem Settled.field? (h : type.Settled registered settled) (name : String) :
    Option.Rel FieldDefinition.SameType (type.field? name) (settled.field? name) :=
  rel_find? h.fields fun _ _ hsame => by rw [hsame.1]

private theorem Settled.isSome_field? {object settled : ObjectType}
    (h : (TypeDefinition.object object).Settled registered (.object settled)) {name : String}
    (hname : (object.field? name).isSome) : (settled.field? name).isSome := by
  obtain ⟨field, hfield⟩ := Option.isSome_iff_exists.1 hname
  have hfields := h.field? name
  rw [show (TypeDefinition.object object).field? name = some field from hfield] at hfields
  obtain ⟨other, hother, -⟩ := exists_of_rel_some hfields
  exact Option.isSome_iff_exists.2 ⟨other, hother⟩

end TypeDefinition

namespace SchemaDraft

variable {draft : SchemaDraft} {schema : ExecutableSchema}

theorem mem_declarersOf_iff {types : List TypeDefinition} {interface name : String} :
    name ∈ declarersOf types interface ↔
      ∃ object, .object object ∈ types ∧ interface ∈ object.implements ∧ object.name = name := by
  unfold declarersOf
  rw [List.mem_flatMap]
  constructor
  · rintro ⟨type, htype, hname⟩
    cases type with
    | object object =>
      obtain ⟨other, hother, rfl⟩ := List.mem_map.1 hname
      obtain ⟨hmem, heq⟩ := List.mem_filter.1 hother
      exact ⟨object, htype, eq_of_beq heq ▸ hmem, rfl⟩
    | interface | union | enum | scalar => cases hname
  · rintro ⟨object, hobject, hmem, rfl⟩
    exact ⟨.object object, hobject, List.mem_map.2 ⟨interface, List.mem_filter.2
      ⟨hmem, beq_self_eq_true _⟩, rfl⟩⟩

namespace Finished

theorem get? (h : draft.Finished schema) (name : String) :
    Option.Rel (TypeDefinition.Settled draft.types) (draft.typeSystem.get? name)
      (schema.get? name) :=
  rel_find? h.settled fun _ _ hsettled => by rw [hsettled.name_eq]

private theorem object? (h : draft.Finished schema) {name : String} {object : ObjectType}
    (hobject : draft.typeSystem.object? name = some object) :
    ∃ settled, schema.object? name = some settled ∧
      (TypeDefinition.object object).Settled draft.types (.object settled) := by
  have hrel := h.get? name
  unfold TypeSystem.object? at hobject ⊢
  split at hobject
  · next type hget =>
    obtain rfl := Option.some.inj hobject
    rw [hget] at hrel
    obtain ⟨settled, hsettled, hrel⟩ := exists_of_rel_some hrel
    cases hrel with
    | object hfields => exact ⟨_, by rw [hsettled], .object hfields⟩
  · cases hobject

theorem nodup (h : draft.Finished schema) : (schema.types.map TypeDefinition.name).Nodup := by
  have hnames : draft.types.map TypeDefinition.name = schema.types.map TypeDefinition.name :=
    List.forall₂_eq_eq_eq ▸ List.forall₂_map_left_iff.2 (List.forall₂_map_right_iff.2
      (h.settled.imp fun _ _ => TypeDefinition.Settled.name_eq))
  exact hnames ▸ (checkDistinct_eq_ok_iff.1 h.distinct).1

private theorem known (h : draft.Finished schema) {type : TypeDefinition}
    (hmem : type ∈ draft.types)
    {field : FieldDefinition} (hfield : field ∈ type.fields) :
    ∃ found, draft.typeSystem.innermost? field.type = some found := by
  have hfields := (checkType_eq_ok_iff.1 (h.types type hmem)).1
  exact (checkField_eq_ok_iff.1 (hfields field hfield)).1

private theorem implements (h : draft.Finished schema) {object : ObjectType}
    (hmem : .object object ∈ draft.types) {name : String} (hname : name ∈ object.implements) :
    ∃ interface, draft.typeSystem.get? name = some (.interface interface) ∧
      ∀ field ∈ interface.fields, (object.field? field.name).isSome := by
  have himplements := (checkType_eq_ok_iff.1 (h.types _ hmem)).2.1 object rfl
  exact checkImplements_eq_ok_iff.1 (himplements name hname)

private theorem members (h : draft.Finished schema) {union : UnionType}
    (hmem : .union union ∈ draft.types) {name : String} (hname : name ∈ union.members) :
    ∃ object, draft.typeSystem.object? name = some object := by
  have hmembers := (checkType_eq_ok_iff.1 (h.types _ hmem)).2.2 union rfl
  exact checkMember_eq_ok_iff.1 (hmembers name hname)

end Finished

theorem wellFormed_of_finish (hfinish : draft.finish = .ok schema) :
    schema.toTypeSystem.WellFormed := by
  have h := finished_of_finish hfinish
  constructor
  case unique => exact fun type hmem => find?_name_of_mem h.nodup hmem
  case known =>
    intro settled hsettled field hfield
    obtain ⟨type, htype, hrel⟩ := exists_of_mem_right h.settled hsettled
    obtain ⟨original, horiginal, hsame⟩ := exists_of_mem_right hrel.fields hfield
    obtain ⟨found, hfound⟩ := h.known htype horiginal
    have hget := h.get? original.type.innermost
    rw [show draft.typeSystem.get? original.type.innermost = some found from hfound] at hget
    obtain ⟨other, hother, -⟩ := exists_of_rel_some hget
    exact ⟨other, hsame.2 ▸ hother⟩
  case declared =>
    intro settled hsettled name hname
    obtain ⟨type, htype, hrel⟩ := exists_of_mem_right h.settled hsettled
    have hdraft := (checkDistinct_eq_ok_iff.1 h.distinct).1
    cases hrel with
    | @interface _ _ _ fields _ hfields =>
      obtain ⟨object, hobject, himplements, rfl⟩ := mem_declarersOf_iff.1 hname
      obtain ⟨interface, hget, hall⟩ := h.implements hobject himplements
      obtain rfl := TypeDefinition.interface.inj
        (Option.some.inj ((find?_name_of_mem hdraft htype).symm.trans hget))
      have hfound : draft.typeSystem.object? object.name = some object := by
        have hself : draft.typeSystem.get? object.name = some (.object object) :=
          find?_name_of_mem hdraft hobject
        rw [TypeSystem.object?, hself]
      obtain ⟨other, hother, hrel⟩ := h.object? hfound
      refine ⟨other, hother, fun field hfield => ?_⟩
      obtain ⟨original, horiginal, hsame⟩ := exists_of_mem_right hfields hfield
      exact hsame.1 ▸ hrel.isSome_field? (hall original horiginal)
  case members =>
    intro settled hsettled name hname
    obtain ⟨type, htype, hrel⟩ := exists_of_mem_right h.settled hsettled
    cases hrel with
    | union =>
      obtain ⟨object, hobject⟩ := h.members htype hname
      obtain ⟨other, hother, -⟩ := h.object? hobject
      exact ⟨other, hother⟩
  case query =>
    obtain ⟨object, hobject⟩ := checkQueryType_eq_ok_iff.1 h.query
    obtain ⟨other, hother, -⟩ := h.object? hobject
    exact ⟨other, by rw [TypeSystem.query?, h.queryType]; exact hother⟩

end SchemaDraft

end GraphQuery
