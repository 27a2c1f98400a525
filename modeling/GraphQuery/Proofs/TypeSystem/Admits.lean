import GraphQuery.Proofs.Schema.WellFormed

/-!
# Objects of a type

Which objects the values of a type can be. Main statements: an object has the fields of every type
that admits it, two types overlap exactly if some object is of both, and the types that overlap an
object are those whose fragments apply to it.
-/

namespace GraphQuery

namespace TypeSystem

/-- The object is one of those that values of the type can be. -/
def Admits (system : TypeSystem) (object : ObjectType) (type : TypeDefinition) : Prop :=
  system.get? type.name = some type ∧ object.name ∈ type.possibleTypes

variable {system : TypeSystem} {object : ObjectType}

theorem object?_name {name : String} (hobject : system.object? name = some object) :
    system.object? object.name = some object := by
  have hname : object.name = name := name_of_get? (object?_eq_some_iff.1 hobject)
  rw [hname, hobject]

theorem WellFormed.object?_iff (hwell : system.WellFormed) :
    system.object? object.name = some object ↔ .object object ∈ system.types :=
  ⟨mem_of_object?, fun hmem => object?_eq_some_iff.2 (hwell.unique _ hmem)⟩

theorem admits_self (hobject : system.object? object.name = some object) :
    system.Admits object (.object object) :=
  ⟨object?_eq_some_iff.1 hobject, List.mem_singleton.2 rfl⟩

theorem admits_of_isPossible {type : TypeDefinition} {name : String}
    (hget : system.get? name = some type) (hpossible : system.isPossible name object.name = true) :
    system.Admits object type := by
  have hname := name_of_get? hget
  rw [isPossible, hget] at hpossible
  exact ⟨by rw [hname, hget], List.contains_iff_mem.1 hpossible⟩

/-- An object is of the type of its own name anyway, so comparing the names only saves a lookup. -/
theorem applies_eq_isPossible (hobject : system.object? object.name = some object)
    (condition : String) :
    system.applies object.name condition = system.isPossible condition object.name := by
  rw [applies, Bool.or_eq_right_iff_imp, beq_iff_eq]
  rintro rfl
  rw [isPossible, object?_eq_some_iff.1 hobject]
  exact List.contains_iff_mem.2 (List.mem_singleton.2 rfl)

theorem admits_of_applies (hobject : system.object? object.name = some object)
    {type : TypeDefinition} {condition : String} (hget : system.get? condition = some type)
    (happlies : system.applies object.name condition = true) : system.Admits object type := by
  rw [applies_eq_isPossible hobject] at happlies
  exact admits_of_isPossible hget happlies

theorem Admits.has_field (hwell : system.WellFormed)
    (hobject : system.object? object.name = some object) {type : TypeDefinition}
    (hadmits : system.Admits object type) {name : String} {declared : FieldDefinition}
    (hdeclared : type.field? name = some declared) : ∃ own, object.field? name = some own := by
  obtain ⟨hget, hmem⟩ := hadmits
  cases type with
  | object other =>
    have hname : object.name = other.name := List.mem_singleton.1 hmem
    have hother := object?_eq_some_iff.2 hget
    rw [TypeDefinition.name, ← hname, hobject] at hother
    obtain rfl := Option.some.inj hother
    exact ⟨declared, hdeclared⟩
  | interface interface =>
    have hregistered := List.mem_of_find?_eq_some hget
    obtain ⟨found, hfound, hfields⟩ := hwell.declared interface hregistered object.name hmem
    obtain rfl := Option.some.inj (hfound.symm.trans hobject)
    have hhas := hfields declared (List.mem_of_find?_eq_some hdeclared)
    have hnamed : declared.name = name := by simpa using List.find?_some hdeclared
    exact Option.isSome_iff_exists.1 (hnamed ▸ hhas)
  | union | enum | scalar => cases hdeclared

/-- Some object is of both types. -/
def Meet (system : TypeSystem) (type other : TypeDefinition) : Prop :=
  ∃ object, system.object? object.name = some object ∧
    object.name ∈ type.possibleTypes ∧ object.name ∈ other.possibleTypes

private theorem WellFormed.exists_object (hwell : system.WellFormed) {type : TypeDefinition}
    (hget : system.get? type.name = some type) {name : String} (hname : name ∈ type.possibleTypes) :
    ∃ object, system.object? name = some object := by
  have hmem := List.mem_of_find?_eq_some hget
  cases type with
  | object object =>
    obtain rfl : name = object.name := List.mem_singleton.1 hname
    exact ⟨object, object?_eq_some_iff.2 hget⟩
  | interface interface =>
    obtain ⟨object, hobject, -⟩ := hwell.declared interface hmem name hname
    exact ⟨object, hobject⟩
  | union union => exact hwell.members union hmem name hname
  | enum | scalar => cases hname

theorem overlap_iff_meet (hwell : system.WellFormed) {type other : TypeDefinition}
    (hget : system.get? type.name = some type) (hother : system.get? other.name = some other) :
    system.overlap type.name other.name = true ↔ system.Meet type other := by
  rw [overlap, hget, hother]
  simp only [List.any_eq_true, List.contains_iff_mem]
  constructor
  · rintro ⟨name, htype, hboth⟩
    obtain ⟨object, hobject⟩ := hwell.exists_object hget htype
    obtain rfl : object.name = name := name_of_get? (object?_eq_some_iff.1 hobject)
    exact ⟨object, hobject, htype, hboth⟩
  · rintro ⟨object, -, htype, hboth⟩
    exact ⟨object.name, htype, hboth⟩

theorem overlap_comm (system : TypeSystem) (a b : String) :
    system.overlap a b = system.overlap b a := by
  unfold overlap
  cases system.get? a with
  | none => cases system.get? b <;> rfl
  | some type =>
    cases system.get? b with
    | none => rfl
    | some other =>
      rw [Bool.eq_iff_iff]
      simp only [List.any_eq_true, List.contains_iff_mem, and_comm]

theorem overlap_eq_applies (hobject : system.object? object.name = some object) (other : String) :
    system.overlap object.name other = system.applies object.name other := by
  rw [applies_eq_isPossible hobject, overlap, isPossible, object?_eq_some_iff.1 hobject]
  cases system.get? other with
  | none => rfl
  | some type => exact Bool.or_false _

/-- Types overlap exactly if a fragment on one of them applies to an object of the other. -/
theorem overlap_iff_exists_applies (hwell : system.WellFormed) {type other : TypeDefinition}
    (hget : system.get? type.name = some type) (hother : system.get? other.name = some other) :
    system.overlap type.name other.name = true ↔
      ∃ object, system.object? object.name = some object ∧
        system.isPossible type.name object.name = true ∧
        system.applies object.name other.name = true := by
  rw [overlap_iff_meet hwell hget hother]
  refine exists_congr fun object => and_congr_right fun hobject => ?_
  rw [applies_eq_isPossible hobject, isPossible, isPossible, hget, hother]
  exact and_congr List.contains_iff_mem.symm List.contains_iff_mem.symm

end TypeSystem

end GraphQuery
