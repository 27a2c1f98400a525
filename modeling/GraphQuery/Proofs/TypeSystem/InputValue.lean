import GraphQuery.Proofs.Success
import GraphQuery.Proofs.TypeSystem.LeafValue
import GraphQuery.TypeSystem.Coercion

/-!
# Input values

The values that arguments and variables of a type have. Main statements: what input coercion returns
is one of the values of the type, and these are the values that it leaves as they are.
-/

namespace GraphQuery

namespace TypeSystem

variable {system : TypeSystem}

/-- The values of an input type. -/
inductive InputValue (system : TypeSystem) : TypeExpr → Value → Prop
  | null {type} (hnullable : type.nullable = true) : InputValue system type .null
  | list {item nullable items} (hitems : ∀ value ∈ items, InputValue system item value) :
      InputValue system (.list item nullable) (.list items)
  | leaf {name nullable type value} (hget : system.get? name = some type)
      (hvalue : LeafValue type value) : InputValue system (.named name nullable) value

private theorem leafValue_of_coerceScalar {scalar : ScalarType} {value result : Value}
    (hnull : value ≠ .null) (h : coerceScalar scalar value = .ok result) :
    LeafValue (.scalar scalar) result := by
  obtain ⟨name, kind⟩ := scalar
  unfold coerceScalar at h
  split at h
  · next hkind =>
    obtain rfl : kind = .custom := hkind
    exact Except.ok.inj h ▸ .custom hnull
  · next hkind =>
    obtain rfl : kind = .int := hkind
    split at h
    · next hbounds =>
      have hi := toInt32?_bounds hbounds
      exact Except.ok.inj h ▸ .int hi.1 hi.2
    · cases h
  · next hkind =>
    obtain rfl : kind = .float := hkind
    exact Except.ok.inj h ▸ .float
  · next hkind =>
    obtain rfl : kind = .string := hkind
    exact Except.ok.inj h ▸ .string
  · next hkind =>
    obtain rfl : kind = .id := hkind
    exact Except.ok.inj h ▸ .id
  · next hkind =>
    obtain rfl : kind = .id := hkind
    exact Except.ok.inj h ▸ .id
  · next hkind =>
    obtain rfl : kind = .boolean := hkind
    exact Except.ok.inj h ▸ .boolean
  · cases h

private theorem leafValue_of_coerceEnum {enum : EnumType} {value result : Value}
    (h : coerceEnum enum value = .ok result) : LeafValue (.enum enum) result := by
  have hnamed (name : String)
      (h : (if enum.values.contains name then Except.ok (Value.enum name)
        else .error (InputFault.unknownEnumValue enum.name name [])) = .ok result) :
      LeafValue (.enum enum) result := by
    split at h
    · next hname => exact Except.ok.inj h ▸ .enum (List.contains_iff_mem.1 hname)
    · cases h
  unfold coerceEnum at h
  cases value with
  | enum name | string name => exact hnamed name h
  | null | number | boolean | binary | list | object => cases h

private theorem leafValue_of_coerceNamed {name : String} {value result : Value}
    (hnull : value ≠ .null)
    (h : system.coerceNamed name value = .ok result) :
    ∃ type, system.get? name = some type ∧ LeafValue type result := by
  unfold coerceNamed at h
  split at h
  · next hget => exact ⟨_, hget, leafValue_of_coerceScalar hnull h⟩
  · next hget => exact ⟨_, hget, leafValue_of_coerceEnum h⟩
  · cases h

private theorem exists_of_coerceItems {coerce : Value → Except InputFault Value} {index : Nat}
    {values results : List Value} (h : coerceItems coerce index values = .ok results) :
    ∀ result ∈ results, ∃ value, coerce value = .ok result := by
  induction values generalizing index results with
  | nil =>
    cases h
    simp
  | cons value rest ih =>
    simp only [coerceItems, bind_eq_ok_iff, mapError_eq_ok_iff, pure_eq_ok_iff] at h
    obtain ⟨first, hfirst, more, hmore, rfl⟩ := h
    exact List.forall_mem_cons.2 ⟨⟨value, hfirst⟩, ih hmore⟩

/-- A coerced value is a value of its type. -/
theorem inputValue_of_coerceInput {type : TypeExpr} {value result : Value}
    (h : system.coerceInput type value = .ok result) : system.InputValue type result := by
  induction type generalizing value result with
  | named name nullable =>
    unfold coerceInput at h
    split at h
    · split at h
      · next hnullable => exact Except.ok.inj h ▸ .null hnullable
      · cases h
    · next hnull =>
      obtain ⟨type, hget, hvalue⟩ := leafValue_of_coerceNamed hnull h
      exact .leaf hget hvalue
  | list item nullable ih =>
    unfold coerceInput at h
    split at h
    · split at h
      · next hnullable => exact Except.ok.inj h ▸ .null hnullable
      · cases h
    · obtain ⟨items, hitems, rfl⟩ := map_eq_ok_iff.1 h
      refine .list fun result hresult => ?_
      obtain ⟨value, hvalue⟩ := exists_of_coerceItems hitems result hresult
      exact ih hvalue
    · simp only [bind_eq_ok_iff, pure_eq_ok_iff] at h
      obtain ⟨single, hsingle, rfl⟩ := h
      exact .list (List.forall_mem_singleton.2 (ih hsingle))

theorem eq_leaf_iff_of_not_leaf {type other leaf : TypeDefinition} (htype : type.isLeaf = false)
    (hother : other.isLeaf = false) (hleaf : leaf.isLeaf = true) : type = leaf ↔ other = leaf := by
  constructor
  · rintro rfl
    cases htype.symm.trans hleaf
  · rintro rfl
    cases hother.symm.trans hleaf

/-- Coercion looks up the leaf types only. -/
theorem coerceInput_of_leaves {other : TypeSystem}
    (hleaves : ∀ name type, type.isLeaf = true →
      (system.get? name = some type ↔ other.get? name = some type)) :
    system.coerceInput = other.coerceInput := by
  have hnamed (name : String) (value : Value) :
      system.coerceNamed name value = other.coerceNamed name value := by
    unfold coerceNamed
    split
    · next scalar hget => rw [(hleaves name (.scalar scalar) rfl).1 hget]
    · next enum hget => rw [(hleaves name (.enum enum) rfl).1 hget]
    · next hscalar henum =>
      split
      · next scalar hget =>
        exact absurd ((hleaves name (.scalar scalar) rfl).2 hget) (hscalar scalar)
      · next enum hget => exact absurd ((hleaves name (.enum enum) rfl).2 hget) (henum enum)
      · rfl
  funext type value
  induction type generalizing value with
  | named name nullable => simp only [coerceInput, hnamed]
  | list item nullable ih =>
    have hitem : system.coerceInput item = other.coerceInput item := funext ih
    simp only [coerceInput, hitem]

theorem LeafValue.ne_null {type : TypeDefinition} {value : Value} (h : LeafValue type value) :
    value ≠ .null := by
  cases h with
  | custom hvalue => exact hvalue
  | enum | int | float | string | id | boolean => exact nofun

theorem coerceNamed_of_leafValue {name : String} {type : TypeDefinition} {value : Value}
    (hget : system.get? name = some type) (h : LeafValue type value) :
    system.coerceNamed name value = .ok value := by
  unfold coerceNamed
  rw [hget]
  cases h with
  | @enum enum name hname =>
    have hcontains : enum.values.contains name = true := List.contains_iff_mem.2 hname
    simp only [coerceEnum, hcontains, if_true]
  | int hlow hhigh => simp only [coerceScalar, Number.toInt32?, hlow, hhigh, and_self, if_true]
  | float | string | id | boolean => rfl
  | custom => simp only [coerceScalar]

theorem coerceItems_map {coerce : Value → Except InputFault Value} {f : Value → Value}
    {values : List Value} (h : ∀ value ∈ values, coerce (f value) = .ok value) (index : Nat) :
    coerceItems coerce index (values.map f) = .ok values := by
  induction values generalizing index with
  | nil => rfl
  | cons value rest ih =>
    rw [List.forall_mem_cons] at h
    rw [List.map_cons, coerceItems, h.1, ih h.2]
    rfl

private theorem coerceItems_of_forall {coerce : Value → Except InputFault Value}
    {values : List Value}
    (h : ∀ value ∈ values, coerce value = .ok value) (index : Nat) :
    coerceItems coerce index values = .ok values := by
  simpa only [List.map_id] using coerceItems_map (f := id) h index

/-- A value of a type is coerced into itself. -/
theorem InputValue.coerceInput_eq {type : TypeExpr} {value : Value}
    (h : system.InputValue type value) : system.coerceInput type value = .ok value := by
  induction h with
  | @null type hnullable =>
    cases type with
    | named name nullable => exact if_pos hnullable
    | list item nullable => exact if_pos hnullable
  | @list item nullable items _ ih =>
    simp only [coerceInput, coerceItems_of_forall ih]
    rfl
  | @leaf name nullable type value hget hvalue =>
    unfold coerceInput
    split
    · exact absurd rfl hvalue.ne_null
    · exact coerceNamed_of_leafValue hget hvalue

/-- The values that coercion leaves as they are, and the values that it returns, are both the values
of the type: coercing what was coerced before changes nothing. -/
theorem coerceInput_normalises (system : TypeSystem) (type : TypeExpr) (value : Value) :
    (system.coerceInput type value = .ok value ↔ system.InputValue type value) ∧
      ((∃ origin, system.coerceInput type origin = .ok value) ↔ system.InputValue type value) ∧
      (do system.coerceInput type (← system.coerceInput type value)) =
        system.coerceInput type value := by
  have hfixed : system.coerceInput type value = .ok value ↔ system.InputValue type value :=
    ⟨inputValue_of_coerceInput, InputValue.coerceInput_eq⟩
  have himage : (∃ origin, system.coerceInput type origin = .ok value) ↔
      system.InputValue type value := by
    constructor
    · intro ⟨origin, horigin⟩
      exact inputValue_of_coerceInput horigin
    · intro hvalue
      exact ⟨value, hvalue.coerceInput_eq⟩
  have htwice : (do system.coerceInput type (← system.coerceInput type value)) =
      system.coerceInput type value := by
    cases hcoerced : system.coerceInput type value with
    | error fault => rfl
    | ok result => exact (inputValue_of_coerceInput hcoerced).coerceInput_eq
  exact ⟨hfixed, himage, htwice⟩

end TypeSystem

end GraphQuery
