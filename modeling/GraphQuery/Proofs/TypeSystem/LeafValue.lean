import GraphQuery.TypeSystem.Leaf

/-!
# Leaf values

The values that scalars and enums have in a response. Main statement: what is serialized for a
leaf type is one of its values.
-/

namespace GraphQuery

namespace TypeSystem

/-- The values of a leaf type. -/
inductive LeafValue : TypeDefinition → Value → Prop
  | enum {enum name} (hname : name ∈ enum.values) : LeafValue (.enum enum) (.enum name)
  | int {name i} (hlow : -0x80000000 ≤ i) (hhigh : i < 0x80000000) :
      LeafValue (.scalar ⟨name, .int⟩) (.number (.int i))
  | float {name x} : LeafValue (.scalar ⟨name, .float⟩) (.number (.float x))
  | string {name s} : LeafValue (.scalar ⟨name, .string⟩) (.string s)
  | id {name s} : LeafValue (.scalar ⟨name, .id⟩) (.string s)
  | boolean {name b} : LeafValue (.scalar ⟨name, .boolean⟩) (.boolean b)
  | custom {name value} (hvalue : value ≠ .null) : LeafValue (.scalar ⟨name, .custom⟩) value

theorem toInt32?_bounds {n : Number} {i : Int} (h : n.toInt32? = some i) :
    -0x80000000 ≤ i ∧ i < 0x80000000 := by
  cases n with
  | float x => cases h
  | int m =>
    simp only [Number.toInt32?] at h
    split at h
    · next hbounds => exact Option.some.inj h ▸ hbounds
    · cases h

private theorem ofJson_ne_null {value : Json} (hnull : value.isNull = false) :
    Value.ofJson value ≠ .null := by
  cases value with
  | null => cases hnull
  | bool | number | string | array | object => simp [Value.ofJson]

private theorem leafValue_of_scalarLeaf? {scalar : ScalarType} {value : Json} {result : Value}
    (hnull : value.isNull = false) (h : scalarLeaf? scalar.kind value = some result) :
    LeafValue (.scalar scalar) result := by
  obtain ⟨name, kind⟩ := scalar
  cases kind with
  | custom =>
    obtain rfl : Value.ofJson value = result := Option.some.inj h
    exact .custom (ofJson_ne_null hnull)
  | int =>
    cases value with
    | number n =>
      obtain ⟨i, hi, rfl⟩ := Option.map_eq_some_iff.1 h
      exact .int (toInt32?_bounds hi).1 (toInt32?_bounds hi).2
    | null | bool | string | array | object => cases h
  | float =>
    cases value with
    | number n =>
      cases h
      exact .float
    | null | bool | string | array | object => cases h
  | string =>
    cases value with
    | string | bool | number =>
      cases h
      exact .string
    | null | array | object => cases h
  | id =>
    cases value with
    | string | number =>
      cases h
      exact .id
    | null | bool | array | object => cases h
  | boolean =>
    cases value with
    | bool b =>
      cases h
      exact .boolean
    | null | number | string | array | object => cases h

private theorem leafValue_of_enumLeaf? {enum : EnumType} {value : Json} {result : Value}
    (h : enumLeaf? enum value = some result) : LeafValue (.enum enum) result := by
  unfold enumLeaf? at h
  obtain ⟨name, -, h⟩ := Option.bind_eq_some_iff.1 h
  split at h
  · next hname => exact Option.some.inj h ▸ .enum (List.contains_iff_mem.1 hname)
  · cases h

theorem scalarLeaf?_of_serializeLeaf {scalar : ScalarType} {value : Json} {result : Value}
    (h : serializeLeaf (.scalar scalar) value = .ok result) :
    scalarLeaf? scalar.kind value = some result := by
  unfold serializeLeaf at h
  cases hleaf : scalarLeaf? scalar.kind value with
  | none => simp [hleaf] at h
  | some leaf =>
    simp only [hleaf, Option.map_some, Option.getD_some, Except.ok.injEq] at h
    rw [h]

theorem leafValue_of_serializeLeaf {type : TypeDefinition} {value : Json} {result : Value}
    (hnull : value.isNull = false) (h : serializeLeaf type value = .ok result) :
    LeafValue type result := by
  cases type with
  | object | interface | union => cases h
  | enum enum =>
    unfold serializeLeaf at h
    cases hleaf : enumLeaf? enum value with
    | none => simp [hleaf] at h
    | some leaf =>
      simp only [hleaf, Option.map_some, Option.getD_some, Except.ok.injEq] at h
      exact h ▸ leafValue_of_enumLeaf? hleaf
  | scalar scalar => exact leafValue_of_scalarLeaf? hnull (scalarLeaf?_of_serializeLeaf h)

end TypeSystem

end GraphQuery
