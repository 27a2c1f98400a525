import GraphQuery.Proofs.Success
import GraphQuery.TypeSystem.Coercion

/-!
# First faults

Where in a value its coercion stopped. Main statement: the indices of a fault lead through nested
lists to a value that has the same fault on its own, and coercion accepts every item before the ones
on the way.
-/

namespace GraphQuery

namespace InputFault

/-- The indices of a fault that lies in a value, `none` for the other faults. -/
def path? : InputFault → Option (List Nat)
  | .unexpectedNull _ path => some path
  | .wrongScalarKind _ _ path => some path
  | .wrongScalarValue _ _ path => some path
  | .wrongEnumKind _ _ path => some path
  | .unknownEnumValue _ _ path => some path
  | .unknownInputType _ path => some path
  | _ => none

/-- The fault of the offending value when no list is around it. -/
def alone : InputFault → InputFault
  | .unexpectedNull expected _ => .unexpectedNull expected []
  | .wrongScalarKind actual expected _ => .wrongScalarKind actual expected []
  | .wrongScalarValue actual expected _ => .wrongScalarValue actual expected []
  | .wrongEnumKind enum actual _ => .wrongEnumKind enum actual []
  | .unknownEnumValue enum value _ => .unknownEnumValue enum value []
  | .unknownInputType name _ => .unknownInputType name []
  | fault => fault

@[simp] theorem path?_atIndex (index : Nat) (fault : InputFault) :
    (fault.atIndex index).path? = fault.path?.map (index :: ·) := by
  cases fault <;> rfl

@[simp] theorem alone_atIndex (index : Nat) (fault : InputFault) :
    (fault.atIndex index).alone = fault.alone := by
  cases fault <;> rfl

private theorem alone_eq_self {fault : InputFault} (h : fault.path? = some []) :
    fault.alone = fault := by
  cases fault <;> simp_all [path?, alone]

private theorem path?_alone {fault : InputFault} {path : List Nat} (h : fault.path? = some path) :
    fault.alone.path? = some [] := by
  cases fault <;> simp_all [path?, alone]

end InputFault

/-- The value to which indices lead through nested lists, the outermost first. -/
def Value.itemAt? : List Nat → Value → Option Value
  | [], value => some value
  | index :: path, .list items => items[index]?.bind (Value.itemAt? path)
  | _ :: _, _ => none

/-- The type of the items that lie so many lists deep. -/
def TypeExpr.items? : Nat → TypeExpr → Option TypeExpr
  | 0, type => some type
  | depth + 1, .list item _ => TypeExpr.items? depth item
  | _ + 1, .named _ _ => none

namespace TypeSystem

variable {system : TypeSystem}

/-- `path` leads to the first value inside `value` at which coercion stops. -/
structure FirstRefused (system : TypeSystem) (type : TypeExpr) (value : Value) (fault : InputFault)
    (path : List Nat) : Prop where
  located : fault.path? = some path
  alone : fault.alone.path? = some []
  offending : ∃ inner item, TypeExpr.items? path.length type = some inner ∧
    value.itemAt? path = some item ∧ system.coerceInput inner item = .error fault.alone
  earlier : ∀ before index after, path = before ++ index :: after →
    ∃ inner nullable items,
      TypeExpr.items? before.length type = some (.list inner nullable) ∧
        value.itemAt? before = some (.list items) ∧ index < items.length ∧
        ∀ item ∈ items.take index, ∃ result, system.coerceInput inner item = .ok result

private theorem FirstRefused.here {type : TypeExpr} {value : Value} {fault : InputFault}
    (h : system.coerceInput type value = .error fault) (hpath : fault.path? = some []) :
    system.FirstRefused type value fault [] where
  located := hpath
  alone := InputFault.path?_alone hpath
  offending := by
    have halone : fault.alone = fault := InputFault.alone_eq_self hpath
    rw [halone]
    exact ⟨type, value, rfl, rfl, h⟩
  earlier := by
    intro before index after hsplit
    simp at hsplit

private theorem FirstRefused.atIndex {item : TypeExpr} {nullable : Bool} {items : List Value}
    {index : Nat} {value : Value} {fault : InputFault} {path : List Nat}
    (hvalue : items[index]? = some value)
    (hearlier : ∀ earlier ∈ items.take index,
      ∃ result, system.coerceInput item earlier = .ok result)
    (h : system.FirstRefused item value fault path) :
    system.FirstRefused (.list item nullable) (.list items) (fault.atIndex index) (index :: path)
    where
  located := by simp [h.located]
  alone := by simpa using h.alone
  offending := by
    obtain ⟨inner, offender, hinner, hoffender, herror⟩ := h.offending
    refine ⟨inner, offender, hinner, ?_, ?_⟩
    · simp [Value.itemAt?, hvalue, hoffender]
    · simpa using herror
  earlier := by
    intro before next after hsplit
    cases before with
    | nil =>
      obtain ⟨rfl, rfl⟩ : index = next ∧ path = after := by simpa using hsplit
      have hlength : index < items.length := (List.getElem?_eq_some_iff.1 hvalue).1
      exact ⟨item, nullable, items, rfl, rfl, hlength, hearlier⟩
    | cons first before =>
      obtain ⟨rfl, rfl⟩ : index = first ∧ path = before ++ next :: after := by simpa using hsplit
      obtain ⟨inner, nullable', within, hinner, hwithin, hlength, hbefore⟩ :=
        h.earlier before next after rfl
      refine ⟨inner, nullable', within, hinner, ?_, hlength, hbefore⟩
      simp [Value.itemAt?, hvalue, hwithin]

theorem coerceScalar_error {scalar : ScalarType} {value : Value} {fault : InputFault}
    (h : coerceScalar scalar value = .error fault) :
    (∃ text, fault = .wrongScalarValue text scalar.name []) ∨
      fault = .wrongScalarKind value.kind scalar.name [] := by
  unfold coerceScalar at h
  split at h
  · cases h
  · split at h
    · cases h
    · cases h
      exact .inl ⟨_, rfl⟩
  · cases h
  · cases h
  · cases h
  · cases h
  · cases h
  · cases h
    exact .inr rfl

theorem coerceEnum_error {enum : EnumType} {value : Value} {fault : InputFault}
    (h : coerceEnum enum value = .error fault) :
    (∃ name, fault = .unknownEnumValue enum.name name []) ∨
      fault = .wrongEnumKind enum.name value.kind [] := by
  unfold coerceEnum at h
  cases value with
  | enum name | string name =>
    by_cases hname : enum.values.contains name = true
    · simp only [hname, if_true] at h
      cases h
    · simp only [hname] at h
      cases h
      exact .inl ⟨name, rfl⟩
  | null | number | boolean | binary | list | object =>
    cases h
    exact .inr rfl

private theorem path?_of_coerceNamed {name : String} {value : Value} {fault : InputFault}
    (h : system.coerceNamed name value = .error fault) : fault.path? = some [] := by
  unfold coerceNamed at h
  split at h
  · obtain ⟨_, rfl⟩ | rfl := coerceScalar_error h <;> rfl
  · obtain ⟨_, rfl⟩ | rfl := coerceEnum_error h <;> rfl
  · cases h
    rfl

private theorem path?_of_coerceInput_named {name : String} {nullable : Bool} {value : Value}
    {fault : InputFault} (h : system.coerceInput (.named name nullable) value = .error fault) :
    fault.path? = some [] := by
  unfold coerceInput at h
  split at h
  · split at h
    · cases h
    · cases h
      rfl
  · exact path?_of_coerceNamed h

private theorem path?_of_coerceInput {type : TypeExpr} {value : Value} {fault : InputFault}
    (hvalue : ∀ items, value ≠ .list items) (h : system.coerceInput type value = .error fault) :
    fault.path? = some [] := by
  induction type with
  | named name nullable => exact path?_of_coerceInput_named h
  | list item nullable ih =>
    unfold coerceInput at h
    split at h
    · split at h
      · cases h
      · cases h
        rfl
    · next items => exact absurd rfl (hvalue items)
    · obtain hsingle | ⟨single, -, hpure⟩ := bind_eq_error_iff.1 h
      · exact ih hsingle
      · cases hpure

theorem exists_of_coerceItems_error {coerce : Value → Except InputFault Value} {start : Nat}
    {values : List Value} {fault : InputFault}
    (h : coerceItems coerce start values = .error fault) :
    ∃ index value source, values[index]? = some value ∧ coerce value = .error source ∧
      fault = source.atIndex (start + index) ∧
      ∀ earlier ∈ values.take index, ∃ result, coerce earlier = .ok result := by
  induction values generalizing start with
  | nil => cases h
  | cons value rest ih =>
    rw [coerceItems] at h
    obtain hfirst | ⟨result, hresult, hmore⟩ := bind_eq_error_iff.1 h
    · obtain ⟨source, hsource, hfault⟩ := mapError_eq_error_iff.1 hfirst
      refine ⟨0, value, source, rfl, hsource, hfault.symm, ?_⟩
      simp
    · have hvalue : coerce value = .ok result := mapError_eq_ok_iff.1 hresult
      have hrest : coerceItems coerce (start + 1) rest = .error fault := by
        obtain hrest | ⟨results, -, hpure⟩ := bind_eq_error_iff.1 hmore
        · exact hrest
        · cases hpure
      obtain ⟨index, offender, source, hoffender, hsource, hfault, hearlier⟩ := ih hrest
      have hindex : start + 1 + index = start + (index + 1) := by omega
      refine ⟨index + 1, offender, source, hoffender, hsource, ?_, ?_⟩
      · rw [hfault, hindex]
      · rw [List.take_succ_cons, List.forall_mem_cons]
        exact ⟨⟨result, hvalue⟩, hearlier⟩

/-- A failed coercion tells where the first value lies that it refuses. -/
theorem firstRefused_of_coerceInput {type : TypeExpr} {value : Value} {fault : InputFault}
    (h : system.coerceInput type value = .error fault) :
    ∃ path, system.FirstRefused type value fault path := by
  induction type generalizing value fault with
  | named name nullable => exact ⟨[], .here h (path?_of_coerceInput_named h)⟩
  | list item nullable ih =>
    by_cases hlist : ∃ items, value = .list items
    · obtain ⟨items, rfl⟩ := hlist
      have hitems : coerceItems (system.coerceInput item) 0 items = .error fault := by
        rw [coerceInput] at h
        exact map_eq_error_iff.1 h
      obtain ⟨index, offender, source, hoffender, hsource, rfl, hearlier⟩ :=
        exists_of_coerceItems_error hitems
      obtain ⟨path, hpath⟩ := ih hsource
      rw [Nat.zero_add]
      exact ⟨index :: path, hpath.atIndex hoffender hearlier⟩
    · have hpath : fault.path? = some [] :=
        path?_of_coerceInput (fun items hitems => hlist ⟨items, hitems⟩) h
      exact ⟨[], .here h hpath⟩

/-- In lists of lists of integers, the second item of the second list is no integer. -/
theorem firstRefused_in_nested_lists :
    ∃ path, FirstRefused ⟨"Query", [.scalar ⟨"Int", .int⟩]⟩
      (.list (.list (.named "Int" true) true) true)
      (.list [.list [.number (.int 1)], .list [.null, .string "two"], .string "three"])
      (.wrongScalarKind .string "Int" [1, 1]) path :=
  firstRefused_of_coerceInput rfl

end TypeSystem

end GraphQuery
