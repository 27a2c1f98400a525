import GraphQuery.Proofs.Completion.Completes

/-!
# Outputs of positions

Which values a position of a type can have for the value that it holds, under any translator. Main
statement: whatever the completion of a held value returns is one of them.
-/

namespace GraphQuery

/-- The level completes objects into objects. -/
def Level.BuildsObjects (level : Level) : Prop :=
  ∀ object selections held path value,
    (level object selections held path).value.outcome = .ok value → ∃ fields, value = .object fields

namespace Plan

/-- The values of a position that holds a value: null where the type allows it, an object, what the
translator serializes for a value that is not null, or a list of what its items have. -/
inductive Output (plan : Plan) : TypeExpr → Json → Value → Prop
  | null {type held} (hnullable : type.nullable = true) : Output plan type held .null
  | leaf {name nullable type held value} (hheld : held.isNull = false)
      (hget : plan.system.get? name = some type) (hleaf : type.isLeaf = true)
      (hvalue : plan.schema.leaf type held = .ok value) :
      Output plan (.named name nullable) held value
  | object {name nullable type held fields} (hget : plan.system.get? name = some type)
      (hleaf : type.isLeaf = false) : Output plan (.named name nullable) held (.object fields)
  | list {item nullable held items values} (hitems : held.items? = some items)
      (hlength : values.length = items.length)
      (hvalues : ∀ (i : Nat) inner value, items[i]? = some inner → values[i]? = some value →
        Output plan item inner value) :
      Output plan (.list item nullable) held (.list values)

section

variable {plan : Plan} {level : Level} {site : FieldSite} {held : Json} {path : ResponsePath}
  {result : Value}

private theorem output_of_completeNull {type : TypeExpr}
    (h : (completeNull site type.nullable path).outcome = .ok result) :
    plan.Output type held result := by
  unfold completeNull at h
  cases hnullable : type.nullable with
  | true =>
    rw [hnullable, if_pos rfl] at h
    exact Except.ok.inj h ▸ .null hnullable
  | false =>
    rw [hnullable] at h
    cases h

private theorem output_of_completeNamed (hlevel : level.BuildsObjects) {name : String}
    {nullable : Bool}
    (hheld : held.isNull = false)
    (h : (plan.completeNamed level site name held path).value.outcome = .ok result) :
    plan.Output (.named name nullable) held result := by
  cases hget : plan.system.get? name with
  | none =>
    simp only [completeNamed, hget] at h
    cases h
  | some type =>
    cases type with
    | object object =>
      simp only [completeNamed, hget] at h
      obtain ⟨fields, rfl⟩ := hlevel _ _ _ _ _ h
      exact .object hget rfl
    | interface | union =>
      rw [completeNamed_abstract hget rfl, completeAbstract] at h
      split at h
      · obtain ⟨fields, rfl⟩ := hlevel _ _ _ _ _ h
        exact .object hget rfl
      · cases h
    | scalar | enum =>
      rw [completeNamed_leaf hget rfl] at h
      split at h
      · next hvalue => exact Except.ok.inj h ▸ .leaf hheld hget rfl hvalue
      · cases h

/-- What a position returns for a held value is one of its outputs. -/
theorem output_of_completeValue {schedule : Schedule} (hschedule : schedule.Ordered)
    (hlevel : level.BuildsObjects) (type : TypeExpr)
    (h : (plan.completeValue schedule level site type held path).value.outcome = .ok result) :
    plan.Output type held result := by
  induction type generalizing held path result with
  | named name nullable =>
    rw [completeValue] at h
    cases hheld : held.isNull with
    | true =>
      rw [if_pos hheld] at h
      exact output_of_completeNull h
    | false =>
      rw [if_neg (by simp [hheld]), Future.value_bind] at h
      rcases Completion.outcome_absorb_eq_ok_iff.1 h with h | ⟨-, hnullable, rfl⟩
      · exact output_of_completeNamed hlevel hheld h
      · exact .null hnullable
  | list item nullable ih =>
    cases hitems : held.items? with
    | none =>
      rw [completeValue, hitems] at h
      split at h
      · exact output_of_completeNull h
      · rcases Completion.outcome_absorb_eq_ok_iff.1 h with h | ⟨-, hnullable, rfl⟩
        · cases h
        · exact .null hnullable
    | some items =>
      rw [value_completeValue_items hschedule level site item nullable hitems] at h
      rcases Completion.join_eq_ok h with ⟨values, hvalues, rfl⟩ | ⟨hnullable, rfl, -⟩
      · have hlength := Completion.length_of_map_eq hvalues
        rw [List.length_mapIdx] at hlength
        refine .list hitems hlength fun i inner value hinner hvalue => ?_
        obtain ⟨completion, hcompletion, houtcome⟩ := Completion.outcome_of_map_eq hvalues hvalue
        rw [List.getElem?_mapIdx, hinner, Option.map_some] at hcompletion
        exact ih (Option.some.inj hcompletion ▸ houtcome)
      · exact .null hnullable

theorem buildsObjects_levelAt (schedule : Schedule) (depth : Nat) :
    (plan.levelAt schedule depth).BuildsObjects := by
  intro object selections held path value h
  cases depth with
  | zero => exact ⟨[], (Except.ok.inj h).symm⟩
  | succ depth =>
    rw [levelAt, levelWith] at h
    split at h
    · cases h
    · rw [completeGroups, Future.value_bind] at h
      obtain ⟨values, -, hvalue⟩ := map_eq_ok_iff.1 h
      exact ⟨_, hvalue.symm⟩

end

end Plan

end GraphQuery
