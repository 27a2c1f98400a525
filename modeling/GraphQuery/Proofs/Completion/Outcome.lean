import GraphQuery.Completion.Outcome
import GraphQuery.Proofs.Success

/-!
# Outcomes of siblings

How the outcomes of siblings decide the outcome of the value that they make up.
-/

namespace GraphQuery

namespace Completion

variable {completions : List Completion} {completion : Completion} {nullable : Bool}

/-- The completion fails the request. -/
def IsFatal (completion : Completion) : Prop :=
  ∃ fault, completion.outcome = .error (.fatal fault)

/-- The completion has no value, and one around it has to be null instead. -/
def Propagates (completion : Completion) : Prop := completion.outcome = .error .nullPropagation

theorem ok_or_propagates (h : ¬ completion.IsFatal) :
    (∃ value, completion.outcome = .ok value) ∨ completion.Propagates := by
  unfold Propagates
  cases houtcome : completion.outcome with
  | ok value => exact .inl ⟨value, rfl⟩
  | error abort =>
    cases abort with
    | nullPropagation => exact .inr rfl
    | fatal fault => exact absurd ⟨fault, houtcome⟩ h

theorem not_isFatal_of_ok {value : Value} (h : completion.outcome = .ok value) :
    ¬ completion.IsFatal := by
  rintro ⟨fault, hfault⟩
  rw [h] at hfault
  cases hfault

theorem not_propagates_of_ok {value : Value} (h : completion.outcome = .ok value) :
    ¬ completion.Propagates := by
  intro hpropagates
  rw [Propagates, h] at hpropagates
  cases hpropagates

@[simp] theorem errors_absorb : (completion.absorb nullable).errors = completion.errors := by
  obtain ⟨outcome, errors⟩ := completion
  unfold absorb
  split <;> rfl

@[simp] theorem errors_join (build : List Value → Value) :
    (join build completions).errors = completions.flatMap errors := rfl

theorem outcome_absorb_eq_ok_iff {value : Value} :
    (completion.absorb nullable).outcome = .ok value ↔
      completion.outcome = .ok value ∨
        completion.Propagates ∧ nullable = true ∧ value = .null := by
  obtain ⟨outcome, errors⟩ := completion
  cases nullable <;> rcases outcome with (_ | _) | _ <;>
    simp [absorb, Propagates, eq_comm]

theorem propagates_absorb_iff :
    (completion.absorb nullable).Propagates ↔ completion.Propagates ∧ nullable = false := by
  obtain ⟨outcome, errors⟩ := completion
  cases nullable <;> rcases outcome with (_ | _) | _ <;> simp [absorb, Propagates]

theorem outcome_absorb_eq_fatal_iff {fault : ExecutionFault} :
    (completion.absorb nullable).outcome = .error (.fatal fault) ↔
      completion.outcome = .error (.fatal fault) := by
  obtain ⟨outcome, errors⟩ := completion
  cases nullable <;> rcases outcome with (_ | _) | _ <;> simp [absorb]

theorem exists_mem_of_outcomes_eq_error {abort : Abort}
    (h : outcomes completions = .error abort) :
    ∃ completion ∈ completions, completion.outcome = .error abort := by
  induction completions with
  | nil => cases h
  | cons first rest ih =>
    have hlater (hrest : outcomes rest = .error abort) :
        ∃ completion ∈ first :: rest, completion.outcome = .error abort := by
      obtain ⟨completion, hmem, hcompletion⟩ := ih hrest
      exact ⟨completion, List.mem_cons_of_mem _ hmem, hcompletion⟩
    unfold outcomes at h
    split at h
    · next fault hfirst => exact ⟨first, List.mem_cons_self, Except.error.inj h ▸ hfirst⟩
    · next hfirst =>
      split at h
      · next fault hrest => exact hlater (hrest.trans h)
      · exact ⟨first, List.mem_cons_self, Except.error.inj h ▸ hfirst⟩
    · next value hfirst =>
      cases hrest : outcomes rest with
      | ok values => simp [hrest, Functor.map, Except.map] at h
      | error other =>
        simp only [hrest, Functor.map, Except.map, Except.error.injEq] at h
        exact hlater (h ▸ hrest)

theorem outcomes_isFatal (hmem : completion ∈ completions) (h : completion.IsFatal) :
    ∃ fault, outcomes completions = .error (.fatal fault) := by
  induction completions with
  | nil => cases hmem
  | cons first rest ih =>
    unfold outcomes
    rcases List.mem_cons.1 hmem with rfl | hrest
    · obtain ⟨fault, hfault⟩ := h
      exact ⟨fault, by rw [hfault]⟩
    · obtain ⟨other, hother⟩ := ih hrest
      rw [hother]
      rcases first.outcome with (_ | first) | value
      · exact ⟨other, rfl⟩
      · exact ⟨first, rfl⟩
      · exact ⟨other, rfl⟩

theorem outcome_join (build : List Value → Value) :
    (join build completions).outcome = build <$> outcomes completions := rfl

theorem exists_propagates_of_join {build : List Value → Value}
    (h : (join build completions).Propagates) :
    ∃ completion ∈ completions, completion.Propagates := by
  rw [Propagates, outcome_join] at h
  cases houtcomes : outcomes completions with
  | ok values => simp [houtcomes, Functor.map, Except.map] at h
  | error abort =>
    simp only [houtcomes, Functor.map, Except.map, Except.error.injEq] at h
    exact exists_mem_of_outcomes_eq_error (h ▸ houtcomes)

theorem not_isFatal_of_join {build : List Value → Value} (h : ¬ (join build completions).IsFatal) :
    ∀ completion ∈ completions, ¬ completion.IsFatal := by
  intro completion hmem hfatal
  obtain ⟨fault, hfault⟩ := outcomes_isFatal hmem hfatal
  refine h ⟨fault, ?_⟩
  rw [outcome_join, hfault]
  rfl

theorem join_isFatal_iff {build : List Value → Value} :
    (join build completions).IsFatal ↔ ∃ completion ∈ completions, completion.IsFatal := by
  constructor
  · rintro ⟨fault, hfault⟩
    rw [outcome_join, map_eq_error_iff] at hfault
    obtain ⟨completion, hmem, hcompletion⟩ := exists_mem_of_outcomes_eq_error hfault
    exact ⟨completion, hmem, fault, hcompletion⟩
  · rintro ⟨completion, hmem, hfatal⟩
    by_contra h
    exact not_isFatal_of_join h completion hmem hfatal

theorem not_exists_propagates {values : List Value} (h : completions.map outcome = values.map .ok) :
    ¬ ∃ completion ∈ completions, completion.Propagates := by
  rintro ⟨completion, hmem, hpropagates⟩
  have hmem' : completion.outcome ∈ values.map Except.ok := h ▸ List.mem_map_of_mem hmem
  obtain ⟨value, -, hvalue⟩ := List.mem_map.1 hmem'
  exact not_propagates_of_ok hvalue.symm hpropagates

theorem propagates_join_iff {build : List Value → Value}
    (h : ¬ (join build completions).IsFatal) :
    (join build completions).Propagates ↔ ∃ completion ∈ completions, completion.Propagates := by
  refine ⟨exists_propagates_of_join, fun hsome => ?_⟩
  refine (ok_or_propagates h).resolve_left fun ⟨value, hvalue⟩ => ?_
  obtain ⟨values, hvalues, -⟩ := map_eq_ok_iff.1 hvalue
  exact not_exists_propagates (outcomes_eq_ok_iff.1 hvalues) hsome

theorem exists_propagates_of_forall {completions completions' : List Completion}
    (hlength : completions.length = completions'.length)
    (h : ∀ (i : Nat) completion completion', completions[i]? = some completion →
      completions'[i]? = some completion' → completion.Propagates → completion'.Propagates)
    (hsome : ∃ completion ∈ completions, completion.Propagates) :
    ∃ completion ∈ completions', completion.Propagates := by
  obtain ⟨completion, hmem, hpropagates⟩ := hsome
  obtain ⟨i, hi⟩ := List.mem_iff_getElem?.1 hmem
  obtain ⟨completion', hi'⟩ := exists_getElem?_of_length_eq hlength hi
  exact ⟨completion', List.mem_of_getElem? hi', h i completion completion' hi hi' hpropagates⟩

theorem isFatal_absorb_iff : (completion.absorb nullable).IsFatal ↔ completion.IsFatal :=
  exists_congr fun _ => outcome_absorb_eq_fatal_iff

theorem join_eq_ok {build : List Value → Value} {value : Value}
    (h : ((join build completions).absorb nullable).outcome = .ok value) :
    (∃ values, completions.map outcome = values.map .ok ∧ build values = value) ∨
      nullable = true ∧ value = .null ∧ ∃ completion ∈ completions, completion.Propagates := by
  rcases outcome_absorb_eq_ok_iff.1 h with h | ⟨h, hnullable, hnull⟩
  · obtain ⟨values, hvalues, hbuild⟩ := map_eq_ok_iff.1 h
    exact .inl ⟨values, outcomes_eq_ok_iff.1 hvalues, hbuild⟩
  · exact .inr ⟨hnullable, hnull, exists_propagates_of_join h⟩

theorem length_of_map_eq {values : List Value} (h : completions.map outcome = values.map .ok) :
    values.length = completions.length := by
  simpa using congrArg List.length h.symm

theorem outcome_of_map_eq {values : List Value} (h : completions.map outcome = values.map .ok)
    {i : Nat} {value : Value} (hvalue : values[i]? = some value) :
    ∃ completion, completions[i]? = some completion ∧ completion.outcome = .ok value := by
  have hi := congrArg (fun outcomes => outcomes[i]?) h
  simp only [List.getElem?_map, hvalue, Option.map_some, Option.map_eq_some_iff] at hi
  exact hi

theorem value_of_map_eq {values : List Value} (h : completions.map outcome = values.map .ok)
    {i : Nat} (hcompletion : completions[i]? = some completion) :
    ∃ value, values[i]? = some value ∧ completion.outcome = .ok value := by
  have hi := congrArg (fun outcomes => outcomes[i]?) h
  simp only [List.getElem?_map, hcompletion, Option.map_some] at hi
  obtain ⟨value, hvalue, houtcome⟩ := Option.map_eq_some_iff.1 hi.symm
  exact ⟨value, hvalue, houtcome.symm⟩

end Completion

end GraphQuery
