import GraphQuery.Future.Buffered

/-!
# Futures that are ready at once

Futures that have their values at the first poll. Main statement: if they are gathered in rounds,
then they run one after the other, whatever the limit.
-/

namespace GraphQuery

namespace Future

variable {ι ε α : Type}

/-- Futures that are ready at once are ready at once together, and they run in their order. -/
def Buffering.Prompt (buffering : Buffering ι ε α) : Prop :=
  ∀ limit place futures, 0 < limit → (∀ f ∈ futures, f.waits = 0) →
    (buffering.gather limit place futures).waits = 0 ∧
      (buffering.gather limit place futures).events = futures.flatMap events

private theorem poll_of_ready {f : Future ε α} (h : f.waits = 0) :
    f.poll = (f.events, .finished f.value) := by
  induction f with
  | done a => rfl
  | emit event rest ih => rw [poll, ih h, events, value]
  | pend rest => cases h

private theorem pollAll_of_ready {futures : List (Future ε α)} (h : ∀ f ∈ futures, f.waits = 0) :
    pollAll (futures.map .unfinished) =
      (futures.flatMap events, futures.map fun f => .finished f.value) := by
  induction futures with
  | nil => rfl
  | cons f futures ih =>
    rw [List.forall_mem_cons] at h
    rw [List.map_cons, pollAll, ih h.2, poll_of_ready h.1, List.flatMap_cons, List.map_cons]

private theorem handOut_finished (futures : List (Future ε α)) :
    handOut (futures.map fun f => (.finished f.value : Slot ε α)) = (futures.map value, []) := by
  induction futures with
  | nil => simp [handOut]
  | cons f futures ih => rw [List.map_cons, handOut, ih, List.map_cons]

private theorem drive_round {limit rounds : Nat} {first : Future ε α} {rest : List (Future ε α)}
    (h : ∀ f ∈ first :: rest.take limit, f.waits = 0) :
    drive (limit + 1) (rounds + 1) (first :: rest) [] =
      emitAll ((first :: rest.take limit).flatMap events)
        ((drive (limit + 1) rounds (rest.drop limit) []).bind fun more =>
          .done ((first :: rest.take limit).map value ++ more)) := by
  have hpolled := pollAll_of_ready h
  have hhanded := handOut_finished (first :: rest.take limit)
  rw [List.map_cons] at hpolled hhanded
  rw [drive]
  simp only [List.length_nil, Nat.sub_zero, List.nil_append, List.take_succ_cons,
    List.drop_succ_cons, List.map_cons, hpolled, hhanded]

private theorem drive_of_ready {limit rounds : Nat} {futures : List (Future ε α)}
    (hrounds : futures.length < rounds) (h : ∀ f ∈ futures, f.waits = 0) :
    (drive (limit + 1) rounds futures []).waits = 0 ∧
      (drive (limit + 1) rounds futures []).events = futures.flatMap events := by
  induction rounds generalizing futures with
  | zero => exact absurd hrounds (Nat.not_lt_zero _)
  | succ rounds ih =>
    cases futures with
    | nil => simp [drive, waits, events]
    | cons first rest =>
      rw [List.forall_mem_cons] at h
      have hlength : (rest.drop limit).length < rounds := by
        rw [List.length_cons] at hrounds
        rw [List.length_drop]
        omega
      have hstarted : ∀ f ∈ first :: rest.take limit, f.waits = 0 :=
        List.forall_mem_cons.2 ⟨h.1, fun f hmem => h.2 f (List.mem_of_mem_take hmem)⟩
      obtain ⟨hwaits, hevents⟩ := ih hlength fun f hmem => h.2 f (List.mem_of_mem_drop hmem)
      rw [drive_round hstarted]
      constructor
      · rw [waits_emitAll, waits_bind, hwaits, waits]
      · calc (emitAll ((first :: rest.take limit).flatMap events)
              ((drive (limit + 1) rounds (rest.drop limit) []).bind fun more =>
                .done ((first :: rest.take limit).map value ++ more))).events
            = (first :: rest.take limit).flatMap events ++ (rest.drop limit).flatMap events := by
              rw [events_emitAll, events_bind, hevents, events, List.append_nil]
          _ = (first :: rest).flatMap events := by
              rw [← List.flatMap_append, List.cons_append, List.take_append_drop]

private theorem length_le_totalRounds (futures : List (Future ε α)) :
    futures.length ≤ totalRounds futures := by
  induction futures with
  | nil => exact Nat.le_refl 0
  | cons f futures ih =>
    rw [List.length_cons, totalRounds]
    omega

/-- Rounds run futures that are ready at once in their order. -/
theorem prompt_rounds : (Buffering.rounds ι ε α).Prompt := by
  intro limit place futures hlimit h
  obtain ⟨less, hless⟩ : ∃ less, max limit 1 = less + 1 := ⟨limit - 1, by omega⟩
  have hrounds : futures.length < totalRounds futures + 1 :=
    Nat.lt_succ_of_le (length_le_totalRounds futures)
  have hready := @drive_of_ready ε α less _ _ hrounds h
  rwa [← hless] at hready

end Future

end GraphQuery
