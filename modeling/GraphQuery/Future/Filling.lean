import GraphQuery.Future.Gather

/-!
# Filling the room

Gathering futures without leaving room unused. `Fills` holds at most `limit` futures that are
started and whose value is not yet handed out, and takes in the next ones in order whenever there
is room. Main statements: this is one of the ways to gather futures, and it opens with the first
polls of as many futures as there is room for.
-/

namespace GraphQuery

namespace Future

variable {ε α : Type}

/-- A pass over the slots in which some of the unfinished ones are polled once: what happens, and
the slots after it. -/
inductive Sweeps : List (Slot ε α) → List ε → List (Slot ε α) → Prop
  | nil : Sweeps [] [] []
  | skip {slot slots events swept} (h : Sweeps slots events swept) :
      Sweeps (slot :: slots) events (slot :: swept)
  | poll {rest slots events swept} (h : Sweeps slots events swept) :
      Sweeps (.unfinished rest :: slots) (rest.poll.1 ++ events) (rest.poll.2 :: swept)

/-- What becomes of futures that wait to be started and of slots, with at most `limit` slots. A
turn polls some of the slots and fills the room that there is with the next futures, each of which
is polled for the first time. The whole is left to wait only if there is no room or no future to
fill it. -/
inductive Fills (limit : Nat) :
    List (Future ε α) → List (Slot ε α) → Future ε (List α) → Prop
  | finish : Fills limit [] [] (.done [])
  | turn {waiting slots events swept run} (hsweeps : Sweeps slots events swept)
      (h : Fills limit (waiting.drop (limit - slots.length))
        (swept ++ (waiting.take (limit - slots.length)).map fun f => f.poll.2) run) :
      Fills limit waiting slots
        (emitAll (events ++ (waiting.take (limit - slots.length)).flatMap fun f => f.poll.1) run)
  | wait {waiting slots run} (hfull : waiting = [] ∨ limit ≤ slots.length)
      (h : Fills limit waiting slots run) : Fills limit waiting slots (.pend run)
  | handOut {waiting a slots run} (h : Fills limit waiting slots run) :
      Fills limit waiting (.finished a :: slots) (run.bind fun values => .done (a :: values))

variable {limit : Nat} {waiting : List (Future ε α)} {slots swept : List (Slot ε α)}
  {events : List ε} {run : Future ε (List α)}

theorem Sweeps.length_eq (h : Sweeps slots events swept) : swept.length = slots.length := by
  induction h with
  | nil => rfl
  | skip _ ih => exact congrArg (· + 1) ih
  | poll _ ih => exact congrArg (· + 1) ih

theorem Sweeps.gathers (h : Sweeps slots events swept) {before : List (Slot ε α)}
    (hrun : Gathers limit waiting (before ++ swept) run) :
    Gathers limit waiting (before ++ slots) (emitAll events run) := by
  induction h generalizing before with
  | nil => exact hrun
  | @skip slot slots events swept _ ih =>
    rw [List.append_cons] at hrun ⊢
    exact ih hrun
  | @poll rest slots events swept _ ih =>
    rw [emitAll_append]
    apply Gathers.poll
    rw [List.append_cons] at hrun ⊢
    exact ih hrun

theorem Gathers.fill (count : Nat) (hroom : slots.length + count ≤ limit)
    (h : Gathers limit (waiting.drop count)
      (slots ++ (waiting.take count).map fun f => f.poll.2) run) :
    Gathers limit waiting slots
      (emitAll ((waiting.take count).flatMap fun f => f.poll.1) run) := by
  induction count generalizing waiting slots with
  | zero => simpa [emitAll] using h
  | succ count ih =>
    cases waiting with
    | nil => simpa [emitAll] using h
    | cons first waiting =>
      have hcount := slots.countP_le_length (p := Slot.isUnfinished)
      rw [List.take_succ_cons, List.flatMap_cons, emitAll_append]
      apply Gathers.start (by omega)
      apply Gathers.poll
      apply ih
      · rw [List.length_append, List.length_singleton]
        omega
      · simpa using h

theorem Fills.gathers (h : Fills limit waiting slots run) (hslots : slots.length ≤ limit) :
    Gathers limit waiting slots run := by
  induction h with
  | finish => exact .finish
  | @turn waiting slots events swept run hsweeps _ ih =>
    have hlength := hsweeps.length_eq
    have hlater : (swept ++ (waiting.take (limit - slots.length)).map fun f => f.poll.2).length ≤
        limit := by
      rw [List.length_append, List.length_map, List.length_take]
      omega
    have hfilled : Gathers limit waiting ([] ++ swept)
        (emitAll ((waiting.take (limit - slots.length)).flatMap fun f => f.poll.1) run) :=
      (ih hlater).fill (limit - slots.length) (by rw [List.nil_append]; omega)
    rw [emitAll_append]
    exact hsweeps.gathers hfilled
  | wait _ _ ih => exact .wait (ih hslots)
  | handOut _ ih =>
    rw [List.length_cons] at hslots
    exact (ih (by omega)).handOut

theorem Fills.opens (h : Fills limit waiting [] run) :
    ∃ rest, run.events = ((waiting.take limit).flatMap fun f => f.poll.1) ++ rest := by
  cases h with
  | finish => exact ⟨[], by rw [List.take_nil]; rfl⟩
  | @turn _ _ events swept run hsweeps _ =>
    cases hsweeps
    exact ⟨run.events, events_emitAll ..⟩
  | wait hfull =>
    have hnone : waiting.take limit = [] := by
      rcases hfull with hwaiting | hlimit
      · rw [hwaiting, List.take_nil]
      · rw [Nat.le_zero.1 hlimit, List.take_zero]
    rw [hnone]
    exact ⟨_, rfl⟩

/-- The way to run futures leaves no room unused. -/
def Buffering.Filling {ι : Type} (buffering : Buffering ι ε α) : Prop :=
  ∀ limit place futures, 0 < limit → Fills limit futures [] (buffering.gather limit place futures)

end Future

end GraphQuery
