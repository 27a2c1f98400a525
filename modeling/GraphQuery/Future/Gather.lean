import GraphQuery.Future

/-!
# Gathering futures

Running the futures of a list together with a bound on the unfinished ones. `Gathers` says what
this may look like: futures are started in order, polled in any order and at any time, and values
are handed out in order, so a value that is early waits for those before it. Main statement: the
values are those of the futures, whatever the bound, however long each of them waits and whichever
is polled when.
-/

namespace GraphQuery

namespace Future

variable {ε α : Type}

/-- A started future: unfinished, or finished with a value that is not yet handed out. -/
inductive Slot (ε α : Type) where
  | unfinished (rest : Future ε α)
  | finished (a : α)

namespace Slot

def value : Slot ε α → α
  | .unfinished rest => rest.value
  | .finished a => a

def isUnfinished : Slot ε α → Bool
  | .unfinished _ => true
  | .finished _ => false

theorem value_unfinished (rest : Future ε α) :
    (Slot.unfinished rest : Slot ε α).value = rest.value := rfl

end Slot

/-- One poll: runs to the next wait or to the value. -/
def poll : Future ε α → List ε × Slot ε α
  | .done a => ([], .finished a)
  | .emit event rest => (event :: rest.poll.1, rest.poll.2)
  | .pend rest => ([], .unfinished rest)

/-- What becomes of futures that wait to be started and of slots, with at most `limit` of them
unfinished. Futures are started and values are handed out in order; which slot is polled next, and
when the whole is left to wait, is open. -/
inductive Gathers (limit : Nat) :
    List (Future ε α) → List (Slot ε α) → Future ε (List α) → Prop
  | finish : Gathers limit [] [] (.done [])
  | start {first waiting slots run} (hroom : slots.countP Slot.isUnfinished < limit)
      (h : Gathers limit waiting (slots ++ [.unfinished first]) run) :
      Gathers limit (first :: waiting) slots run
  | poll {waiting before rest after run}
      (h : Gathers limit waiting (before ++ rest.poll.2 :: after) run) :
      Gathers limit waiting (before ++ .unfinished rest :: after) (emitAll rest.poll.1 run)
  | wait {waiting slots run} (h : Gathers limit waiting slots run) :
      Gathers limit waiting slots (.pend run)
  | handOut {waiting a slots run} (h : Gathers limit waiting slots run) :
      Gathers limit waiting (.finished a :: slots) (run.bind fun values => .done (a :: values))

/-- A way to run futures with a bound on the unfinished ones, which may differ from place to
place. -/
structure Buffering (ι ε α : Type) where
  gather : Nat → ι → List (Future ε α) → Future ε (List α)
  gathers : ∀ limit place futures, 0 < limit → Gathers limit futures [] (gather limit place futures)

private theorem value_poll (f : Future ε α) : f.poll.2.value = f.value := by
  induction f with
  | done a => rfl
  | emit event rest ih => exact ih
  | pend rest ih => rfl

private theorem mem_events_of_poll {f : Future ε α} {event : ε} (h : event ∈ f.poll.1) :
    event ∈ f.events := by
  induction f with
  | done a => cases h
  | emit other rest ih =>
    rcases List.mem_cons.1 h with rfl | h
    · exact List.mem_cons_self
    · exact List.mem_cons_of_mem _ (ih h)
  | pend rest ih => cases h

private theorem mem_events_of_unfinished {f rest : Future ε α} {event : ε}
    (hpoll : f.poll.2 = .unfinished rest) (h : event ∈ rest.events) : event ∈ f.events := by
  induction f with
  | done a => cases hpoll
  | emit other inner ih => exact List.mem_cons_of_mem _ (ih hpoll)
  | pend inner ih =>
    cases hpoll
    exact h

/-- Concurrency does not show in the values. -/
theorem Gathers.value_eq {limit : Nat} {waiting : List (Future ε α)} {slots : List (Slot ε α)}
    {run : Future ε (List α)} (h : Gathers limit waiting slots run) :
    run.value = slots.map Slot.value ++ waiting.map value := by
  induction h with
  | finish => rfl
  | start _ _ ih =>
    rw [ih, List.map_append, List.append_assoc]
    rfl
  | poll _ ih =>
    rw [value_emitAll, ih, List.map_append, List.map_append, List.map_cons, List.map_cons,
      value_poll, Slot.value_unfinished]
  | wait _ ih => exact ih
  | handOut _ ih =>
    rw [value_bind, ih]
    rfl

theorem Gathers.mem_events {limit : Nat} {waiting : List (Future ε α)} {slots : List (Slot ε α)}
    {run : Future ε (List α)} (h : Gathers limit waiting slots run) {event : ε}
    (hevent : event ∈ run.events) :
    (∃ rest, Slot.unfinished rest ∈ slots ∧ event ∈ rest.events) ∨
      ∃ f ∈ waiting, event ∈ f.events := by
  induction h with
  | finish => cases hevent
  | @start first waiting slots run _ _ ih =>
    rcases ih hevent with ⟨rest, hmem, hrest⟩ | ⟨f, hmem, hf⟩
    · rcases List.mem_append.1 hmem with hmem | hmem
      · exact .inl ⟨rest, hmem, hrest⟩
      · obtain rfl := Slot.unfinished.inj (List.mem_singleton.1 hmem)
        exact .inr ⟨rest, List.mem_cons_self, hrest⟩
    · exact .inr ⟨f, List.mem_cons_of_mem _ hmem, hf⟩
  | @poll waiting before rest after run _ ih =>
    rw [events_emitAll, List.mem_append] at hevent
    rcases hevent with hevent | hevent
    · exact .inl ⟨rest, by simp, mem_events_of_poll hevent⟩
    · rcases ih hevent with ⟨other, hmem, hother⟩ | hwaiting
      · refine .inl ?_
        rw [List.mem_append, List.mem_cons] at hmem
        rcases hmem with hmem | heq | hmem
        · exact ⟨other, by simp [hmem], hother⟩
        · exact ⟨rest, by simp, mem_events_of_unfinished heq.symm hother⟩
        · exact ⟨other, by simp [hmem], hother⟩
      · exact .inr hwaiting
  | wait _ ih => exact ih hevent
  | handOut _ ih =>
    rw [events_bind, List.mem_append] at hevent
    rcases hevent with hevent | hevent
    · rcases ih hevent with ⟨rest, hmem, hrest⟩ | hwaiting
      · exact .inl ⟨rest, List.mem_cons_of_mem _ hmem, hrest⟩
      · exact .inr hwaiting
    · cases hevent

namespace Buffering

variable {ι : Type} (buffering : Buffering ι ε α) {limit : Nat} (place : ι)
  (futures : List (Future ε α))

theorem value_gather (hlimit : 0 < limit) :
    (buffering.gather limit place futures).value = futures.map value :=
  (buffering.gathers limit place futures hlimit).value_eq

theorem mem_events_gather (hlimit : 0 < limit) {event : ε}
    (hevent : event ∈ (buffering.gather limit place futures).events) :
    ∃ f ∈ futures, event ∈ f.events :=
  ((buffering.gathers limit place futures hlimit).mem_events hevent).resolve_left (by simp)

end Buffering

end Future

end GraphQuery
