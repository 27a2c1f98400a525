import GraphQuery.Future.Gather
import Mathlib.Data.List.Perm.Basic

/-!
# Events of gathered futures

How the events of futures lie in the events of a run that gathers them. Main statements: a run
interleaves the events of its futures, so where only one of them can say something the run says
what this one says; and a run never needs more slots than there are futures.
-/

namespace GraphQuery

namespace Future

variable {ε α : Type}

/-- What is still to happen in a slot. -/
def Slot.events : Slot ε α → List ε
  | .unfinished rest => rest.events
  | .finished _ => []

@[simp] theorem Slot.events_unfinished (rest : Future ε α) :
    (Slot.unfinished rest).events = rest.events := rfl

@[simp] theorem Slot.events_finished (a : α) : (Slot.finished a : Slot ε α).events = [] := rfl

theorem events_poll (f : Future ε α) : f.poll.1 ++ f.poll.2.events = f.events := by
  induction f with
  | done a => rfl
  | emit event rest ih => exact congrArg (event :: ·) ih
  | pend rest => rfl

variable {limit : Nat} {waiting : List (Future ε α)} {slots : List (Slot ε α)}
  {run : Future ε (List α)}

/-- All that happens in the futures happens in the run, and nothing else. -/
theorem Gathers.perm_events (h : Gathers limit waiting slots run) :
    run.events.Perm (slots.flatMap Slot.events ++ waiting.flatMap Future.events) := by
  induction h with
  | finish => exact .refl []
  | start _ _ ih => simpa using ih
  | @poll waiting before rest after run _ ih =>
    rw [events_emitAll, List.flatMap_append, List.flatMap_cons, Slot.events_unfinished,
      ← events_poll rest]
    rw [List.flatMap_append, List.flatMap_cons] at ih
    simp only [List.append_assoc] at ih ⊢
    exact (ih.append_left rest.poll.1).trans (List.perm_append_comm_assoc ..)
  | wait _ ih => exact ih
  | handOut _ ih =>
    rw [events_bind]
    simpa [events] using ih

private theorem Gathers.sublist_events (h : Gathers limit waiting slots run) :
    ∀ part ∈ slots.map Slot.events ++ waiting.map Future.events, part.Sublist run.events := by
  induction h with
  | finish => exact nofun
  | start _ _ ih => simpa using ih
  | @poll waiting before rest after run _ ih =>
    rw [events_emitAll]
    intro part hpart
    simp only [List.map_append, List.map_cons, List.mem_append, List.mem_cons,
      Slot.events_unfinished] at hpart ih
    by_cases hrest : part = rest.events
    · rw [hrest, ← events_poll rest]
      exact (ih _ (.inl (.inr (.inl rfl)))).append_left rest.poll.1
    · have hsublist : part.Sublist run.events := by
        apply ih
        rcases hpart with (hbefore | hpart | hafter) | hwaiting
        · exact .inl (.inl hbefore)
        · exact absurd hpart hrest
        · exact .inl (.inr (.inr hafter))
        · exact .inr hwaiting
      exact hsublist.trans (List.sublist_append_right ..)
  | wait _ ih => exact ih
  | handOut _ ih =>
    rw [events_bind, events, List.append_nil]
    intro part hpart
    rw [List.map_cons, Slot.events_finished, List.cons_append, List.mem_cons] at hpart
    rcases hpart with rfl | hpart
    · exact List.nil_sublist _
    · exact ih part hpart

/-- Events that happen in one future only happen in the run as they do in this future. -/
theorem Gathers.filter_events {before after : List (Future ε α)} {f : Future ε α}
    (h : Gathers limit (before ++ f :: after) [] run) {p : ε → Bool}
    (hothers : ∀ other ∈ before ++ after, ∀ event ∈ other.events, p event = false) :
    run.events.filter p = f.events.filter p := by
  have hnone {futures : List (Future ε α)}
      (hfutures : ∀ other ∈ futures, ∀ event ∈ other.events, p event = false) :
      (futures.flatMap Future.events).filter p = [] := by
    rw [List.filter_eq_nil_iff]
    intro event hevent
    obtain ⟨other, hother, hevent⟩ := List.mem_flatMap.1 hevent
    rw [hfutures other hother event hevent]
    exact Bool.false_ne_true
  rw [List.forall_mem_append] at hothers
  have hperm := h.perm_events.filter p
  simp only [List.flatMap_nil, List.nil_append, List.flatMap_append, List.flatMap_cons,
    List.filter_append, hnone hothers.1, hnone hothers.2, List.append_nil] at hperm
  have hsublist : f.events.Sublist run.events := by
    apply h.sublist_events
    simp
  exact ((hsublist.filter p).eq_of_length hperm.length_eq.symm).symm

theorem Gathers.narrow (h : Gathers limit waiting slots run) {count : Nat}
    (hcount : slots.length + waiting.length ≤ count) :
    Gathers (min limit count) waiting slots run := by
  induction h with
  | finish => exact .finish
  | @start first waiting slots run hroom _ ih =>
    have hslots := slots.countP_le_length (p := Slot.isUnfinished)
    rw [List.length_cons] at hcount
    apply Gathers.start (by omega)
    apply ih
    rw [List.length_append, List.length_singleton]
    omega
  | @poll waiting before rest after run _ ih =>
    apply Gathers.poll
    apply ih
    simpa using hcount
  | wait _ ih => exact .wait (ih hcount)
  | handOut _ ih =>
    rw [List.length_cons] at hcount
    exact (ih (by omega)).handOut

end Future

end GraphQuery
