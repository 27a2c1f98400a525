import GraphQuery.Completion.Trace
import GraphQuery.Future.Filling
import GraphQuery.Proofs.Future.Interleaving
import GraphQuery.Proofs.Success

/-!
# Resolvers in flight

How many resolvers run at once in a run of siblings, if each sibling runs at most one of them at a
time. Main statement: never more than there are unfinished siblings, so never more than the limit
allows.
-/

namespace GraphQuery

namespace Event

/-- Events of at most one resolver at a time; `running` says whether one is running before them.
None is running after them. -/
inductive Solo : Bool → List Event → Prop
  | nil : Solo false []
  | resolving {running path object field events} (h : Solo running events) :
      Solo running (.resolving path object field :: events)
  | started {path object context events} (h : Solo true events) :
      Solo false (.started path object context :: events)
  | finished {path object field events} (h : Solo false events) :
      Solo true (.finished path object field :: events)

private theorem le_peak (count : Nat) (events : List Event) : count ≤ peak count events := by
  cases events with
  | nil => exact Nat.le_refl count
  | cons event events => exact Nat.le_max_left ..

private theorem peak_append (count : Nat) (events more : List Event) :
    peak count (events ++ more) =
      max (peak count events) (peak (events.foldl running count) more) := by
  induction events generalizing count with
  | nil => exact (Nat.max_eq_right (le_peak count more)).symm
  | cons event events ih => rw [List.cons_append, peak, ih, peak, List.foldl_cons, Nat.max_assoc]

private theorem Solo.split {running : Bool} {events more : List Event}
    (h : Solo running (events ++ more)) :
    ∃ later, Solo later more ∧ ∀ others,
      events.foldl Event.running (others + running.toNat) = others + later.toNat ∧
      peak (others + running.toNat) events ≤ others + 1 := by
  induction events generalizing running with
  | nil =>
    refine ⟨running, h, fun others => ⟨rfl, ?_⟩⟩
    have hrunning := Bool.toNat_le running
    exact Nat.add_le_add_left hrunning others
  | cons event events ih =>
    cases h with
    | resolving h =>
      obtain ⟨later, hlater, hevents⟩ := ih h
      refine ⟨later, hlater, fun others => ⟨(hevents others).1, Nat.max_le.2 ⟨?_, ?_⟩⟩⟩
      · exact Nat.le_trans (le_peak _ events) (hevents others).2
      · exact (hevents others).2
    | started h =>
      obtain ⟨later, hlater, hevents⟩ := ih h
      refine ⟨later, hlater, fun others => ⟨(hevents others).1, Nat.max_le.2 ⟨?_, ?_⟩⟩⟩
      · exact Nat.le_succ others
      · exact (hevents others).2
    | finished h =>
      obtain ⟨later, hlater, hevents⟩ := ih h
      refine ⟨later, hlater, fun others => ⟨(hevents others).1, Nat.max_le.2 ⟨?_, ?_⟩⟩⟩
      · exact Nat.le_refl (others + 1)
      · exact (hevents others).2

end Event

namespace Future

variable {α : Type} {limit : Nat} {waiting : List (Future Event α)} {slots : List (Slot Event α)}
  {run : Future Event (List α)} {p : Event → Bool}

/-- Whether a slot is running a resolver, if it runs one at a time. -/
def Slot.Runs (p : Event → Bool) (slot : Slot Event α) (running : Bool) : Prop :=
  Event.Solo running (slot.events.filter p)

private theorem count_le_of_runs {running : List Bool}
    (h : List.Forall₂ (Slot.Runs p) slots running) :
    running.count true ≤ slots.countP Slot.isUnfinished := by
  induction h with
  | nil => exact Nat.le_refl 0
  | @cons slot busy slots running hslot _ ih =>
    cases slot with
    | unfinished rest =>
      have hbusy := List.count_le_length (a := true) (l := [busy])
      rw [List.length_singleton] at hbusy
      rw [List.countP_cons, ← List.singleton_append, List.count_append]
      simp only [Slot.isUnfinished, if_true]
      omega
    | finished a =>
      cases hslot
      simpa [List.countP_cons, Slot.isUnfinished] using ih

private theorem Slot.Runs.poll {rest : Future Event α} {running : Bool}
    (h : Slot.Runs p (.unfinished rest) running) :
    ∃ later, Slot.Runs p rest.poll.2 later ∧ ∀ others,
      (rest.poll.1.filter p).foldl Event.running (others + running.toNat) =
        others + later.toNat ∧
      Event.peak (others + running.toNat) (rest.poll.1.filter p) ≤ others + 1 := by
  rw [Slot.Runs, Slot.events_unfinished, ← events_poll rest, List.filter_append] at h
  exact h.split

private theorem count_true_splice (before after : List Bool) (running : Bool) :
    (before ++ running :: after).count true =
      before.count true + after.count true + running.toNat := by
  cases running <;> simp [Nat.add_assoc]

private theorem countP_isUnfinished_splice (before after : List (Slot Event α))
    (slot : Slot Event α) :
    (before ++ slot :: after).countP Slot.isUnfinished =
      before.countP Slot.isUnfinished + after.countP Slot.isUnfinished +
        slot.isUnfinished.toNat := by
  cases h : slot.isUnfinished <;> simp [h, Nat.add_assoc]

/-- The invariant of a run: as many resolvers are running as there are slots that run one. -/
theorem Gathers.peak_le (h : Gathers limit waiting slots run)
    (hwaiting : ∀ f ∈ waiting, Event.Solo false (f.events.filter p)) {running : List Bool}
    (hrunning : List.Forall₂ (Slot.Runs p) slots running)
    (hlimit : slots.countP Slot.isUnfinished ≤ limit) :
    Event.peak (running.count true) (run.events.filter p) ≤ limit := by
  induction h generalizing running with
  | finish =>
    cases hrunning
    exact Nat.zero_le limit
  | @start first waiting slots run hroom _ ih =>
    rw [List.forall_mem_cons] at hwaiting
    have hstarted :
        List.Forall₂ (Slot.Runs p) (slots ++ [.unfinished first]) (running ++ [false]) :=
      List.rel_append hrunning (.cons hwaiting.1 .nil)
    have hslots : (slots ++ [Slot.unfinished first]).countP Slot.isUnfinished ≤ limit := by
      rw [List.countP_append]
      exact hroom
    simpa using ih hwaiting.2 hstarted hslots
  | @poll waiting before rest after run _ ih =>
    obtain ⟨runningBefore, busy, runningAfter, rfl, hbefore, hslot, hafter⟩ :=
      exists_split_of_forall₂ hrunning
    obtain ⟨later, hlater, hevents⟩ := hslot.poll
    have hpolled : List.Forall₂ (Slot.Runs p) (before ++ rest.poll.2 :: after)
        (runningBefore ++ later :: runningAfter) :=
      List.rel_append hbefore (.cons hlater hafter)
    obtain ⟨hfold, hpeak⟩ := hevents (runningBefore.count true + runningAfter.count true)
    rw [countP_isUnfinished_splice] at hlimit
    have hroom : runningBefore.count true + runningAfter.count true + 1 ≤ limit := by
      have hothers := Nat.add_le_add (count_le_of_runs hbefore) (count_le_of_runs hafter)
      exact Nat.le_trans (Nat.succ_le_succ hothers) hlimit
    have hslots : (before ++ rest.poll.2 :: after).countP Slot.isUnfinished ≤ limit := by
      rw [countP_isUnfinished_splice]
      exact Nat.le_trans (Nat.add_le_add_left (Bool.toNat_le _) _) hlimit
    have hrest := ih hwaiting hpolled hslots
    rw [count_true_splice] at hrest
    rw [events_emitAll, List.filter_append, Event.peak_append, count_true_splice, hfold]
    exact Nat.max_le.2 ⟨Nat.le_trans hpeak hroom, hrest⟩
  | wait _ ih => exact ih hwaiting hrunning hlimit
  | @handOut waiting a slots run _ ih =>
    cases hrunning with
    | @cons _ busy _ running hslot hrest =>
      cases hslot
      rw [events_bind, events, List.append_nil]
      simpa using ih hwaiting hrest (by simpa [Slot.isUnfinished] using hlimit)

/-- Siblings that run one resolver at a time each are never more in flight than the limit allows,
nor than there are. -/
theorem Gathers.maxInFlight_le {futures : List (Future Event α)} (h : Gathers limit futures [] run)
    (hsolo : ∀ f ∈ futures, Event.Solo false (f.events.filter p)) :
    maxInFlight (run.events.filter p) ≤ min limit futures.length := by
  have hnarrow : Gathers (min limit futures.length) futures [] run := h.narrow (by simp)
  exact hnarrow.peak_le hsolo .nil (Nat.zero_le _)

private theorem foldl_running_firstPolls {futures : List (Future Event α)}
    (hfirst : ∀ f ∈ futures, ∀ count, (f.poll.1.filter p).foldl Event.running count = count + 1)
    (count : Nat) :
    ((futures.flatMap fun f => f.poll.1).filter p).foldl Event.running count =
      count + futures.length := by
  induction futures generalizing count with
  | nil => rfl
  | cons f futures ih =>
    rw [List.forall_mem_cons] at hfirst
    rw [List.flatMap_cons, List.filter_append, List.foldl_append, hfirst.1, ih hfirst.2,
      List.length_cons]
    omega

/-- Siblings whose first polls start one resolver each that keeps running are in flight together,
as many as there is room for. -/
theorem Fills.le_maxInFlight {futures : List (Future Event α)} (h : Fills limit futures [] run)
    (hfirst : ∀ f ∈ futures, ∀ count, (f.poll.1.filter p).foldl Event.running count = count + 1) :
    min limit futures.length ≤ maxInFlight (run.events.filter p) := by
  obtain ⟨rest, hevents⟩ := h.opens
  have hstarted := foldl_running_firstPolls
    (fun f hmem => hfirst f (List.mem_of_mem_take (i := limit) hmem)) 0
  rw [Nat.zero_add, List.length_take] at hstarted
  rw [hevents, List.filter_append, maxInFlight, Event.peak_append, hstarted]
  exact Nat.le_trans (Event.le_peak _ _) (Nat.le_max_right ..)

end Future

end GraphQuery
