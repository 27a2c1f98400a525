import GraphQuery.Future.Buffered
import Mathlib.Data.List.Forall2

/-!
# Futures in lockstep

Two futures that wait at the same points, where related events happen and related values come out.
Main statement: running such futures in rounds keeps them in lockstep, whatever their number and
limit are.
-/

namespace GraphQuery

namespace Future

variable {ε ε' α α' β β' : Type} {R : ε → ε' → Prop} {S : α → α' → Prop} {T : β → β' → Prop}

/-- The futures wait alike, with events related by `R` and values by `S`. -/
inductive Lockstep (R : ε → ε' → Prop) (S : α → α' → Prop) : Future ε α → Future ε' α' → Prop
  | done {a a'} (h : S a a') : Lockstep R S (.done a) (.done a')
  | emit {event event' rest rest'} (hevent : R event event') (h : Lockstep R S rest rest') :
      Lockstep R S (.emit event rest) (.emit event' rest')
  | pend {rest rest'} (h : Lockstep R S rest rest') : Lockstep R S (.pend rest) (.pend rest')

namespace Lockstep

theorem bind {f : Future ε α} {f' : Future ε' α'} (h : Lockstep R S f f')
    {next : α → Future ε β} {next' : α' → Future ε' β'}
    (hnext : ∀ a a', S a a' → Lockstep R T (next a) (next' a')) :
    Lockstep R T (f.bind next) (f'.bind next') := by
  induction h with
  | done h => exact hnext _ _ h
  | emit hevent _ ih => exact .emit hevent ih
  | pend _ ih => exact .pend ih

theorem pending {f : Future ε α} {f' : Future ε' α'} (h : Lockstep R S f f') (polls : Nat) :
    Lockstep R S (Future.pending polls f) (Future.pending polls f') := by
  induction polls with
  | zero => exact h
  | succ polls ih => exact .pend ih

private theorem emitAll {events : List ε} {events' : List ε'}
    (hevents : List.Forall₂ R events events')
    {f : Future ε α} {f' : Future ε' α'} (h : Lockstep R S f f') :
    Lockstep R S (Future.emitAll events f) (Future.emitAll events' f') := by
  induction hevents with
  | nil => exact h
  | cons hevent _ ih => exact .emit hevent ih

private theorem waits_eq {f : Future ε α} {f' : Future ε' α'} (h : Lockstep R S f f') :
    f'.waits = f.waits := by
  induction h with
  | done => rfl
  | emit _ _ ih => exact ih
  | pend _ ih => exact congrArg (· + 1) ih

theorem events {f : Future ε α} {f' : Future ε' α'} (h : Lockstep R S f f') :
    List.Forall₂ R f.events f'.events := by
  induction h with
  | done => exact .nil
  | emit hevent _ ih => exact .cons hevent ih
  | pend _ ih => exact ih

end Lockstep

/-- Slots with the same progress. -/
inductive Slot.Lockstep (R : ε → ε' → Prop) (S : α → α' → Prop) : Slot ε α → Slot ε' α' → Prop
  | unfinished {rest rest'} (h : Future.Lockstep R S rest rest') :
      Slot.Lockstep R S (.unfinished rest) (.unfinished rest')
  | finished {a a'} (h : S a a') : Slot.Lockstep R S (.finished a) (.finished a')

private theorem Lockstep.poll {f : Future ε α} {f' : Future ε' α'} (h : Lockstep R S f f') :
    List.Forall₂ R f.poll.1 f'.poll.1 ∧ Slot.Lockstep R S f.poll.2 f'.poll.2 := by
  induction h with
  | done h => exact ⟨.nil, .finished h⟩
  | emit hevent _ ih => exact ⟨.cons hevent ih.1, ih.2⟩
  | pend h => exact ⟨.nil, .unfinished h⟩

private theorem lockstep_pollAll {slots : List (Slot ε α)} {slots' : List (Slot ε' α')}
    (h : List.Forall₂ (Slot.Lockstep R S) slots slots') :
    List.Forall₂ R (pollAll slots).1 (pollAll slots').1 ∧
      List.Forall₂ (Slot.Lockstep R S) (pollAll slots).2 (pollAll slots').2 := by
  induction h with
  | nil => exact ⟨.nil, .nil⟩
  | cons hslot _ ih =>
    cases hslot with
    | unfinished hrest =>
      obtain ⟨hevents, hpolled⟩ := hrest.poll
      exact ⟨List.rel_append hevents ih.1, .cons hpolled ih.2⟩
    | finished ha => exact ⟨ih.1, .cons (.finished ha) ih.2⟩

private theorem lockstep_handOut {slots : List (Slot ε α)} {slots' : List (Slot ε' α')}
    (h : List.Forall₂ (Slot.Lockstep R S) slots slots') :
    List.Forall₂ S (handOut slots).1 (handOut slots').1 ∧
      List.Forall₂ (Slot.Lockstep R S) (handOut slots).2 (handOut slots').2 := by
  induction h with
  | nil => exact ⟨.nil, .nil⟩
  | cons hslot hslots ih =>
    cases hslot with
    | unfinished hrest => exact ⟨.nil, .cons (.unfinished hrest) hslots⟩
    | finished ha => exact ⟨.cons ha ih.1, ih.2⟩

private theorem lockstep_drive (limit rounds : Nat) {waiting : List (Future ε α)}
    {waiting' : List (Future ε' α')} (hwaiting : List.Forall₂ (Lockstep R S) waiting waiting')
    {slots : List (Slot ε α)} {slots' : List (Slot ε' α')}
    (hslots : List.Forall₂ (Slot.Lockstep R S) slots slots') :
    Lockstep R (List.Forall₂ S) (drive limit rounds waiting slots)
      (drive limit rounds waiting' slots') := by
  induction rounds generalizing waiting waiting' slots slots' with
  | zero => exact .done .nil
  | succ rounds ih =>
    have hroom : limit - slots'.length = limit - slots.length := by rw [hslots.length_eq]
    have htaken := List.forall₂_take (limit - slots.length) hwaiting
    have hunfinished : List.Forall₂ (Slot.Lockstep R S)
        ((waiting.take (limit - slots.length)).map .unfinished)
        ((waiting'.take (limit - slots.length)).map .unfinished) := by
      rw [List.forall₂_map_left_iff, List.forall₂_map_right_iff]
      exact htaken.imp fun _ _ h => .unfinished h
    have hstarted : List.Forall₂ (Slot.Lockstep R S)
        (slots ++ (waiting.take (limit - slots.length)).map .unfinished)
        (slots' ++ (waiting'.take (limit - slots.length)).map .unfinished) :=
      List.rel_append hslots hunfinished
    have hlater := List.forall₂_drop (limit - slots.length) hwaiting
    simp only [drive, hroom]
    generalize slots ++ (waiting.take (limit - slots.length)).map Slot.unfinished = started
      at hstarted
    generalize slots' ++ (waiting'.take (limit - slots.length)).map Slot.unfinished = started'
      at hstarted
    cases hstarted with
    | nil => exact .done .nil
    | @cons slot slot' started started' hslot hrest =>
      obtain ⟨hevents, hpolled⟩ := lockstep_pollAll (.cons hslot hrest)
      obtain ⟨hvalues, hunhanded⟩ := lockstep_handOut hpolled
      have hdriven := ih hlater hunhanded
      refine .emitAll hevents ?_
      generalize (handOut (pollAll (slot :: started)).2).1 = values at hvalues
      generalize (handOut (pollAll (slot' :: started')).2).1 = values' at hvalues
      cases hvalues with
      | nil => exact .pend hdriven
      | cons hvalue hmore =>
        exact hdriven.bind fun _ _ h => .done (List.rel_append (.cons hvalue hmore) h)

theorem lockstep_buffered (limit : Nat) {futures : List (Future ε α)}
    {futures' : List (Future ε' α')} (h : List.Forall₂ (Lockstep R S) futures futures') :
    Lockstep R (List.Forall₂ S) (buffered limit futures) (buffered limit futures') := by
  have hrounds : totalRounds futures' = totalRounds futures := by
    induction h with
    | nil => rfl
    | cons hfuture _ ih => rw [totalRounds, totalRounds, hfuture.waits_eq, ih]
  rw [buffered, buffered, hrounds]
  exact lockstep_drive _ _ h .nil

end Future

end GraphQuery
