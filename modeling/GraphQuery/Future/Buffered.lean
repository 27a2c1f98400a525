import GraphQuery.Future.Filling

/-!
# Bounded concurrency

`buffered limit` gathers the futures of a list, at most `limit` at a time. It starts them in order,
polls all that are unfinished once in each round, and hands out values in order. Main statement: it
leaves no room unused and so is one of the ways to gather futures, whose values are those of the
futures.
-/

namespace GraphQuery

namespace Future

variable {ε α : Type}

namespace Slot

/-- A bound on the rounds that the slot lasts. -/
def rounds : Slot ε α → Nat
  | .unfinished rest => rest.waits + 2
  | .finished _ => 1

theorem rounds_unfinished (rest : Future ε α) :
    (Slot.unfinished rest : Slot ε α).rounds = rest.waits + 2 := rfl

theorem rounds_finished (a : α) : (Slot.finished a : Slot ε α).rounds = 1 := rfl

end Slot

def pollAll : List (Slot ε α) → List ε × List (Slot ε α)
  | [] => ([], [])
  | .unfinished rest :: slots =>
    (rest.poll.1 ++ (pollAll slots).1, rest.poll.2 :: (pollAll slots).2)
  | .finished a :: slots => ((pollAll slots).1, .finished a :: (pollAll slots).2)

/-- The values up to the first unfinished slot, and the slots from there on. -/
def handOut : List (Slot ε α) → List α × List (Slot ε α)
  | .finished a :: slots => (a :: (handOut slots).1, (handOut slots).2)
  | slots => ([], slots)

/-- Rounds of starting, polling and handing out; a round without a value ends a poll of the
whole. -/
def drive (limit : Nat) : Nat → List (Future ε α) → List (Slot ε α) → Future ε (List α)
  | 0, _, _ => .done []
  | rounds + 1, waiting, slots =>
    let room := limit - slots.length
    let started := slots ++ (waiting.take room).map .unfinished
    let waiting := waiting.drop room
    match started with
    | [] => .done []
    | started =>
      let polled := pollAll started
      let handed := handOut polled.2
      let rest := drive limit rounds waiting handed.2
      emitAll polled.1 <|
        match handed.1 with
        | [] => .pend rest
        | values => rest.bind fun more => .done (values ++ more)

/-- The rounds that suffice for futures that are not yet started. -/
def totalRounds : List (Future ε α) → Nat
  | [] => 0
  | f :: futures => f.waits + 2 + totalRounds futures

/-- Runs the futures at most `limit` at a time and returns their values in order. -/
def buffered (limit : Nat) (futures : List (Future ε α)) : Future ε (List α) :=
  drive (max limit 1) (totalRounds futures + 1) futures []

@[simp] theorem buffered_nil (limit : Nat) :
    buffered limit ([] : List (Future ε α)) = .done [] := by
  simp only [buffered, drive, List.take_nil, List.map_nil, List.append_nil]

/-- The rounds that suffice for started futures. -/
private def slotRounds : List (Slot ε α) → Nat
  | [] => 0
  | slot :: slots => slot.rounds + slotRounds slots

private theorem rounds_poll (f : Future ε α) : f.poll.2.rounds < f.waits + 2 := by
  induction f with
  | done a => simp [poll, Slot.rounds, waits]
  | emit event rest ih => simpa [poll, waits] using ih
  | pend rest ih => simp [poll, Slot.rounds, waits]

section Rounds

variable {limit : Nat} {waiting : List (Future ε α)} {run : Future ε (List α)}

private theorem pollAll_append (slots more : List (Slot ε α)) :
    pollAll (slots ++ more) =
      ((pollAll slots).1 ++ (pollAll more).1, (pollAll slots).2 ++ (pollAll more).2) := by
  induction slots with
  | nil => rfl
  | cons slot slots ih => cases slot <;> simp [pollAll, ih]

private theorem pollAll_map_unfinished (futures : List (Future ε α)) :
    pollAll (futures.map .unfinished) =
      (futures.flatMap fun f => f.poll.1, futures.map fun f => f.poll.2) := by
  induction futures with
  | nil => rfl
  | cons f futures ih => simp [pollAll, ih]

private theorem sweeps_pollAll (slots : List (Slot ε α)) :
    Sweeps slots (pollAll slots).1 (pollAll slots).2 := by
  induction slots with
  | nil => exact .nil
  | cons slot slots ih =>
    cases slot with
    | unfinished rest => exact .poll ih
    | finished a => exact .skip ih

private theorem Fills.turnAll {slots started : List (Slot ε α)}
    (hstarted : slots ++ (waiting.take (limit - slots.length)).map .unfinished = started)
    (h : Fills limit (waiting.drop (limit - slots.length)) (pollAll started).2 run) :
    Fills limit waiting slots (emitAll (pollAll started).1 run) := by
  subst hstarted
  rw [pollAll_append, pollAll_map_unfinished] at h ⊢
  exact .turn (sweeps_pollAll slots) h

private theorem Fills.handOutSlots {slots : List (Slot ε α)}
    (h : Fills limit waiting (Future.handOut slots).2 run) :
    Fills limit waiting slots
      (run.bind fun more => .done ((Future.handOut slots).1 ++ more)) := by
  induction slots with
  | nil =>
    rw [show (fun more => Future.done ((Future.handOut []).1 ++ more)) =
      (Future.done : List α → Future ε (List α)) from rfl, bind_done]
    exact h
  | cons slot slots ih =>
    cases slot with
    | unfinished rest =>
      rw [show (fun more => Future.done ((Future.handOut (.unfinished rest :: slots)).1 ++ more)) =
        (Future.done : List α → Future ε (List α)) from rfl, bind_done]
      exact h
    | finished a =>
      have hrest := (ih h).handOut (a := a)
      rwa [bind_assoc] at hrest

end Rounds

private theorem slotRounds_pollAll_le (slots : List (Slot ε α)) :
    slotRounds (pollAll slots).2 ≤ slotRounds slots := by
  induction slots with
  | nil => exact Nat.le_refl _
  | cons slot slots ih =>
    cases slot with
    | unfinished rest =>
      have := rounds_poll rest
      simp only [slotRounds, pollAll, Slot.rounds_unfinished]
      omega
    | finished a => simpa [slotRounds, pollAll] using ih

private theorem slotRounds_handOut_add (slots : List (Slot ε α)) :
    slotRounds (handOut slots).2 + (handOut slots).1.length = slotRounds slots := by
  induction slots with
  | nil => rfl
  | cons slot slots ih =>
    cases slot with
    | unfinished rest => simp [handOut]
    | finished a =>
      simp only [slotRounds, handOut, Slot.rounds_finished, List.length_cons]
      omega

/-- A round either hands out a value or brings some slot closer to its own. -/
private theorem slotRounds_round_lt (slots : List (Slot ε α)) (h : slots ≠ []) :
    slotRounds (handOut (pollAll slots).2).2 < slotRounds slots := by
  have hle := slotRounds_handOut_add (pollAll slots).2
  have hpoll := slotRounds_pollAll_le slots
  cases slots with
  | nil => exact absurd rfl h
  | cons slot slots =>
    cases slot with
    | unfinished rest =>
      have := rounds_poll rest
      have htail := slotRounds_pollAll_le slots
      simp only [slotRounds, pollAll, Slot.rounds_unfinished] at *
      omega
    | finished a =>
      simp only [pollAll, handOut, List.length_cons] at hle hpoll ⊢
      omega

private theorem slotRounds_append (slots more : List (Slot ε α)) :
    slotRounds (slots ++ more) = slotRounds slots + slotRounds more := by
  induction slots with
  | nil => rw [List.nil_append, slotRounds, Nat.zero_add]
  | cons slot slots ih => rw [List.cons_append, slotRounds, slotRounds, ih, Nat.add_assoc]

private theorem slotRounds_map_unfinished (futures : List (Future ε α)) :
    slotRounds (futures.map .unfinished) = totalRounds futures := by
  induction futures with
  | nil => rfl
  | cons f futures ih => rw [List.map_cons, slotRounds, totalRounds, ih, Slot.rounds_unfinished]

private theorem totalRounds_take_add_drop (n : Nat) (futures : List (Future ε α)) :
    totalRounds (futures.take n) + totalRounds (futures.drop n) = totalRounds futures := by
  induction futures generalizing n with
  | nil => simp [totalRounds]
  | cons f futures ih =>
    cases n with
    | zero => simp [totalRounds]
    | succ n =>
      rw [List.take_succ_cons, List.drop_succ_cons, totalRounds, totalRounds, Nat.add_assoc, ih]

private theorem length_pollAll (slots : List (Slot ε α)) :
    (pollAll slots).2.length = slots.length := by
  induction slots with
  | nil => rfl
  | cons slot slots ih => cases slot <;> simp [pollAll, ih]

private theorem length_handOut_le (slots : List (Slot ε α)) :
    (handOut slots).2.length ≤ slots.length := by
  induction slots with
  | nil => exact Nat.le_refl _
  | cons slot slots ih =>
    cases slot with
    | unfinished rest => exact Nat.le_refl _
    | finished a => exact Nat.le_succ_of_le ih

private theorem handOut_of_nil {slots : List (Slot ε α)} (h : (handOut slots).1 = []) :
    (handOut slots).2 = slots := by
  cases slots with
  | nil => rfl
  | cons slot slots =>
    cases slot with
    | unfinished rest => rfl
    | finished a => cases h

private theorem fills_drive {limit : Nat} (hlimit : 0 < limit) (rounds : Nat)
    (waiting : List (Future ε α)) (slots : List (Slot ε α)) (hslots : slots.length ≤ limit)
    (henough : totalRounds waiting + slotRounds slots < rounds) :
    Fills limit waiting slots (drive limit rounds waiting slots) := by
  induction rounds generalizing waiting slots with
  | zero => omega
  | succ rounds ih =>
    have hrounds : slotRounds (slots ++ (waiting.take (limit - slots.length)).map .unfinished) +
        totalRounds (waiting.drop (limit - slots.length)) =
        totalRounds waiting + slotRounds slots := by
      rw [slotRounds_append, slotRounds_map_unfinished,
        ← totalRounds_take_add_drop (limit - slots.length) waiting]
      omega
    have hlength : (slots ++ (waiting.take (limit - slots.length)).map Slot.unfinished).length =
        slots.length + min (limit - slots.length) waiting.length := by
      rw [List.length_append, List.length_map, List.length_take]
    rw [drive]
    generalize hs : slots ++ (waiting.take (limit - slots.length)).map Slot.unfinished = started
      at hrounds hlength
    match started, hrounds, hlength, hs with
    | [], _, _, hs =>
      obtain ⟨rfl, htake⟩ := List.append_eq_nil_iff.1 hs
      simp only [List.map_eq_nil_iff, List.length_nil, Nat.sub_zero, List.take_eq_nil_iff] at htake
      rcases htake with h | rfl
      · omega
      · exact .finish
    | slot :: started, hrounds, hlength, hs =>
      have hround := slotRounds_round_lt (slot :: started) (by simp)
      have hheld := length_handOut_le (pollAll (slot :: started)).2
      rw [length_pollAll] at hheld
      have hrest := ih (waiting.drop (limit - slots.length))
        (handOut (pollAll (slot :: started)).2).2 (by omega) (by omega)
      apply Fills.turnAll hs
      have hhanded := hrest.handOutSlots
      split
      · next hnil =>
        rw [hnil] at hhanded
        have hall := handOut_of_nil hnil
        refine .wait ?_ (bind_done (drive ..) ▸ hhanded)
        rw [length_pollAll, List.drop_eq_nil_iff]
        omega
      · exact hhanded

theorem fills_buffered (limit : Nat) (futures : List (Future ε α)) :
    Fills (max limit 1) futures [] (buffered limit futures) :=
  fills_drive (by omega) _ _ _ (Nat.zero_le _) (by simp [slotRounds])

/-- Running in rounds is one of the ways. -/
theorem gathers_buffered (limit : Nat) (futures : List (Future ε α)) :
    Gathers (max limit 1) futures [] (buffered limit futures) :=
  (fills_buffered limit futures).gathers (Nat.zero_le _)

@[simp] theorem value_buffered (limit : Nat) (futures : List (Future ε α)) :
    (buffered limit futures).value = futures.map value :=
  (gathers_buffered limit futures).value_eq

/-- Runs futures in rounds everywhere. -/
def Buffering.rounds (ι ε α : Type) : Buffering ι ε α where
  gather limit _ := buffered limit
  gathers limit _ futures hlimit := by
    have h := gathers_buffered limit futures
    rwa [Nat.max_eq_left hlimit] at h

theorem filling_rounds {ι : Type} : (Buffering.rounds ι ε α).Filling := by
  intro limit place futures hlimit
  have h := fills_buffered limit futures
  rwa [Nat.max_eq_left hlimit] at h

end Future

end GraphQuery
