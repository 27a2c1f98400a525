/-!
# Futures

A computation that is polled until it has a value. Each poll runs to the next point at which the
computation waits, and what happens on the way is recorded as events. `value` forgets the polls
and the events, `events` forgets the polls and the value.
-/

namespace GraphQuery

inductive Future (ε α : Type) where
  | done (a : α)
  | emit (event : ε) (rest : Future ε α)
  | pend (rest : Future ε α)

namespace Future

variable {ε α β : Type}

def bind : Future ε α → (α → Future ε β) → Future ε β
  | .done a, next => next a
  | .emit event rest, next => .emit event (rest.bind next)
  | .pend rest, next => .pend (rest.bind next)

instance : Monad (Future ε) where
  pure := .done
  bind := bind

/-- Waits for `n` polls before going on. -/
def pending : Nat → Future ε α → Future ε α
  | 0, rest => rest
  | n + 1, rest => .pend (pending n rest)

def emitAll : List ε → Future ε α → Future ε α
  | [], rest => rest
  | event :: events, rest => .emit event (emitAll events rest)

def value : Future ε α → α
  | .done a => a
  | .emit _ rest => rest.value
  | .pend rest => rest.value

def events : Future ε α → List ε
  | .done _ => []
  | .emit event rest => event :: rest.events
  | .pend rest => rest.events

/-- How many polls end without the value. -/
def waits : Future ε α → Nat
  | .done _ => 0
  | .emit _ rest => rest.waits
  | .pend rest => rest.waits + 1

theorem bind_done (f : Future ε α) : f.bind .done = f := by
  induction f with
  | done a => rfl
  | emit event rest ih => exact congrArg (emit event) ih
  | pend rest ih => exact congrArg pend ih

theorem bind_assoc {γ : Type} (f : Future ε α) (next : α → Future ε β)
    (last : β → Future ε γ) : (f.bind next).bind last = f.bind fun a => (next a).bind last := by
  induction f with
  | done a => rfl
  | emit event rest ih => exact congrArg (emit event) ih
  | pend rest ih => exact congrArg pend ih

theorem emitAll_append (events more : List ε) (f : Future ε α) :
    emitAll (events ++ more) f = emitAll events (emitAll more f) := by
  induction events with
  | nil => rfl
  | cons event events ih => exact congrArg (emit event) ih

@[simp] theorem value_bind (f : Future ε α) (next : α → Future ε β) :
    (f.bind next).value = (next f.value).value := by
  induction f with
  | done a => rfl
  | emit event rest ih => exact ih
  | pend rest ih => exact ih

@[simp] theorem value_monad_bind (f : Future ε α) (next : α → Future ε β) :
    (f >>= next).value = (next f.value).value := value_bind f next

@[simp] theorem value_pure (a : α) : (pure a : Future ε α).value = a := rfl

@[simp] theorem value_pending (n : Nat) (f : Future ε α) : (pending n f).value = f.value := by
  induction n with
  | zero => rfl
  | succ n ih => exact ih

@[simp] theorem value_emitAll (events : List ε) (f : Future ε α) :
    (emitAll events f).value = f.value := by
  induction events with
  | nil => rfl
  | cons event events ih => exact ih

@[simp] theorem events_bind (f : Future ε α) (next : α → Future ε β) :
    (f.bind next).events = f.events ++ (next f.value).events := by
  induction f with
  | done a => rfl
  | emit event rest ih => exact congrArg (event :: ·) ih
  | pend rest ih => exact ih

@[simp] theorem events_monad_bind (f : Future ε α) (next : α → Future ε β) :
    (f >>= next).events = f.events ++ (next f.value).events := events_bind f next

@[simp] theorem waits_bind (f : Future ε α) (next : α → Future ε β) :
    (f.bind next).waits = f.waits + (next f.value).waits := by
  induction f with
  | done a => exact (Nat.zero_add _).symm
  | emit event rest ih => exact ih
  | pend rest ih => rw [bind, waits, ih, waits, value, Nat.add_right_comm]

@[simp] theorem waits_emitAll (events : List ε) (f : Future ε α) :
    (emitAll events f).waits = f.waits := by
  induction events with
  | nil => rfl
  | cons event events ih => exact ih

@[simp] theorem events_pure (a : α) : (pure a : Future ε α).events = [] := rfl

@[simp] theorem events_pending (n : Nat) (f : Future ε α) : (pending n f).events = f.events := by
  induction n with
  | zero => rfl
  | succ n ih => exact ih

@[simp] theorem events_emitAll (events : List ε) (f : Future ε α) :
    (emitAll events f).events = events ++ f.events := by
  induction events with
  | nil => rfl
  | cons event events ih => exact congrArg (event :: ·) ih

end Future

end GraphQuery
