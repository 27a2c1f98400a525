import GraphQuery.Response

/-!
# Completions

What becomes of a value on its way into the response: the value, or the reason why there is none,
and the errors that were recorded for it and inside it.
-/

namespace GraphQuery

/-- Why a value could not be completed. -/
inductive Abort where
  /-- The value is null where it must not be; the error is recorded, and the nearest nullable
  value around it becomes null. -/
  | nullPropagation
  /-- The whole request fails. -/
  | fatal (fault : ExecutionFault)

structure Completion where
  outcome : Except Abort Value
  errors : List ResponseError

namespace Completion

def ok (value : Value) : Completion := ⟨.ok value, []⟩

def fatal (fault : ExecutionFault) : Completion := ⟨.error (.fatal fault), []⟩

/-- A recorded error in place of a value. -/
def failed (error : ResponseError) : Completion := ⟨.error .nullPropagation, [error]⟩

/-- A nullable position takes up the null that comes from below. -/
def absorb (nullable : Bool) (completion : Completion) : Completion :=
  match completion.outcome, nullable with
  | .error .nullPropagation, true => { completion with outcome := .ok .null }
  | _, _ => completion

/-- The completion of a field whose value could not be produced. -/
def ofFault (fault : ExecutionFault) (nullable : Bool) (position : Position)
    (path : ResponsePath) : Completion :=
  if fault.isFatal then fatal fault
  else (failed (.ofFieldFault fault position path)).absorb nullable

/-- The values of siblings. The first fatal fault counts, then any null that propagates. -/
def outcomes : List Completion → Except Abort (List Value)
  | [] => .ok []
  | completion :: rest =>
    match completion.outcome with
    | .error (.fatal fault) => .error (.fatal fault)
    | .error .nullPropagation =>
      match outcomes rest with
      | .error (.fatal fault) => .error (.fatal fault)
      | _ => .error .nullPropagation
    | .ok value => (value :: ·) <$> outcomes rest

theorem outcomes_eq_ok_iff {completions : List Completion} {values : List Value} :
    outcomes completions = .ok values ↔ completions.map outcome = values.map .ok := by
  induction completions generalizing values with
  | nil => cases values <;> simp [outcomes]
  | cons completion rest ih =>
    obtain ⟨outcome, errors⟩ := completion
    cases outcome with
    | error abort =>
      cases abort with
      | nullPropagation => simp only [outcomes]; split <;> cases values <;> simp
      | fatal fault => cases values <;> simp [outcomes]
    | ok value =>
      cases values with
      | nil => cases hrest : outcomes rest <;> simp [outcomes, hrest, Functor.map, Except.map]
      | cons first more =>
        have := @ih more
        cases hrest : outcomes rest <;>
          simp_all [outcomes, Functor.map, Except.map]

/-- Siblings become one value, and their errors stand in the order of the siblings. -/
def join (build : List Value → Value) (completions : List Completion) : Completion :=
  { outcome := build <$> outcomes completions
    errors := completions.flatMap Completion.errors }

def ofItems (items : List Completion) : Completion := join .list items

def ofFields (keys : List String) (fields : List Completion) : Completion :=
  join (fun values => .object (keys.zip values)) fields

end Completion

end GraphQuery
