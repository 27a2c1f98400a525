import GraphQuery.Completion.Run

/-!
# Traces

What the events of a run tell about its resolvers: the order in which they were started and how
many of them ran at once.
-/

namespace GraphQuery

namespace Event

/-- The field whose resolver starts, as `Type.field`. -/
def startedField? : Event → Option String
  | .started _ object context => some (object ++ "." ++ context.fieldName)
  | _ => none

def running (count : Nat) : Event → Nat
  | .started .. => count + 1
  | .finished .. => count - 1
  | .resolving .. => count

def peak (count : Nat) : List Event → Nat
  | [] => count
  | event :: rest => max count (peak (event.running count) rest)

end Event

def startedFields (events : List Event) : List String := events.filterMap Event.startedField?

def maxInFlight (events : List Event) : Nat := Event.peak 0 events

end GraphQuery
