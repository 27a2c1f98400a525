import GraphQuery.Json.Extract

/-!
# Settings

How requests are executed: how many siblings are resolved at once and how deep operations may
nest.
-/

namespace GraphQuery

structure Settings where
  /-- How many sibling fields or list items are resolved at once within one selection; zero
  counts as one. -/
  concurrencyLimit : Nat
  /-- How deep the fields of an operation may nest, fragments included. -/
  maxDepth : Option Nat
  deriving DecidableEq, Repr

namespace Settings

/-- Thirty-two siblings at once and any depth. -/
def default : Settings := { concurrencyLimit := 32, maxDepth := none }

def siblingLimit (settings : Settings) : Nat := max settings.concurrencyLimit 1

def asLimit (value : Json) : Except ExtractFault Nat := Int.toNat <$> value.asInteger .size

def asDepth : Json → Except ExtractFault (Option Nat)
  | .null => .ok none
  | value => some <$> asLimit value

def withEntry (settings : Settings) (key : String) (value : Json) : Except ExtractFault Settings :=
  match key with
  | "concurrency_limit" => do pure { settings with concurrencyLimit := ← asLimit value }
  | "max_depth" => do pure { settings with maxDepth := ← asDepth value }
  | key => .error (.unknownKey key ["concurrency_limit", "max_depth"])

/-- Reads settings from an object, or from a list of the entries in order. Entries that are left
out keep their default, and the first faulty entry counts. -/
def ofJson : Json → Except ExtractFault Settings
  | .object fields =>
    fields.foldlM (fun settings entry => settings.withEntry entry.1 entry.2) default
  | .array [] => .ok default
  | .array [limit] => default.withEntry "concurrency_limit" limit
  | .array [limit, depth] => do
    (← default.withEntry "concurrency_limit" limit).withEntry "max_depth" depth
  | .array (limit :: depth :: rest) => do
    let _ ← (← default.withEntry "concurrency_limit" limit).withEntry "max_depth" depth
    .error (.tooManyItems (rest.length + 2))
  | value => .error (.wrongKind value "struct ExecutorConfig")

end Settings

end GraphQuery
