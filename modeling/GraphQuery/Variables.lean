import GraphQuery.Json.Extract
import GraphQuery.Value

/-!
# Variables

The values that come with a request, by variable name and in the order of the names.
-/

namespace GraphQuery

/-- Values by name, sorted by the code points of the names. -/
structure Variables where
  entries : List (String × Value)

namespace Variables

def empty : Variables := ⟨[]⟩

def get? (inputs : Variables) (name : String) : Option Value :=
  (inputs.entries.find? fun entry => entry.1 == name).map Prod.snd

/-- Sorted insertion; a name that is present gets the new value. -/
def insertSorted (name : String) (value : Value) :
    List (String × Value) → List (String × Value)
  | [] => [(name, value)]
  | (key, old) :: rest =>
    if name = key then (name, value) :: rest
    else if name < key then (name, value) :: (key, old) :: rest
    else (key, old) :: insertSorted name value rest

def insert (inputs : Variables) (name : String) (value : Value) : Variables :=
  ⟨insertSorted name value inputs.entries⟩

theorem get?_insert (inputs : Variables) (name other : String) (value : Value) :
    (inputs.insert name value).get? other =
      if name = other then some value else inputs.get? other := by
  obtain ⟨entries⟩ := inputs
  simp only [insert, get?]
  induction entries with
  | nil => simp [insertSorted, List.find?_cons]; grind
  | cons entry rest ih => simp only [insertSorted]; grind

def ofValue : Value → Variables
  | .object fields => fields.foldl (fun inputs entry => inputs.insert entry.1 entry.2) empty
  | _ => empty

def ofJson (value : Json) : Variables := ofValue (.ofJson value)

/-- Reads variables from an object or null; anything else is refused. -/
def read (value : Json) : Except ExtractFault Variables :=
  match value with
  | .null => .ok empty
  | .object _ => .ok (ofJson value)
  | value => .error (.wrongKind value "a map")

def toJson (inputs : Variables) : Json :=
  .object (inputs.entries.map fun entry => (entry.1, entry.2.toJson))

end Variables

end GraphQuery
