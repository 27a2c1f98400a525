/-!
# Ordered keyed lists

An object, a map or a registry is a list of entries whose keys differ, in the order in which the
keys were first written. Writing a key that is present replaces its value and keeps its place.
-/

namespace GraphQuery

/-- Entries in the order of their first writing. -/
abbrev Keyed (α : Type) := List (String × α)

namespace Keyed

variable {α : Type}

def get? (entries : Keyed α) (key : String) : Option α :=
  match entries with
  | [] => none
  | (k, value) :: rest => if k = key then some value else get? rest key

/-- Writes a value under a key, at its old place if the key is present, else at the end. -/
def insert (entries : Keyed α) (key : String) (value : α) : Keyed α :=
  match entries with
  | [] => [(key, value)]
  | (k, old) :: rest => if k = key then (k, value) :: rest else (k, old) :: insert rest key value

def ofList (entries : List (String × α)) : Keyed α :=
  entries.foldl (fun acc entry => acc.insert entry.1 entry.2) []

def keys (entries : Keyed α) : List String := entries.map Prod.fst

theorem get?_insert (entries : Keyed α) (key other : String) (value : α) :
    (entries.insert key value).get? other =
      if key = other then some value else entries.get? other := by
  induction entries with
  | nil => simp [insert, get?]
  | cons entry rest ih => grind [insert, get?]

theorem keys_insert (entries : Keyed α) (key : String) (value : α) :
    (entries.insert key value).keys =
      if key ∈ entries.keys then entries.keys else entries.keys ++ [key] := by
  induction entries with
  | nil => simp [insert, keys]
  | cons entry rest ih => grind [insert, keys]

theorem nodup_keys_insert {entries : Keyed α} (h : entries.keys.Nodup) (key : String) (value : α) :
    (entries.insert key value).keys.Nodup := by
  rw [keys_insert]
  split
  · exact h
  · rename_i hkey
    exact List.nodup_append.2 ⟨h, by simp, by grind⟩

theorem nodup_keys_ofList (entries : List (String × α)) : (ofList entries).keys.Nodup := by
  suffices h : ∀ acc : Keyed α, acc.keys.Nodup →
      (entries.foldl (fun acc entry => acc.insert entry.1 entry.2) acc).keys.Nodup from
    h [] (by simp [keys])
  induction entries with
  | nil => exact fun acc h => h
  | cons entry rest ih => exact fun acc h => ih _ (nodup_keys_insert h entry.1 entry.2)

theorem getElem?_of_get? {entries : Keyed α} {key : String} {value : α}
    (h : entries.get? key = some value) : ∃ i : Nat, entries[i]? = some (key, value) := by
  induction entries with
  | nil => cases h
  | cons entry rest ih =>
    obtain ⟨k, held⟩ := entry
    rw [get?] at h
    split at h
    · next hkey => exact ⟨0, by rw [List.getElem?_cons_zero, hkey, Option.some.inj h]⟩
    · obtain ⟨i, hi⟩ := ih h
      exact ⟨i + 1, by rw [List.getElem?_cons_succ, hi]⟩

/-- Where keys differ, each entry is found under its key. -/
theorem get?_of_getElem? {entries : Keyed α} (hkeys : entries.keys.Nodup) {i : Nat}
    {key : String} {value : α} (h : entries[i]? = some (key, value)) :
    entries.get? key = some value := by
  induction entries generalizing i with
  | nil => simp at h
  | cons entry rest ih =>
    obtain ⟨k, held⟩ := entry
    obtain ⟨hk, hrest⟩ := List.nodup_cons.1 hkeys
    rw [get?]
    cases i with
    | zero =>
      obtain ⟨rfl, rfl⟩ := Prod.mk.inj (Option.some.inj h)
      exact if_pos rfl
    | succ i =>
      rw [List.getElem?_cons_succ] at h
      have hmem : key ∈ keys rest := List.mem_map.2 ⟨_, List.mem_of_getElem? h, rfl⟩
      have hne : k ≠ key := fun heq => hk (heq ▸ hmem)
      rw [if_neg hne]
      exact ih hrest h

end Keyed

end GraphQuery
