/-!
# Tables in order of insertion

A table is a list of entries with one entry a key. Writing a key that is present changes its value
in place, and a new key goes to the end, so the keys stand in the order of their first insertion.

## Main statements

* `Table.find?_insert`: reading after writing.
* `Table.keys_insert`: the keys after writing.
-/
namespace Reflection

/-- Entries in order of the first insertion of their keys. -/
abbrev Table (κ α : Type) := List (κ × α)

namespace Table

variable {κ α : Type} [DecidableEq κ]

/-- Value of a key. -/
def find? : Table κ α → κ → Option α
  | [], _ => none
  | (k, v) :: rest, key => if k = key then some v else find? rest key

/-- The key is present. -/
def contains (t : Table κ α) (key : κ) : Bool := (find? t key).isSome

/-- The table with a value for a key, in the key's place or at the end. -/
def insert : Table κ α → κ → α → Table κ α
  | [], key, value => [(key, value)]
  | (k, v) :: rest, key, value =>
    if k = key then (k, value) :: rest else (k, v) :: insert rest key value

/-- The keys in order. -/
def keys (t : Table κ α) : List κ := t.map Prod.fst

/-- The values in the order of their keys. -/
def values (t : Table κ α) : List α := t.map Prod.snd

/-- The table with the entries of a list written one after the other. -/
def insertAll (t : Table κ α) (entries : List (κ × α)) : Table κ α :=
  entries.foldl (fun t e => insert t e.1 e.2) t

/-- The table that a list of entries makes. -/
def ofEntries (entries : List (κ × α)) : Table κ α := insertAll [] entries

@[simp] theorem find?_insert (t : Table κ α) (key : κ) (value : α) (k : κ) :
    find? (insert t key value) k = if key = k then some value else find? t k := by
  induction t with
  | nil => simp [insert, find?]
  | cons e rest ih =>
    obtain ⟨a, v⟩ := e
    by_cases h : a = key
    · subst h; by_cases h' : a = k <;> simp [insert, find?, h']
    · by_cases h' : a = k
      · subst h'; simp [insert, find?, h, Ne.symm h]
      · simp [insert, find?, h, h', ih]

theorem contains_iff_mem_keys (t : Table κ α) (key : κ) :
    contains t key = true ↔ key ∈ keys t := by
  induction t with
  | nil => simp [contains, find?, keys]
  | cons e rest ih =>
    obtain ⟨a, v⟩ := e
    simp only [contains, keys] at ih
    by_cases h : a = key
    · simp [contains, find?, keys, h]
    · simp [contains, find?, keys, h, Ne.symm h, ih]

theorem keys_insert (t : Table κ α) (key : κ) (value : α) :
    keys (insert t key value) = if key ∈ keys t then keys t else keys t ++ [key] := by
  induction t with
  | nil => simp [insert, keys]
  | cons e rest ih =>
    obtain ⟨a, v⟩ := e
    simp only [keys] at ih
    by_cases h : a = key
    · simp [insert, keys, h]
    · by_cases hm : key ∈ rest.map Prod.fst
      · simp [insert, keys, h, ih, hm]
      · simp [insert, keys, h, ih, hm, Ne.symm h]

end Table
end Reflection
