/-!
# Tables

A table maps texts to values. It is a list of entries with one entry for each
key, in the order in which the keys were first put. The main statement is
`get?_insert`: a later value for a key replaces the earlier one and leaves all
other keys alone.
-/

namespace UpgradeNotes

/-- A finite map from texts to values, in order of first insertion. -/
structure Table (α : Type) where
  /-- The entries, at most one for each key. -/
  entries : List (String × α) := []

namespace Table

variable {α : Type}

/-- The table without entries. -/
def empty : Table α := {}

/-- The value of a key. -/
def get? (t : Table α) (key : String) : Option α :=
  t.entries.lookup key

/-- Whether the key has a value. -/
def contains (t : Table α) (key : String) : Bool :=
  (t.get? key).isSome

/-- The number of keys. -/
def size (t : Table α) : Nat :=
  t.entries.length

/-- Replaces the entry of `key`, or adds one at the end. -/
def put (key : String) (value : α) : List (String × α) → List (String × α)
  | [] => [(key, value)]
  | entry :: rest =>
    if entry.1 = key then (key, value) :: rest else entry :: put key value rest

/-- Gives `key` the value `value`. -/
def insert (t : Table α) (key : String) (value : α) : Table α :=
  ⟨put key value t.entries⟩

/-- The keys in order. -/
def keys (t : Table α) : List String :=
  t.entries.map (·.1)

@[simp] theorem get?_empty (key : String) : (empty : Table α).get? key = none := rfl

theorem lookup_put (key other : String) (value : α) (entries : List (String × α)) :
    (put key value entries).lookup other =
      if other = key then some value else entries.lookup other := by
  induction entries with
  | nil =>
    by_cases h : other = key
    · simp [put, h]
    · have hb : (other == key) = false := by simpa using h
      simp [put, List.lookup_cons, h, hb]
  | cons entry rest ih =>
    obtain ⟨k, v⟩ := entry
    by_cases hk : k = key
    · subst hk
      by_cases h : other = k
      · simp [put, h]
      · have hb : (other == k) = false := by simpa using h
        simp [put, List.lookup_cons, h, hb]
    · simp only [put, if_neg hk, List.lookup_cons]
      by_cases h : other = k
      · subst h
        simp [hk]
      · have hb : (other == k) = false := by simpa using h
        simp [hb, ih]

/-- Looking a key up after an insertion finds the new value under its key and
the old values elsewhere. -/
theorem get?_insert (t : Table α) (key other : String) (value : α) :
    (t.insert key value).get? other = if other = key then some value else t.get? other :=
  lookup_put key other value t.entries

end Table

end UpgradeNotes
