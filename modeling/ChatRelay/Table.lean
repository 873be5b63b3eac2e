/-!
# Tables

A table is an association list kept in strictly increasing key order, so that a key occurs once and
two tables with the same entries are the same list. Objects of the data format, model mappings,
sessions and pending tool calls are tables.

`find?_insert` says what an insertion does to the lookups, and `Sorted` states the invariant.
-/

namespace ChatRelay

/-- Entries by key; every operation below keeps the keys strictly increasing. -/
abbrev Table (κ ν : Type) := List (κ × ν)

namespace Table

variable {κ ν : Type} [LT κ] [DecidableLT κ] [DecidableEq κ]

omit [LT κ] [DecidableLT κ] in
/-- The value stored under a key. -/
def find? : Table κ ν → κ → Option ν
  | [], _ => none
  | (k', v) :: t, k => if k' = k then some v else find? t k

omit [LT κ] [DecidableLT κ] in
/-- Whether the key is present. -/
def contains (t : Table κ ν) (k : κ) : Bool :=
  (find? t k).isSome

/-- The table with `v` under `k`, in place of what was there. -/
def insert : Table κ ν → κ → ν → Table κ ν
  | [], k, v => [(k, v)]
  | (k', v') :: t, k, v =>
    if k = k' then (k, v) :: t
    else if k < k' then (k, v) :: (k', v') :: t
    else (k', v') :: insert t k v

omit [LT κ] [DecidableLT κ] in
/-- The table without the key. -/
def erase : Table κ ν → κ → Table κ ν
  | [], _ => []
  | (k', v) :: t, k => if k' = k then t else (k', v) :: erase t k

/-- The table of a list of entries; of two entries with one key the later counts. -/
def ofList (entries : List (κ × ν)) : Table κ ν :=
  entries.foldl (fun t e => insert t e.1 e.2) []

/-- The invariant: strictly increasing keys. -/
def Sorted (t : Table κ ν) : Prop :=
  t.Pairwise fun a b => a.1 < b.1

theorem find?_insert_self (t : Table κ ν) (k : κ) (v : ν) : find? (insert t k v) k = some v := by
  induction t with
  | nil => simp [insert, find?]
  | cons e t ih =>
    obtain ⟨k', v'⟩ := e
    simp only [insert]
    split
    · simp [find?]
    · split
      · simp [find?]
      · rename_i h _
        simp [find?, ih, Ne.symm h]

theorem find?_insert_of_ne (t : Table κ ν) {k l : κ} (v : ν) (h : l ≠ k) :
    find? (insert t k v) l = find? t l := by
  induction t with
  | nil => simp [insert, find?, Ne.symm h]
  | cons e t ih =>
    obtain ⟨k', v'⟩ := e
    simp only [insert]
    split
    · rename_i hk
      subst hk
      simp [find?, Ne.symm h]
    · split
      · simp [find?, Ne.symm h]
      · simp [find?, ih]

/-- **A lookup after an insertion** finds the new value under its key and the old ones elsewhere. -/
theorem find?_insert (t : Table κ ν) (k l : κ) (v : ν) :
    find? (insert t k v) l = if l = k then some v else find? t l := by
  by_cases h : l = k
  · subst h
    simp [find?_insert_self]
  · simp [h, find?_insert_of_ne t v h]

end Table

end ChatRelay
