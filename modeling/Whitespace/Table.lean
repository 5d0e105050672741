/-!
# Tables in order of insertion

A finite map that remembers the order in which its keys were first inserted. Writing to a key that
is present keeps the key's place.

## Main definitions

* `Table` — the type, a list of entries.
* `Table.get?`, `Table.insert` — reading and writing, with `get?_insert` relating them.
-/

namespace Whitespace

/-- A finite map whose entries are kept in order of first insertion. -/
structure Table (κ ν : Type) where
  entries : List (κ × ν)
  deriving Repr, DecidableEq

namespace Table

variable {κ ν : Type} [DecidableEq κ]

/-- The table without entries. -/
def empty : Table κ ν := ⟨[]⟩

instance : EmptyCollection (Table κ ν) := ⟨empty⟩

/-- The first value stored under `k` in a list of entries. -/
def lookup (k : κ) : List (κ × ν) → Option ν
  | [] => none
  | (k', v) :: rest => if k' = k then some v else lookup k rest

/-- Replace the first value stored under `k`, or add an entry at the end. -/
def write (k : κ) (v : ν) : List (κ × ν) → List (κ × ν)
  | [] => [(k, v)]
  | (k', v') :: rest => if k' = k then (k, v) :: rest else (k', v') :: write k v rest

/-- The value stored under a key. -/
def get? (t : Table κ ν) (k : κ) : Option ν := lookup k t.entries

/-- Store a value under a key. -/
def insert (t : Table κ ν) (k : κ) (v : ν) : Table κ ν := ⟨write k v t.entries⟩

/-- Whether a key is present. -/
def contains (t : Table κ ν) (k : κ) : Bool := (t.get? k).isSome

/-- The number of entries. -/
def size (t : Table κ ν) : Nat := t.entries.length

/-- The table that a list of entries builds when they are inserted one after the other. -/
def ofList (entries : List (κ × ν)) : Table κ ν :=
  entries.foldl (fun t e => t.insert e.1 e.2) empty

@[simp] theorem get?_empty (k : κ) : (empty : Table κ ν).get? k = none := rfl

theorem lookup_write (k k' : κ) (v : ν) (entries : List (κ × ν)) :
    lookup k' (write k v entries) = if k' = k then some v else lookup k' entries := by
  induction entries with
  | nil =>
    by_cases h : k' = k
    · simp [write, lookup, h]
    · simp [write, lookup, h, Ne.symm h]
  | cons e rest ih =>
    by_cases h : e.1 = k <;> by_cases h' : k' = k <;> grind [write, lookup]

/-- Reading after writing gives the value written, and leaves the other keys alone. -/
@[simp] theorem get?_insert (t : Table κ ν) (k k' : κ) (v : ν) :
    (t.insert k v).get? k' = if k' = k then some v else t.get? k' :=
  lookup_write k k' v t.entries

end Table

end Whitespace
