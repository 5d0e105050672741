/-!
# Places in a text

A cursor is a place in a text. It knows the text that follows, how far it is from the start, and
the character right before it.

## Main definitions

* `Cursor` — a place in a text.
* `Cursor.span` — move over the characters of a class.
* `longest` — of several ways to read on, the one that goes furthest.
-/

namespace Whitespace.Assembly

/-- A place in a text. -/
structure Cursor where
  /-- The number of characters in front. -/
  position : Nat
  /-- The last character in front. -/
  before : Option Char
  /-- The characters behind. -/
  rest : List Char
  deriving DecidableEq, Repr

namespace Cursor

/-- The start of a text. -/
def ofText (text : List Char) : Cursor := ⟨0, none, text⟩

/-- Move over the longest row of characters of a class. -/
def span (p : Char → Bool) (c : Cursor) : List Char × Cursor :=
  let row := c.rest.takeWhile p
  (row, ⟨c.position + row.length, row.getLast?.or c.before, c.rest.dropWhile p⟩)

/-- The characters that may stand between tokens. -/
def isGap (c : Char) : Bool := c = ' ' || c = '\t' || c = '\n' || c = '\r'

/-- Move to the next token. -/
def skip (c : Cursor) : Cursor := (c.span isGap).2

/-- Move over one character. -/
def next? (c : Cursor) : Option (Char × Cursor) :=
  match c.rest with
  | [] => none
  | h :: t => some (h, ⟨c.position + 1, some h, t⟩)

theorem length_dropWhile_le {α : Type} (p : α → Bool) (l : List α) :
    (l.dropWhile p).length ≤ l.length := by
  induction l with
  | nil => simp
  | cons a l ih =>
    rw [List.dropWhile_cons]
    split
    · exact Nat.le_succ_of_le ih
    · exact Nat.le_refl _

theorem rest_span_le (p : Char → Bool) (c : Cursor) :
    (c.span p).2.rest.length ≤ c.rest.length :=
  length_dropWhile_le p c.rest

theorem rest_skip_le (c : Cursor) : c.skip.rest.length ≤ c.rest.length := rest_span_le isGap c

/-- A row that is not empty makes the rest shorter. -/
theorem rest_span_lt {p : Char → Bool} {c : Cursor} (h : (c.span p).1 ≠ []) :
    (c.span p).2.rest.length < c.rest.length := by
  obtain ⟨n, b, rest⟩ := c
  cases rest with
  | nil => simp [span] at h
  | cons a l =>
    cases ha : p a with
    | false => simp [span, ha] at h
    | true =>
      have := length_dropWhile_le p l
      simp [span, ha]
      omega

theorem rest_next?_lt {c c' : Cursor} {h : Char} (e : c.next? = some (h, c')) :
    c'.rest.length < c.rest.length := by
  obtain ⟨n, b, rest⟩ := c
  cases rest with
  | nil => simp [next?] at e
  | cons a l =>
    simp only [next?, Option.some.injEq, Prod.mk.injEq] at e
    simp [← e.2]

end Cursor

/-- The better of two ways to read on: the one that goes further, the first one if both go equally
far. -/
def further {α : Type} : Option (α × Cursor) → Option (α × Cursor) → Option (α × Cursor)
  | some a, some b => if a.2.position < b.2.position then some b else some a
  | none, b => b
  | a, none => a

/-- Of several ways to read on, the first of those that go furthest. -/
def longest {α : Type} (ways : List (Option (α × Cursor))) : Option (α × Cursor) :=
  ways.foldl further none

theorem further_eq_or {α : Type} (a b : Option (α × Cursor)) :
    further a b = a ∨ further a b = b := by
  unfold further
  split
  · split <;> simp
  · simp
  · simp

/-- What `longest` chooses is one of the ways. -/
theorem longest_mem {α : Type} {ways : List (Option (α × Cursor))} {r : α × Cursor}
    (h : longest ways = some r) : some r ∈ ways := by
  have key : ∀ (ways : List (Option (α × Cursor))) (best : Option (α × Cursor)),
      ways.foldl further best = best ∨ ways.foldl further best ∈ ways := by
    intro ways
    induction ways with
    | nil => simp
    | cons a ways ih =>
      intro best
      rw [List.foldl_cons]
      rcases ih (further best a) with h | h
      · rw [h]
        rcases further_eq_or best a with h | h <;> simp [h]
      · exact .inr (List.mem_cons_of_mem _ h)
  rcases key ways none with e | e
  · simp [longest, e] at h
  · rwa [← h]

end Whitespace.Assembly
