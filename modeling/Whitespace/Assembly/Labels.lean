import Whitespace.Bits
import Whitespace.Label
import Whitespace.Table

/-!
# Digits for label names

Assembly text names its labels; a program numbers them. A name that spells digits keeps them. The
other names get the binary numerals of 0, 1, 2, … in order of first appearance, and numerals that
are taken are passed over.

## Main definitions

* `nextFree` — the next number whose numeral is not taken.
* `allocate` — the digits of every name.
-/

namespace Whitespace.Assembly

/-- The first number from `n` on whose numeral is not among `used`; at most `fuel` are passed
over. -/
def nextFree (used : List (List Bool)) : (fuel n : Nat) → Nat
  | 0, n => n
  | fuel + 1, n => if Bits.ofNat n ∈ used then nextFree used fuel (n + 1) else n

/-- The names that have digits so far, the digits that are taken, and the number to try next. -/
structure Assignment where
  labels : Table String (List Bool)
  used : List (List Bool)
  counter : Nat

/-- Give the digits to a name that spells them. -/
def reserve (labels : Table String (List Bool)) (name : String) : Table String (List Bool) :=
  match Label.ofName? name with
  | some bits => labels.insert name bits
  | none => labels

/-- Give the next free numeral to a name that has no digits yet. -/
def Assignment.number (a : Assignment) (name : String) : Assignment :=
  if a.labels.contains name then a
  else
    let n := nextFree a.used a.used.length a.counter
    { labels := a.labels.insert name (Bits.ofNat n)
      used := Bits.ofNat n :: a.used
      counter := n }

/-- The digits of every name: first those that names spell, then numerals for the others. -/
def allocate (names : List String) : Table String (List Bool) :=
  let reserved := names.foldl reserve {}
  let start : Assignment := ⟨reserved, reserved.entries.map (·.2), 0⟩
  (names.foldl Assignment.number start).labels

end Whitespace.Assembly
