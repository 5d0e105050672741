/-!
# Binary numerals

Numbers and labels are written in binary, the most significant digit first.

## Main definitions

* `Bits.value` — the number a numeral denotes.
* `Bits.ofNat` — the numeral of a number, without leading zeros; zero has one digit.
-/

namespace Whitespace.Bits

/-- The number that a numeral denotes when it follows digits of value `start`. -/
def valueFrom (start : Nat) (bits : List Bool) : Nat :=
  bits.foldl (fun v b => 2 * v + b.toNat) start

/-- The number a numeral denotes; the empty numeral denotes zero. -/
def value (bits : List Bool) : Nat := valueFrom 0 bits

/-- The digits of `n` in front of `tail`, none for zero. -/
def digitsOnto (n : Nat) (tail : List Bool) : List Bool :=
  if n = 0 then tail else digitsOnto (n / 2) ((n % 2 == 1) :: tail)

/-- The numeral of `n`. -/
def ofNat (n : Nat) : List Bool := if n = 0 then [false] else digitsOnto n []

/-- A numeral as text. -/
def text (bits : List Bool) : String := String.ofList (bits.map fun b => if b then '1' else '0')

@[simp] theorem valueFrom_nil (v : Nat) : valueFrom v [] = v := rfl

@[simp] theorem valueFrom_cons (v : Nat) (b : Bool) (bits : List Bool) :
    valueFrom v (b :: bits) = valueFrom (2 * v + b.toNat) bits := rfl

theorem valueFrom_append (v : Nat) (l r : List Bool) :
    valueFrom v (l ++ r) = valueFrom (valueFrom v l) r := by
  simp [valueFrom]

/-- Writing digits in front of `tail` and reading all of it goes on from `n`. -/
theorem value_digitsOnto (n : Nat) (tail : List Bool) :
    value (digitsOnto n tail) = valueFrom n tail := by
  induction n using Nat.strongRecOn generalizing tail with
  | ind n ih =>
    rw [digitsOnto]
    split
    · simp [value, *]
    · rw [ih (n / 2) (by omega), valueFrom_cons]
      congr 1
      have h : (n % 2 == 1).toNat = n % 2 := by
        rcases Nat.mod_two_eq_zero_or_one n with h | h <;> simp [h]
      omega

@[simp] theorem value_ofNat (n : Nat) : value (ofNat n) = n := by
  unfold ofNat
  split
  · simp [value, *]
  · simp [value_digitsOnto]

end Whitespace.Bits
