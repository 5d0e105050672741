/-!
# Decimal text

Numbers enter and leave as decimal text of bounded length. Longer numbers exist and can be computed
with, but writing or reading one fails.

## Main definitions

* `Decimal.limit` — the greatest number of digits.
* `Decimal.Fits` — the numbers whose decimal text is within the limit.
* `Decimal.write`, `Decimal.read` — the two conversions.
-/

namespace Whitespace.Decimal

/-- The greatest number of digits that is written or read. -/
def limit : Nat := 4300

/-- The least number that takes more digits than the limit. -/
def bound : Nat := Nat.pow 10 limit

/-- The decimal text of `v` is within the limit. -/
def Fits (v : Int) : Prop := v.natAbs < bound

instance (v : Int) : Decidable (Fits v) := inferInstanceAs (Decidable (v.natAbs < bound))

/-- A conversion met a number beyond the limit. -/
inductive TooLong where
  /-- A number to be written needs too many digits. -/
  | writing
  /-- A text to be read has too many digits. -/
  | reading (digits : Nat)
  deriving DecidableEq, Repr

/-- The wording of the failure. -/
def TooLong.message : TooLong → String
  | .writing =>
    "Exceeds the limit (4300 digits) for integer string conversion; " ++
      "use sys.set_int_max_str_digits() to increase the limit"
  | .reading n =>
    "Exceeds the limit (4300 digits) for integer string conversion: value has " ++ n.repr ++
      " digits; use sys.set_int_max_str_digits() to increase the limit"

/-- The decimal text of a number of any size. -/
def text (v : Int) : String :=
  if v < 0 then "-" ++ v.natAbs.repr else v.natAbs.repr

/-- The decimal text of a number. -/
def write (v : Int) : Except TooLong String :=
  if Fits v then .ok (text v) else .error .writing

/-- Whether a character is a decimal digit. -/
def isDigit (c : Char) : Bool := '0' ≤ c && c ≤ '9'

/-- The number denoted by a row of digits. -/
def value (digits : List Char) : Nat :=
  digits.foldl (fun v c => 10 * v + (c.toNat - '0'.toNat)) 0

/-- The number denoted by a sign and a row of digits; leading zeros count against the limit. -/
def read (negative : Bool) (digits : List Char) : Except TooLong Int :=
  if digits.length ≤ limit then
    .ok (if negative then -(value digits : Int) else value digits)
  else .error (.reading digits.length)

theorem write_eq_error_iff (v : Int) : write v = .error .writing ↔ ¬ Fits v := by
  unfold write
  split <;> simp [*]

theorem write_of_fits {v : Int} (h : Fits v) : write v = .ok (text v) := if_pos h

end Whitespace.Decimal
