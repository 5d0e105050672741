/-!
# Binary floating-point numbers

Fractions in settings files are kept as the nearest number with 53 significant binary digits. They
are shown with the fewest decimal digits that determine them among such numbers.

## Main definitions

* `Binary64` — the numbers.
* `Binary64.ofDecimal` — the number nearest to a decimal one, ties going to the even neighbour.
* `Binary64.shortest`, `Binary64.text` — the fewest digits, and how they are laid out.
-/

namespace Whitespace.Config

/-- A number of the form `mantissa * 2 ^ exponent` with at most 53 binary digits, or one of the
values beyond. -/
inductive Binary64 where
  | nan
  | infinite (negative : Bool)
  | finite (negative : Bool) (mantissa : Nat) (exponent : Int)
  deriving DecidableEq, Repr

namespace Binary64

/-- The least exponent. -/
def minExponent : Int := -1074

/-- The greatest exponent. -/
def maxExponent : Int := 971

/-- The least mantissa of a number that uses all 53 digits. -/
def minMantissa : Nat := Nat.pow 2 52

/-- `num / den * 2 ^ (-e)` as a fraction. -/
def scale (num den : Nat) (e : Int) : Nat × Nat :=
  if 0 ≤ e then (num, den * Nat.pow 2 e.toNat) else (num * Nat.pow 2 (-e).toNat, den)

/-- The natural number nearest to a fraction, the even one of two. -/
def roundEven (num den : Nat) : Nat :=
  let q := num / den
  let r := num % den
  if 2 * r < den then q
  else if den < 2 * r then q + 1
  else q + q % 2

/-- The number nearest to a positive fraction. -/
def ofFraction (negative : Bool) (num den : Nat) : Binary64 :=
  let e : Int := (num.log2 : Int) - den.log2 - 53
  let (n, d) := scale num den e
  let e := max (if 2 * minMantissa ≤ n / d then e + 1 else e) minExponent
  let (n, d) := scale num den e
  let m := roundEven n d
  let (m, e) := if m = 2 * minMantissa then (minMantissa, e + 1) else (m, e)
  if maxExponent < e then infinite negative else finite negative m e

/-- The number nearest to `digits * 10 ^ exponent`. -/
def ofDecimal (negative : Bool) (digits : Nat) (exponent : Int) : Binary64 :=
  let magnitude : Int := (Nat.toDigits 10 digits).length + exponent
  if digits = 0 || magnitude < -330 then finite negative 0 minExponent
  else if 310 < magnitude then infinite negative
  else ofFraction negative (digits * Nat.pow 10 exponent.toNat) (Nat.pow 10 (-exponent).toNat)

/-- Whether a candidate lies in the interval of the fractions that round to a number; its ends
belong to it when the mantissa is even. -/
def within (even : Bool) (low candidate high : Nat) : Bool :=
  if even then low ≤ candidate && candidate ≤ high else low < candidate && candidate < high

/-- Try `count` digits: the nearer of the two neighbours of the number that determine it, and the
power of ten of its last digit. All sizes are in quarters of `2 ^ e / scale`. -/
def tryDigits (m : Nat) (e : Int) (count : Nat) : Option (Nat × Int) :=
  let unit := Nat.pow 2 e.toNat
  let den := 4 * Nat.pow 2 (-e).toNat
  let below := if m = minMantissa && minExponent < e then 1 else 2
  let low := (4 * m - below) * unit
  let high := (4 * m + 2) * unit
  let value := 4 * m * unit
  let top : Int := (Nat.toDigits 10 (value * Nat.pow 10 330 / den)).length - 331
  let last : Int := top - count + 1
  let up := Nat.pow 10 (-last).toNat
  let grid := den * Nat.pow 10 last.toNat
  let floor := value * up / grid
  let rest := value * up % grid
  let fits (c : Nat) : Bool := within (m % 2 = 0) (low * up) (c * grid) (high * up)
  let upper := if 2 * rest = grid then floor % 2 = 1 else grid < 2 * rest
  match fits floor, fits (floor + 1) with
  | true, true => some (if upper then floor + 1 else floor, last)
  | true, false => some (floor, last)
  | false, true => some (floor + 1, last)
  | false, false => none

/-- The fewest digits that determine a positive number, and the power of ten of the last one. -/
def shortest (m : Nat) (e : Int) : Nat × Int :=
  ((List.range 17).findSome? fun k => tryDigits m e (k + 1)).getD (m, e)

/-- Drop zeros from the end, keeping one digit. -/
def dropZeros (digits : List Char) : List Char :=
  match (digits.reverse.dropWhile (· = '0')).reverse with
  | [] => ['0']
  | rest => rest

/-- Lay digits out with the point behind the first `point` of them. Sizes from `1e-4` up to `1e16`
are written out, the others with an exponent of at least two digits. -/
def layOut (digits : List Char) (point : Int) : List Char :=
  let zeros (n : Int) : List Char := List.replicate n.toNat '0'
  if -4 < point && point ≤ 16 then
    if point ≤ 0 then '0' :: '.' :: zeros (-point) ++ digits
    else if digits.length ≤ point.toNat then
      digits ++ zeros (point - digits.length) ++ ['.', '0']
    else digits.take point.toNat ++ '.' :: digits.drop point.toNat
  else
    let e := point - 1
    let size := Nat.toDigits 10 e.natAbs
    let fraction := if digits.length ≤ 1 then [] else '.' :: digits.drop 1
    digits.take 1 ++ fraction ++ 'e' :: (if e < 0 then '-' else '+') ::
      List.replicate (2 - size.length) '0' ++ size

/-- The text of a number. -/
def text : Binary64 → String
  | nan => "nan"
  | infinite negative => if negative then "-inf" else "inf"
  | finite negative m e =>
    let body :=
      if m = 0 then ['0', '.', '0']
      else
        let (c, last) := shortest m e
        let digits := Nat.toDigits 10 c
        layOut (dropZeros digits) (digits.length + last)
    String.ofList (if negative then '-' :: body else body)

end Binary64

end Whitespace.Config
