import Whitespace.Decimal
import Whitespace.Text.Space

/-!
# Integer literals

An integer may be typed with blanks around it, a sign, single underscores between its digits, and
the decimal digits of any script. A binary literal may also start with `0b`. Hexadecimal
digits are those of ASCII.

## Main definitions

* `Text.decimalZeros`, `Text.digitValue?` — the decimal digits of all scripts.
* `Text.readDecimal?`, `Text.readBinary?` — the two kinds of literals.
* `Text.hexDigit?` — the hexadecimal digits.
-/

namespace Whitespace.Text

/-- The digit zero of each script; the other nine digits follow it. -/
def decimalZeros : List Nat :=
  [0x30, 0x660, 0x6F0, 0x7C0, 0x966, 0x9E6, 0xA66, 0xAE6, 0xB66, 0xBE6, 0xC66, 0xCE6, 0xD66,
    0xDE6, 0xE50, 0xED0, 0xF20, 0x1040, 0x1090, 0x17E0, 0x1810, 0x1946, 0x19D0, 0x1A80, 0x1A90,
    0x1B50, 0x1BB0, 0x1C40, 0x1C50, 0xA620, 0xA8D0, 0xA900, 0xA9D0, 0xA9F0, 0xAA50, 0xABF0,
    0xFF10, 0x104A0, 0x10D30, 0x11066, 0x110F0, 0x11136, 0x111D0, 0x112F0, 0x11450, 0x114D0,
    0x11650, 0x116C0, 0x11730, 0x118E0, 0x11950, 0x11C50, 0x11D50, 0x11DA0, 0x16A60, 0x16AC0,
    0x16B50, 0x1D7CE, 0x1D7D8, 0x1D7E2, 0x1D7EC, 0x1D7F6, 0x1E140, 0x1E2F0, 0x1E950, 0x1FBF0]

/-- The value of a decimal digit of any script. -/
def digitValue? (c : Char) : Option Nat :=
  (decimalZeros.find? fun z => z ≤ c.toNat && c.toNat < z + 10).map (c.toNat - ·)

/-- The value of a hexadecimal digit. -/
def hexDigit? (c : Char) : Option Nat :=
  if '0' ≤ c && c ≤ '9' then some (c.toNat - '0'.toNat)
  else if 'a' ≤ c && c ≤ 'f' then some (c.toNat - 'a'.toNat + 10)
  else if 'A' ≤ c && c ≤ 'F' then some (c.toNat - 'A'.toNat + 10)
  else none

/-- The space that may stand around a literal: all of it but the four ASCII separators. -/
def isLiteralSpace (c : Char) : Bool := isSpace c && !(0x1C ≤ c.toNat && c.toNat ≤ 0x1F)

/-- The values of digits below `base` with single underscores between them. -/
def digitRow? (base : Nat) : List Char → Option (List Nat)
  | [] => none
  | [c] => do
    let d ← digitValue? c
    if d < base then some [d] else none
  | c :: '_' :: rest => do
    let d ← digitValue? c
    if d < base then (digitRow? base rest).map (d :: ·) else none
  | c :: rest => do
    let d ← digitValue? c
    if d < base then (digitRow? base rest).map (d :: ·) else none

/-- A text without the space around it. -/
def trimLiteral (s : List Char) : List Char :=
  ((s.dropWhile isLiteralSpace).reverse.dropWhile isLiteralSpace).reverse

/-- Split a sign off; `true` is a minus. -/
def splitSign : List Char → Bool × List Char
  | '-' :: rest => (true, rest)
  | '+' :: rest => (false, rest)
  | rest => (false, rest)

/-- Drop the mark of a binary literal, with the underscore that may follow it. -/
def dropBinaryMark : List Char → List Char
  | z :: b :: rest =>
    if digitValue? z = some 0 && (b = 'b' || b = 'B') then
      match rest with
      | '_' :: digits => digits
      | digits => digits
    else z :: b :: rest
  | s => s

/-- The integer with the given sign and digits. -/
def ofDigits (base : Nat) (negative : Bool) (digits : List Nat) : Int :=
  let magnitude : Nat := digits.foldl (fun v d => base * v + d) 0
  if negative then -(magnitude : Int) else magnitude

/-- The integer a decimal literal denotes, if the text is one within the digit limit. -/
def readDecimal? (s : List Char) : Option Int :=
  let (negative, body) := splitSign (trimLiteral s)
  match digitRow? 10 body with
  | some digits =>
    if digits.length ≤ Decimal.limit then some (ofDigits 10 negative digits) else none
  | none => none

/-- The integer a binary literal denotes, if the text is one. -/
def readBinary? (s : List Char) : Option Int :=
  let (negative, body) := splitSign (trimLiteral s)
  (digitRow? 2 (dropBinaryMark body)).map (ofDigits 2 negative)

end Whitespace.Text
