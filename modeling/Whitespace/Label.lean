import Whitespace.Bits
import Whitespace.Text.Literal

/-!
# Labels

A label is a row of binary digits, any row, the empty one and those with leading zeros included. As
a number it is read with a one in front, so different rows are different numbers.

## Main definitions

* `Label.ofBits`, `Label.bits` — a label's number and its digits.
* `Label.name` — the name that listings give a label.
* `Label.read?` — the label that a text of digits stands for.
-/

namespace Whitespace.Label

/-- The number of the label with the given digits. -/
def ofBits (bits : List Bool) : Nat := Bits.valueFrom 1 bits

/-- The digits of a label's number after the leading one. A number below one is no label; its
digits are those its binary text has after the first character, a minus sign being one. -/
def bits (label : Int) : List Bool :=
  if label < 0 then Bits.ofNat label.natAbs else (Bits.ofNat label.natAbs).tail

/-- The binary text of a number. -/
def binary (label : Int) : String :=
  (if label < 0 then "-" else "") ++ Bits.text (Bits.ofNat label.natAbs)

/-- The name that listings give a label: an `L` and its digits. -/
def name (label : Int) : String := "L" ++ Bits.text (bits label)

/-- The number of the label written as `text`: a one shifted past the whole text, joined with the
binary literal that the text is. Nothing is read as zero. -/
def read? (text : List Char) : Option Int :=
  match Text.readBinary? (if text.isEmpty then ['0'] else text) with
  | some v => some (if v < 0 then v else Nat.pow 2 text.length + v)
  | none => none

/-- The digits that a bare row of `0` and `1` spells. -/
def digits? : List Char → Option (List Bool)
  | [] => some []
  | '0' :: rest => (digits? rest).map (false :: ·)
  | '1' :: rest => (digits? rest).map (true :: ·)
  | _ :: _ => none

/-- The digits that a name spells out, if it is an `L` followed by digits only. -/
def ofName? (name : String) : Option (List Bool) :=
  match name.toList with
  | 'L' :: rest => digits? rest
  | _ => none

end Whitespace.Label
