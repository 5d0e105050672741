/-!
# The alphabet of a program

A program is written with three characters. A source file may hold any bytes: those that are no
blank are comments, and a carriage return counts as a line feed.

## Main definitions

* `Blank` — space, tab and line feed.
* `Blank.ofByte?` — the blank a byte of a source stands for, if it stands for one.
-/

namespace Whitespace

/-- The characters that carry meaning. In operands a space is the binary digit zero, a tab is one,
and a line feed ends the operand. -/
inductive Blank where
  | space
  | tab
  | feed
  deriving DecidableEq, Repr

namespace Blank

/-- The character a blank is written as. -/
def char : Blank → Char
  | space => ' '
  | tab => '\t'
  | feed => '\n'

/-- The blank that writes a binary digit. -/
def ofBit : Bool → Blank
  | false => space
  | true => tab

/-- A row of blanks as text. -/
def text (row : List Blank) : String := String.ofList (row.map char)

/-- The blank that byte `b` stands for when it follows `previous`. A line feed right after a
carriage return belongs to that return, unless the two are `split` into two terminators. -/
def ofByte? (split : Bool) (previous : Option UInt8) (b : UInt8) : Option Blank :=
  if b = 32 then some space
  else if b = 9 then some tab
  else if b = 13 then some feed
  else if b = 10 then
    if previous = some 13 && !split then none else some feed
  else none

/-- The byte a blank is written as. -/
def byte : Blank → UInt8
  | space => 32
  | tab => 9
  | feed => 10

@[simp] theorem ofByte?_byte_of_split (previous : Option UInt8) (c : Blank) :
    ofByte? true previous c.byte = some c := by
  cases c <;> simp [ofByte?, byte]

end Blank

end Whitespace
