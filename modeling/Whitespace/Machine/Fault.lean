import Whitespace.Instruction
import Whitespace.Label
import Whitespace.Machine.Item
import Whitespace.Text.Quoted
import Whitespace.Text.Utf8

/-!
# Faults

A fault is something a program does wrong while it runs. Its message may quote numbers, so reporting
a fault fails when such a number is too long to be written.

## Main definitions

* `Fault` — what a program did wrong.
* `Fault.kind`, `Fault.text` — the name and the wording of a fault.
* `Stop` — every way in which a step does not lead to a next one.
-/

namespace Whitespace

/-- What a program did wrong. -/
inductive Fault where
  /-- An item is needed from the empty stack. -/
  | popEmpty
  /-- There is no item to duplicate. -/
  | dupEmpty
  /-- There is no item at this depth of a stack of this size. -/
  | noItem (depth : Int) (size : Nat)
  /-- There are no two items to swap. -/
  | swapShort
  /-- A negative number of items is to be slid away. -/
  | slideNegative (count : Int)
  /-- More items are to be slid away than lie below the top. -/
  | slideDeep (count : Int) (size : Nat)
  /-- The divisor is zero. -/
  | divisorZero
  /-- A heap cell is read that was never written. -/
  | unwritten (address : Item)
  /-- A jump goes to a label that is not marked. -/
  | unmarked (label : Int)
  /-- There is no call to return from. -/
  | noCall
  /-- The input has no further character. -/
  | noCharacter
  /-- The input has no further line. -/
  | noLine
  /-- The line read is not a number. -/
  | notNumber (line : String)
  /-- The number to be written as a character is no code point. -/
  | notCodePoint (value : Int)
  /-- The number to be written as a character is half of a surrogate pair. -/
  | surrogate (value : Int)
  deriving DecidableEq, Repr

namespace Fault

/-- The name of the kind of a fault. -/
def kind : Fault → String
  | popEmpty | dupEmpty | swapShort | slideDeep .. => "StackUnderflow"
  | noItem .. | slideNegative _ => "StackIndexError"
  | divisorZero => "DivisionByZero"
  | unwritten _ => "HeapKeyError"
  | unmarked _ => "UnresolvedLabel"
  | noCall => "CallStackUnderflow"
  | noCharacter | noLine => "InputExhausted"
  | notNumber _ => "NumberParseError"
  | notCodePoint _ | surrogate _ => "InvalidCharacter"

/-- The wording of a fault. -/
def text : Fault → Except Decimal.TooLong String
  | popEmpty => .ok "Pop from empty stack"
  | dupEmpty => .ok "Duplicate on empty stack"
  | noItem depth size =>
    (Decimal.write depth).map fun t => "No item at depth " ++ t ++ " of " ++ size.repr
  | swapShort => .ok "Swap needs two items"
  | slideNegative n => (Decimal.write n).map ("Negative slide " ++ ·)
  | slideDeep n size =>
    (Decimal.write n).map fun t => "Slide " ++ t ++ " below top of " ++ size.repr
  | divisorZero => .ok "Divisor is zero"
  | unwritten address =>
    address.text.map fun t => "Heap address " ++ t ++ " was never written"
  | unmarked label => .ok ("Label " ++ Label.binary label ++ " is not marked")
  | noCall => .ok "Return outside of a subroutine"
  | noCharacter => .ok "No character to read"
  | noLine => .ok "No number to read"
  | notNumber line => .ok ("Not a number: " ++ Text.quote line)
  | notCodePoint v => (Decimal.write v).map (· ++ " is not a code point")
  | surrogate v => (Decimal.write v).map (· ++ " is a surrogate code point")

end Fault

/-- Why a step does not lead to a next one. -/
inductive Stop where
  /-- The program said so. -/
  | halted
  /-- The program did something wrong; `place` is the index and the instruction of the step. -/
  | fault (f : Fault) (place : Option (Nat × Instruction))
  /-- A number is too long to be written or read. -/
  | tooLong (e : Decimal.TooLong)
  /-- Nothing was used where only a number will do. -/
  | misuse (m : Misuse)
  /-- There is no instruction at the program counter. -/
  | pastEnd
  /-- The user interrupted the program while it waited for input. -/
  | interrupted
  /-- The input is no text. -/
  | undecodable (e : Utf8.Error)
  deriving DecidableEq, Repr

namespace Stop

/-- The wording of a located fault: its kind, its text, and where it happened. -/
def faultMessage (f : Fault) (place : Option (Nat × Instruction)) :
    Except Decimal.TooLong String := do
  let text ← f.text
  match place with
  | none => return f.kind ++ ": " ++ text
  | some (pc, i) =>
    let shown ← i.text
    return f.kind ++ ": " ++ text ++ " at #" ++ pc.repr ++ " (" ++ shown ++ ")"

/-- The wording of a stop. There is none for a fault that quotes a number too long to write. -/
def message? : Stop → Option String
  | halted => some ""
  | fault f place => (faultMessage f place).toOption
  | tooLong e => some e.message
  | misuse m => some m.message
  | pastEnd => some "list index out of range"
  | interrupted => some ""
  | undecodable e => some e.message

end Stop

end Whitespace
