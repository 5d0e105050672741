import Whitespace.Opcode

/-!
# Stages of reading an instruction

An instruction is read in up to three stages: the word of its family, the command, and the operand.
Each stage holds just what has been read of the current instruction.

## Main definitions

* `Stage` — how far the current instruction has been read.
* `Stage.family?`, `Stage.opcode?`, `Stage.pending`, `Stage.sign`, `Stage.value` — what is known of
  it so far.
-/

namespace Whitespace

/-- The sign of a number operand. -/
inductive Sign where
  | plus
  | minus
  deriving DecidableEq, Repr

namespace Sign

/-- The number with this sign and the given magnitude. -/
def apply : Sign → Nat → Int
  | plus, n => n
  | minus, n => -n

/-- The factor a sign stands for. -/
def factor : Sign → Int
  | plus => 1
  | minus => -1

end Sign

/-- How far the current instruction has been read. -/
inductive Stage where
  /-- Inside the word of the family; between instructions nothing is pending. -/
  | family (pending : List Blank)
  /-- Inside the command of a family. -/
  | command (family : Family) (pending : List Blank)
  /-- Inside a number: its sign, once read, and the magnitude of the digits read so far. -/
  | number (opcode : Opcode) (sign : Option Sign) (magnitude : Nat)
  /-- Inside a label: a one followed by the digits read so far. -/
  | label (opcode : Opcode) (value : Nat)
  deriving DecidableEq, Repr

namespace Stage

/-- The stage between two instructions. -/
def start : Stage := family []

/-- The name used in messages. -/
def name : Stage → String
  | family _ => "IMP"
  | command .. => "COMMAND"
  | number .. => "NUMBER"
  | label .. => "LABEL"

/-- The family of the current instruction, once known. -/
def family? : Stage → Option Family
  | family _ => none
  | command f _ => some f
  | number op .. => some op.family
  | label op _ => some op.family

/-- The opcode of the current instruction, once known. -/
def opcode? : Stage → Option Opcode
  | number op .. => some op
  | label op _ => some op
  | _ => none

/-- The blanks read of the current word. -/
def pending : Stage → List Blank
  | family pending => pending
  | command _ pending => pending
  | _ => []

/-- The sign of the current number as a factor, zero until it is read. -/
def sign : Stage → Int
  | number _ (some s) _ => s.factor
  | _ => 0

/-- The value of the operand digits read so far. -/
def value : Stage → Nat
  | number _ _ v => v
  | label _ v => v
  | _ => 0

end Stage

end Whitespace
