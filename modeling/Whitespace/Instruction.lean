import Whitespace.Opcode
import Whitespace.Decimal

/-!
# Instructions

## Main definitions

* `Instruction` — an opcode with the operand it was given, if any.
* `Instruction.WellFormed` — the operand is the one the opcode takes.
* `Instruction.text` — an instruction as traces and messages show it.
-/

namespace Whitespace

/-- An opcode and the operand it was given. Nothing forces the operand to be the one that the opcode
takes: see `Instruction.WellFormed`. -/
structure Instruction where
  opcode : Opcode
  operand : Option Int := none
  deriving DecidableEq, Repr

namespace Instruction

/-- The operand is present exactly when the opcode takes one, and a label is at least one. -/
def WellFormed (i : Instruction) : Prop :=
  match i.opcode.operandKind, i.operand with
  | .none, none => True
  | .number, some _ => True
  | .label, some l => 1 ≤ l
  | _, _ => False

instance (i : Instruction) : Decidable i.WellFormed := by
  unfold WellFormed
  split <;> infer_instance

/-- The name of the opcode, and the operand if there is one. -/
def text (i : Instruction) : Except Decimal.TooLong String :=
  match i.operand with
  | none => .ok i.opcode.name
  | some v => (Decimal.write v).map fun t => i.opcode.name ++ " " ++ t

end Instruction

end Whitespace
