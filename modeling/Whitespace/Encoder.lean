import Whitespace.Bits
import Whitespace.Label
import Whitespace.Program

/-!
# Encoding

## Main definitions

* `numberWord`, `labelWord` — operands as blanks.
* `Instruction.encode?`, `Program.encode?` — the shortest spelling of an instruction and of a
  program. There is none for an instruction that lacks its operand.
-/

namespace Whitespace

/-- A number: its sign, its binary digits and a line feed. -/
def numberWord (v : Int) : List Blank :=
  (if 0 ≤ v then .space else .tab) :: (Bits.ofNat v.natAbs).map Blank.ofBit ++ [.feed]

/-- A label: its binary digits and a line feed. -/
def labelWord (bits : List Bool) : List Blank := bits.map Blank.ofBit ++ [.feed]

/-- A label given as text. Characters other than binary digits stay as they are. -/
def labelText (bits : String) : String :=
  String.ofList (bits.toList.map fun c => if c = '0' then ' ' else if c = '1' then '\t' else c) ++
    "\n"

namespace Instruction

/-- The blanks of an instruction, unless it lacks its operand. An operand that the opcode does not
take is left out. -/
def encode? (i : Instruction) : Option (List Blank) :=
  match i.opcode.operandKind with
  | .none => some i.opcode.code
  | .number => i.operand.map fun v => i.opcode.code ++ numberWord v
  | .label => i.operand.map fun l => i.opcode.code ++ labelWord (Label.bits l)

end Instruction

namespace Program

/-- The blanks of all instructions, unless one lacks its operand. -/
def encode? (p : Program) : Option (List Blank) :=
  (p.instructions.toList.mapM Instruction.encode?).map List.flatten

end Program

end Whitespace
