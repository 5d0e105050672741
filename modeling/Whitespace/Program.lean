import Whitespace.Instruction
import Whitespace.Table

/-!
# Programs

## Main definitions

* `Program` — instructions with the table of the labels they mark.
* `Program.append` — add an instruction; a mark enters its own index into the table.
* `Program.ofInstructions?` — build a program one instruction at a time.
* `Program.add`, `Program.addAll` — add instructions one change after the other.
-/

namespace Whitespace

/-- A list of instructions, and where each marked label stands in it. -/
structure Program where
  instructions : Array Instruction := #[]
  labels : Table Int Nat := {}
  deriving DecidableEq, Repr

namespace Program

/-- The number of instructions. -/
def size (p : Program) : Nat := p.instructions.size

/-- Add an instruction at the end. A mark makes its label stand here, whether or not it was marked
before. -/
def append (p : Program) (i : Instruction) : Program where
  instructions := p.instructions.push i
  labels :=
    match i.opcode, i.operand with
    | .mark, some l => p.labels.insert l p.instructions.size
    | _, _ => p.labels

/-- Add an instruction at the end, refusing a mark without its label. -/
def append? (p : Program) (i : Instruction) : Option Program :=
  if i.opcode = .mark && i.operand.isNone then none else some (p.append i)

/-- The program made of the given instructions, unless one is a mark without its label. -/
def ofInstructions? (is : List Instruction) : Option Program := is.foldlM append? {}

/-- Add an instruction, one change after the other: a mark without its label is refused, a label is
entered with the place that is free, and then the instruction takes that place. A refusal comes
before both changes. -/
def add (i : Instruction) : EStateM Unit Program Unit := do
  if i.opcode = .mark then
    match i.operand with
    | none => throw ()
    | some l => modify fun p => { p with labels := p.labels.insert l p.instructions.size }
  modify fun p => { p with instructions := p.instructions.push i }

/-- A mark without its label. -/
def Unlabelled (i : Instruction) : Prop := i.opcode = .mark ∧ i.operand = none

instance (i : Instruction) : Decidable (Unlabelled i) := inferInstanceAs (Decidable (_ ∧ _))

/-- The program that an addition leaves, whether or not it is refused. -/
def afterAdd (p : Program) (i : Instruction) : Program :=
  match add i p with
  | .ok () q => q
  | .error () q => q

/-- The program after additions one after the other. One that is refused does not end them. -/
def addAll (p : Program) (is : List Instruction) : Program := is.foldl afterAdd p

@[simp] theorem toList_append (p : Program) (i : Instruction) :
    (p.append i).instructions.toList = p.instructions.toList ++ [i] := by
  simp [append]

end Program

end Whitespace
