import Whitespace.Label
import Whitespace.Program

/-!
# Listings

A program shown in assembly text, an instruction a line, with the indices in comments.

## Main definitions

* `Instruction.tag` — an instruction as a remark without blanks.
* `Instruction.listing` — one instruction in assembly text.
* `Program.listing`, `Program.labelListing` — the whole program, and where its labels stand.
-/

namespace Whitespace

/-- Why an instruction cannot be listed. -/
inductive ListingError where
  /-- It lacks its operand. -/
  | missingOperand
  /-- Its operand is too long to be written. -/
  | tooLong (e : Decimal.TooLong)
  deriving DecidableEq, Repr

/-- A remark that names an instruction, with the text of its operand if it has one. -/
def tagText (op : Opcode) (operand : Option String) : String :=
  match operand with
  | none => "[" ++ op.mnemonic ++ "]"
  | some t => "[" ++ op.mnemonic ++ ":" ++ t ++ "]"

namespace Instruction

/-- The remark that names an instruction. -/
def tag (i : Instruction) : Except Decimal.TooLong String :=
  match i.operand with
  | none => .ok (tagText i.opcode none)
  | some v => (Decimal.write v).map fun t => tagText i.opcode (some t)

/-- An instruction in assembly text. Marks start the line, everything else is indented. A number
that is missing shows as `None`. -/
def listing (i : Instruction) : Except ListingError String :=
  match i.opcode.operandKind with
  | .none => .ok ("    " ++ i.opcode.mnemonic)
  | .number =>
    match i.operand with
    | none => .ok ("    " ++ i.opcode.mnemonic ++ " None")
    | some v =>
      match Decimal.write v with
      | .ok t => .ok ("    " ++ i.opcode.mnemonic ++ " " ++ t)
      | .error e => .error (.tooLong e)
  | .label =>
    match i.operand with
    | none => .error .missingOperand
    | some l =>
      if i.opcode = .mark then .ok (Label.name l ++ ":")
      else .ok ("    " ++ i.opcode.mnemonic ++ " " ++ Label.name l)

end Instruction

/-- Fill a text up with spaces to a width. -/
def padRight (width : Nat) (s : String) : String :=
  s ++ String.ofList (List.replicate (width - s.length) ' ')

/-- The line of the instruction with a given index. -/
def listingLine (index : Nat) (i : Instruction) : Except ListingError String :=
  i.listing.map fun t => padRight 23 t ++ " // #" ++ index.repr

namespace Program

/-- The lines of instructions from a given index on. -/
def listingLines (index : Nat) : List Instruction → Except ListingError (List String)
  | [] => .ok []
  | i :: rest => do
    let line ← listingLine index i
    let lines ← listingLines (index + 1) rest
    return line :: lines

/-- A program in assembly text. -/
def listing (p : Program) : Except ListingError String :=
  (listingLines 0 p.instructions.toList).map ("\n".intercalate ·)

/-- Where each label stands, in the order of the indices. -/
def labelListing (p : Program) : String :=
  "\n".intercalate <|
    (p.labels.entries.mergeSort fun a b => a.2 ≤ b.2).map fun e =>
      "// " ++ Label.name e.1 ++ " -> #" ++ e.2.repr

end Program

end Whitespace
