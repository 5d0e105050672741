import Whitespace.Decoder

/-!
# Decoding with registers

The decoder once more, with a register for each thing that can be known of the current instruction.
The registers are set one by one and stay as they are until they are set again, so nothing about a
register follows from the stage that the decoder is in. A handler that needs a register which was
not set finds it empty and gives up.

## Main definitions

* `Registers` — the state of decoding, with six registers for the current instruction.
* `Registers.Handler` — an operation on them.
* `Registers.onFamily`, `Registers.onCommand`, `Registers.onNumber`, `Registers.onLabel` — one blank
  in each of the stages.
* `Registers.step`, `Registers.feed`, `Registers.finish` — a byte, a piece of source, the program.
-/

namespace Whitespace

/-- The stages of a decoder without what is read in them. -/
inductive Phase where
  | family
  | command
  | number
  | label
  deriving DecidableEq, Repr

/-- The name used in messages. -/
def Phase.name : Phase → String
  | family => "IMP"
  | command => "COMMAND"
  | number => "NUMBER"
  | label => "LABEL"

/-- The state of decoding. -/
structure Registers where
  phase : Phase := .family
  family? : Option Family := none
  opcode? : Option Opcode := none
  /-- The blanks read of the current word. -/
  pending : List Blank := []
  /-- One or minus one, zero until the sign is read. -/
  sign : Int := 0
  /-- The operand read so far. -/
  value : Int := 0
  /-- The number of bytes read so far. -/
  offset : Nat := 0
  /-- The byte read last. -/
  lastByte : Option UInt8 := none
  /-- The instructions read so far. -/
  program : Program := {}
  log : Log := #[]

namespace Registers

/-- Why an operation stopped. -/
inductive Error where
  /-- The source is wrong at byte `offset`, after `index` instructions. -/
  | malformed (message : String) (offset index : Nat)
  /-- An operand is too long to be logged. -/
  | tooLong (e : Decimal.TooLong)
  /-- A register that should have been set is empty. -/
  | unset
  deriving DecidableEq, Repr

/-- An operation on the registers. -/
abbrev Handler (α : Type) := EStateM Error Registers α

/-- Fail at the current byte. -/
def fail {α : Type} (message : String) : Handler α := do
  let r ← get
  throw (.malformed message r.offset r.program.size)

/-- The contents of a register that should have been set. -/
def expect {α : Type} : Option α → Handler α
  | some a => pure a
  | none => throw .unset

/-- Forget what was read of the current instruction. -/
def reset : Handler Unit :=
  modify fun r =>
    { r with
      phase := .family
      family? := none
      opcode? := none
      pending := []
      sign := 0
      value := 0 }

/-- Log an instruction, add it to the program and go on with the next one. -/
def issue (i : Instruction) : Handler Unit := do
  match i.text with
  | .error e => throw (.tooLong e)
  | .ok text =>
    modify fun r =>
      let line := "#" ++ r.program.size.repr ++ " " ++ text ++ " @ 0x" ++ Decoder.hexText r.offset
      { r with log := r.log.debug line }
    modify fun r => { r with program := r.program.append i }
    reset

/-- Read one more blank of the current word. -/
def extend (c : Blank) : Handler (List Blank) := do
  modify fun r => { r with pending := r.pending ++ [c] }
  return (← get).pending

/-- Read one more digit of the operand. -/
def shift (c : Blank) : Handler Unit :=
  modify fun r => { r with value := 2 * r.value + if c = .tab then 1 else 0 }

/-- One blank of the word of a family. -/
def onFamily (c : Blank) : Handler Unit := do
  let word ← extend c
  match Family.select word with
  | .found f => modify fun r => { r with family? := some f, pending := [], phase := .command }
  | .more => pure ()
  | .unknown => fail ("Unknown instruction family " ++ Text.quote (Blank.text word))

/-- One blank of a command. -/
def onCommand (c : Blank) : Handler Unit := do
  let f ← expect (← get).family?
  let word ← extend c
  match Opcode.select f word with
  | .found op =>
    modify fun r => { r with opcode? := some op, pending := [] }
    match op.operandKind with
    | .number => modify fun r => { r with phase := .number }
    | .label => modify fun r => { r with value := 1, phase := .label }
    | .none => issue ⟨op, none⟩
  | .more => pure ()
  | .unknown => fail ("Unknown " ++ f.name ++ " command " ++ Text.quote (Blank.text word))

/-- One blank of a number: first the sign, then the digits. -/
def onNumber (c : Blank) : Handler Unit := do
  let r ← get
  if r.sign = 0 then
    if c = .feed then fail "Number without a sign"
    else modify fun r => { r with sign := if c = .space then 1 else -1 }
  else if c = .feed then
    let op ← expect r.opcode?
    issue ⟨op, some (r.sign * r.value)⟩
  else shift c

/-- One blank of a label. -/
def onLabel (c : Blank) : Handler Unit := do
  let r ← get
  if c = .feed then
    let op ← expect r.opcode?
    issue ⟨op, some r.value⟩
  else shift c

/-- Go on with one more blank. -/
def accept (c : Blank) : Handler Unit := do
  match (← get).phase with
  | .family => onFamily c
  | .command => onCommand c
  | .number => onNumber c
  | .label => onLabel c

/-- Read one byte. A byte that fails is not counted. -/
def step (split : Bool) (b : UInt8) : Handler Unit := do
  match Blank.ofByte? split (← get).lastByte b with
  | none => pure ()
  | some c => accept c
  modify fun r => { r with offset := r.offset + 1, lastByte := some b }

/-- Read a piece of source, up to the first failure. -/
def feed (split : Bool) : List UInt8 → Handler Unit
  | [] => pure ()
  | b :: rest => do
    step split b
    feed split rest

/-- The program read, unless the source ends inside an instruction. -/
def finish : Handler Program := do
  let r ← get
  if r.phase ≠ .family ∨ r.pending ≠ [] then
    fail ("Unexpected end of input in " ++ r.phase.name ++ " stage")
  else
    let line := "Decoded " ++ r.program.size.repr ++ " instructions, " ++
      r.program.labels.size.repr ++ " labels"
    modify fun r => { r with log := r.log.debug line }
    return r.program

end Registers

end Whitespace
