import Whitespace.Machine.Action

/-!
# Steps

## Main definitions

* `Machine.exec` — what each instruction does.
* `Machine.advance` — fetch the next instruction and execute it.
* `Machine.step` — the same, and the trace of it when the settings ask for one.
-/

namespace Whitespace.Machine

open Whitespace.Action

/-- Use the operand of an instruction as a count, which is at once compared with zero. -/
def withCount (i : Instruction) (use : Int → Action Unit) : Action Unit :=
  match i.operand with
  | some n => use n
  | none => stop (.misuse .compared)

/-- Jump to a label. -/
def jump (m : Machine) (label : Option Int) : Action Unit := do
  let pc ← m.target label
  jumpTo pc

/-- Execute an instruction. The program counter already stands behind it. -/
def exec (m : Machine) (i : Instruction) : Action Unit :=
  match i.opcode with
  | .push => push (.ofOperand i.operand)
  | .dup => duplicate
  | .copy => withCount i fun n => do push (← peek n)
  | .swap => exchange
  | .discard => do let _ ← pop
  | .slide => withCount i slide
  | .add => binary .add
  | .sub => binary .sub
  | .mul => binary .mul
  | .div => division .div
  | .mod => division .mod
  | .store => do
    let value ← pop
    let address ← pop
    poke address value
  | .retrieve => do
    let address ← pop
    push (← cell m.settings.heapDefault address)
  | .mark => pure ()
  | .call => do enter (← m.target i.operand)
  | .jump => m.jump i.operand
  | .jumpZero => do
    let x ← pop
    if x = .number 0 then m.jump i.operand
  | .jumpNegative => do
    let x ← pop
    let negative ← isNegative x
    if negative then m.jump i.operand
  | .ret => leave
  | .halt => stop .halted
  | .writeChar => do
    let x ← pop
    write (String.singleton (← character x))
  | .writeNumber => do
    let x ← pop
    write (← lift x.text)
  | .readChar => do
    let c ← m.readCharacter
    poke (← pop) (.number c.toNat)
  | .readNumber => do
    let v ← m.readNumber
    poke (← pop) (.number v)

/-- Say where a fault happened. -/
def locate (pc : Nat) (i : Instruction) : Stop → Stop
  | .fault f _ => .fault f (some (pc, i))
  | reason => reason

/-- Whether there is an instruction to execute. -/
def running (m : Machine) (s : State) : Bool := s.pc < m.program.size

/-- Fetch the next instruction, move the program counter behind it and execute it. -/
def advance (m : Machine) : Action Unit := fun s =>
  match m.program.instructions[s.pc]? with
  | none => .error .pastEnd s
  | some i =>
    match m.exec i { s with pc := s.pc + 1 } with
    | .ok () s' => .ok () s'
    | .error reason s' => .error (locate s.pc i reason) s'

/-- A result of executing something, and the log records made on the way. -/
structure Traced (α : Type) where
  result : EStateM.Result Stop State α
  log : Log := #[]

/-- Log an instruction and the state it has led to. -/
def trace (pc : Nat) (i : Instruction) (s : State) : Traced Unit :=
  match i.text with
  | .error e => ⟨.error (.tooLong e) s, #[]⟩
  | .ok shown =>
    let first : Record := ⟨.debug, "#" ++ pc.repr ++ " " ++ shown⟩
    match s.dump with
    | .error e => ⟨.error (.tooLong e) s, #[first]⟩
    | .ok text => ⟨.ok () s, #[first, ⟨.debug, text⟩]⟩

/-- One step, traced if the settings ask for it. Only a step that succeeds leaves a trace. -/
def step (m : Machine) (s : State) : Traced Unit :=
  match m.advance s with
  | .ok () s' =>
    if m.settings.trace then
      match m.program.instructions[s.pc]? with
      | some i => trace s.pc i s'
      | none => ⟨.ok () s', #[]⟩
    else ⟨.ok () s', #[]⟩
  | .error reason s' => ⟨.error reason s', #[]⟩

end Whitespace.Machine
