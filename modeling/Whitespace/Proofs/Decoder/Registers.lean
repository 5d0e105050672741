import Whitespace.Decoder.Registers
import Whitespace.Proofs.Decoder.Session

/-!
# Registers and stages

The decoder with registers and the decoder with stages do the same. The registers at any moment are
read off the stage: what is known in a stage is in its register, and all other registers are as they
were reset. So no handler ever finds a register empty that it needs, although nothing in the
registers themselves says so.

## Main definitions

* `Decoder.registers`, `Decoder.Result.registers` — a decoder and a result as registers.
* `Registers.perform`, `Registers.session` — calls on one set of registers.

## Main statements

* `Decoder.accept_registers`, `Decoder.step_registers`, `Decoder.feed_registers`,
  `Decoder.finish_registers` — one blank, one byte, a piece, the end.
* `Registers.session_registers` — a session leaves the registers of the decoder with stages.
* `Registers.perform_session` — so does every call of it, and none finds a register empty.
-/

namespace Whitespace

/-- The stage without what is read in it. -/
def Stage.phase : Stage → Phase
  | family _ => .family
  | command .. => .command
  | number .. => .number
  | label .. => .label

/-- Looking at the registers changes nothing. -/
theorem Registers.get_bind {α : Type} (g : Registers → Handler α) (r : Registers) :
    (get >>= g) r = g r r := rfl

namespace Decoder

/-- The registers that hold what a decoder knows. -/
def registers (d : Decoder) : Registers where
  phase := d.stage.phase
  family? := d.stage.family?
  opcode? := d.stage.opcode?
  pending := d.stage.pending
  sign := d.stage.sign
  value := d.stage.value
  offset := d.offset
  lastByte := d.lastByte
  program := d.program
  log := d.log

/-- An error with the wording of its cause. -/
def Error.shown : Error → Registers.Error
  | malformed cause offset index => .malformed cause.message offset index
  | tooLong e => .tooLong e

/-- A result with registers in the place of the decoder. -/
def Result.registers {α : Type} : Result α → EStateM.Result Registers.Error Registers α
  | .ok a d => .ok a d.registers
  | .error e d => .error e.shown d.registers

/-- Issuing an instruction forgets what was read of it, whatever stage it was read in. -/
theorem issue_registers (d : Decoder) (i : Instruction) :
    Registers.issue i d.registers = (d.emit i).registers := by
  cases htext : i.text with
  | error e => simp only [Registers.issue, emit, htext]; rfl
  | ok text => simp only [Registers.issue, emit, htext]; rfl

/-- The decoder in another stage. -/
def withStage (d : Decoder) (st : Stage) : Decoder := { d with stage := st }

@[simp] theorem stage_withStage (d : Decoder) (st : Stage) : (d.withStage st).stage = st := rfl

section Blank

variable (d : Decoder) (c : Blank) (pending : List Blank) (f : Family)

theorem extend_family : Registers.extend c (d.withStage (.family pending)).registers =
    .ok (pending ++ [c]) (d.withStage (.family (pending ++ [c]))).registers := rfl

theorem extend_command : Registers.extend c (d.withStage (.command f pending)).registers =
    .ok (pending ++ [c]) (d.withStage (.command f (pending ++ [c]))).registers := rfl

theorem expect_family (r : Registers) :
    Registers.expect (d.withStage (.command f pending)).registers.family? r = .ok f r := rfl

theorem onFamily_registers : Registers.onFamily c (d.withStage (.family pending)).registers =
    ((d.withStage (.family pending)).accept c).registers := by
  simp only [Registers.onFamily, bind, EStateM.bind, extend_family, accept, stage_withStage]
  cases Family.select (pending ++ [c]) <;> rfl

theorem onCommand_registers : Registers.onCommand c (d.withStage (.command f pending)).registers =
    ((d.withStage (.command f pending)).accept c).registers := by
  simp only [Registers.onCommand, Registers.get_bind]
  simp only [bind, EStateM.bind, expect_family, extend_command, accept, stage_withStage]
  cases hselect : Opcode.select f (pending ++ [c]) with
  | found op =>
    have hfamily : op.family = f := by
      simpa [Family.opcodes] using (Stage.found_of_select hselect).1
    cases hop : op.operandKind with
    | none =>
      -- an instruction without an operand can always be logged
      simp only [operandStage?, hop]
      rfl
    | number =>
      simp only [operandStage?, hop, ← hfamily]
      rfl
    | label =>
      simp only [operandStage?, hop, ← hfamily]
      rfl
  | more => rfl
  | unknown => rfl

theorem shift_eq (b : Bool) (r : Registers) :
    Registers.shift (.ofBit b) r = .ok () { r with value := 2 * r.value + b.toNat } := by
  cases b <;> rfl

theorem shift_number (op : Opcode) (sign : Sign) (v : Nat) (b : Bool) :
    Registers.shift (.ofBit b) (d.withStage (.number op (some sign) v)).registers =
      .ok () (d.withStage (.number op (some sign) (2 * v + b.toNat))).registers := by
  simp [shift_eq, registers, Stage.value, Stage.phase, Stage.family?, Stage.opcode?, Stage.pending,
    Stage.sign, withStage]

theorem shift_label (op : Opcode) (v : Nat) (b : Bool) :
    Registers.shift (.ofBit b) (d.withStage (.label op v)).registers =
      .ok () (d.withStage (.label op (2 * v + b.toNat))).registers := by
  simp [shift_eq, registers, Stage.value, Stage.phase, Stage.family?, Stage.opcode?, Stage.pending,
    Stage.sign, withStage]

theorem onNumber_registers (op : Opcode) (sign : Option Sign) (v : Nat) :
    Registers.onNumber c (d.withStage (.number op sign v)).registers =
      ((d.withStage (.number op sign v)).accept c).registers := by
  rcases sign with _ | sign
  · cases c <;> rfl
  · have hsign : (d.withStage (.number op (some sign) v)).registers.sign ≠ 0 := by
      cases sign <;> simp [registers, withStage, Stage.sign, Sign.factor]
    have hexpect (r : Registers) :
        Registers.expect (d.withStage (.number op (some sign) v)).registers.opcode? r = .ok op r :=
      rfl
    have hoperand : (d.withStage (.number op (some sign) v)).registers.sign *
        (d.withStage (.number op (some sign) v)).registers.value = sign.apply v :=
      sign.factor_mul v
    simp only [Registers.onNumber, Registers.get_bind, hsign, if_false]
    cases c with
    | feed =>
      simp only [if_true, bind, EStateM.bind, hexpect, hoperand, issue_registers, accept, stage_withStage]
    | space => exact shift_number d op sign v false
    | tab => exact shift_number d op sign v true

theorem onLabel_registers (op : Opcode) (v : Nat) :
    Registers.onLabel c (d.withStage (.label op v)).registers =
      ((d.withStage (.label op v)).accept c).registers := by
  have hexpect (r : Registers) :
      Registers.expect (d.withStage (.label op v)).registers.opcode? r = .ok op r := rfl
  have hoperand : (d.withStage (.label op v)).registers.value = v := rfl
  simp only [Registers.onLabel, Registers.get_bind]
  cases c with
  | feed =>
    simp only [if_true, bind, EStateM.bind, hexpect, hoperand, issue_registers, accept, stage_withStage]
  | space => exact shift_label d op v false
  | tab => exact shift_label d op v true

end Blank

/-- One blank does to the registers what it does to the stage. -/
theorem accept_registers (d : Decoder) (c : Blank) :
    Registers.accept c d.registers = (d.accept c).registers := by
  suffices h : ∀ st, Registers.accept c (d.withStage st).registers =
      ((d.withStage st).accept c).registers from h d.stage
  intro st
  cases st with
  | family pending => exact onFamily_registers d c pending
  | command f pending => exact onCommand_registers d c pending f
  | number op sign v => exact onNumber_registers d c op sign v
  | label op v => exact onLabel_registers d c op v

theorem step_registers (split : Bool) (d : Decoder) (b : UInt8) :
    Registers.step split b d.registers = (d.step split b).registers := by
  have hlast : d.registers.lastByte = d.lastByte := rfl
  simp only [Registers.step, Registers.get_bind, step, hlast]
  cases Blank.ofByte? split d.lastByte b with
  | none => rfl
  | some c =>
    simp only [bind, EStateM.bind, accept_registers]
    cases d.accept c <;> rfl

theorem feed_registers (split : Bool) (d : Decoder) (piece : List UInt8) :
    Registers.feed split piece d.registers = (d.feed split piece).registers := by
  induction piece generalizing d with
  | nil => rfl
  | cons b rest ih =>
    simp only [Registers.feed, bind, EStateM.bind, step_registers, feed]
    cases d.step split b with
    | ok a d' => exact ih d'
    | error e d' => rfl

theorem finish_registers (d : Decoder) : Registers.finish d.registers = d.finish.registers := by
  suffices h : ∀ st, Registers.finish (d.withStage st).registers =
      (d.withStage st).finish.registers from h d.stage
  intro st
  cases st with
  | family pending => cases pending <;> rfl
  | command f pending => rfl
  | number op sign v => rfl
  | label op v => rfl

end Decoder

namespace Registers

/-- Do what is asked for; only `finish` gives a program. -/
def perform (split : Bool) : Decoder.Call → Handler (Option Program)
  | .feed piece => do
    feed split piece
    return none
  | .finish => return some (← finish)
  | .reset => do
    reset
    return none

/-- The registers that a call leaves, whether or not it fails. -/
def after (split : Bool) (r : Registers) (c : Decoder.Call) : Registers :=
  match perform split c r with
  | .ok _ r' | .error _ r' => r'

/-- The registers after a row of calls. A call that fails does not end the session. -/
def session (split : Bool) (r : Registers) (calls : List Decoder.Call) : Registers :=
  calls.foldl (after split) r

theorem perform_registers (split : Bool) (d : Decoder) (c : Decoder.Call) :
    perform split c d.registers = (d.call split c).registers := by
  cases c with
  | feed piece =>
    simp only [perform, bind, EStateM.bind, d.feed_registers split piece, Decoder.call]
    cases d.feed split piece <;> rfl
  | finish =>
    simp only [perform, bind, EStateM.bind, d.finish_registers, Decoder.call]
    cases d.finish <;> rfl
  | reset => rfl

theorem after_registers (split : Bool) (d : Decoder) (c : Decoder.Call) :
    after split d.registers c = (d.call split c).decoder.registers := by
  rw [after, perform_registers]
  cases d.call split c <;> rfl

/-- A session leaves the registers of the decoder with stages. -/
theorem session_registers (split : Bool) (d : Decoder) (calls : List Decoder.Call) :
    session split d.registers calls = (d.session split calls).registers := by
  induction calls generalizing d with
  | nil => rfl
  | cons c calls ih =>
    rw [session, List.foldl_cons, after_registers]
    exact ih _

/-- Every call of a session gives what the decoder with stages gives. So the checks of the handlers
always succeed. -/
theorem perform_session (split : Bool) (calls : List Decoder.Call) (c : Decoder.Call) :
    perform split c (session split {} calls) =
        ((({} : Decoder).session split calls).call split c).registers ∧
      ∀ r, perform split c (session split {} calls) ≠ .error .unset r := by
  have hperform : perform split c (session split {} calls) =
      ((({} : Decoder).session split calls).call split c).registers := by
    rw [← perform_registers, ← session_registers]
    rfl
  refine ⟨hperform, fun r hunset => ?_⟩
  rw [hperform] at hunset
  cases hcall : (({} : Decoder).session split calls).call split c with
  | ok a d => rw [hcall] at hunset; cases hunset
  | error e d =>
    rw [hcall] at hunset
    cases e <;> cases hunset

end Registers

end Whitespace
