import Whitespace.Proofs.Decoder.NormalForm
import Whitespace.Proofs.Decoder.RoundTrip
import Whitespace.Proofs.Decoder.Soundness

/-!
# Sessions with a decoder

A session is any row of calls on one decoder: pieces are fed, the program is asked for, the current
instruction is given up. It goes on after every failure with the state that the failure left. What
is said here holds at every moment of it. The stage holds only what its operand can be made of, the
program only well-formed instructions, and a failure neither adds an instruction nor lets the
program be taken half read. An unknown command fails with every further blank, until it is given up.

## Main definitions

* `Decoder.Call`, `Decoder.session` — calls on one decoder.
* `Stage.Regular` — what a stage can hold.
* `Stage.Lost` — no command of the family starts with the blanks read.
* `Decoder.Outcome`, `Decoder.Failure` — what one byte can do, and how it can fail.
* `Decoder.Reliable` — what can be relied on at every moment of a session.

## Main statements

* `Decoder.step_outcome`, `Decoder.Orderly.failure` — every byte does, or fails with, one of these.
* `Decoder.Orderly.step`, `Decoder.Orderly.session` — one byte, and a session.
* `Decoder.feed_eq_error` — where a piece fails.
* `Decoder.lost_session` — an unknown command stays one.
* `Decoder.reliable_session` — what can be relied on in a session.
-/

namespace Whitespace

namespace Decoder

variable {α β : Type}

/-- The decoder that an operation leaves. -/
def Result.decoder : Result α → Decoder
  | .ok _ d => d
  | .error _ d => d

/-- Change the value of an operation. -/
def Result.map (f : α → β) : Result α → Result β
  | .ok a d => .ok (f a) d
  | .error e d => .error e d

@[simp] theorem Result.decoder_map (f : α → β) (r : Result α) : (r.map f).decoder = r.decoder := by
  cases r <;> rfl

/-- What a decoder can be asked to do. -/
inductive Call where
  /-- Read a piece of source. -/
  | feed (piece : List UInt8)
  /-- Give the program. -/
  | finish
  /-- Forget what was read of the current instruction. -/
  | reset
  deriving DecidableEq, Repr

/-- Do what is asked for; only `finish` gives a program. -/
def call (split : Bool) (d : Decoder) : Call → Result (Option Program)
  | .feed piece => (d.feed split piece).map fun _ => none
  | .finish => d.finish.map some
  | .reset => .ok none d.reset

/-- The decoder after a row of calls. A call that fails does not end the session. -/
def session (split : Bool) (d : Decoder) (calls : List Call) : Decoder :=
  calls.foldl (fun d c => (d.call split c).decoder) d

end Decoder

/-! ## Stages -/

namespace Stage

/-- What a stage can hold. Between instructions and inside the word of a family nothing is known
yet, and the word is at most a tab, because two blanks always are a word. The value of a number is
zero until its sign is read. -/
def Regular (st : Stage) : Prop :=
  match st with
  | family _ =>
    (st.pending = [] ∨ st.pending = [.tab]) ∧ st.family? = none ∧ st.opcode? = none ∧
      st.sign = 0 ∧ st.value = 0
  | command _ _ => st.family? ≠ none
  | number _ _ _ =>
    st.opcode? ∈ [some .push, some .copy, some .slide] ∧ (st.sign = 0 → st.value = 0)
  | label _ _ =>
    st.opcode? ∈ [some .mark, some .call, some .jump, some .jumpZero, some .jumpNegative] ∧
      1 ≤ st.value

variable {st st' : Stage} {c : Blank} {cause : Decoder.Cause} {op : Opcode} {f : Family}

theorem regular_family {pending : List Blank} (h : pending = [] ∨ pending = [.tab]) :
    (family pending).Regular :=
  ⟨h, rfl, rfl, rfl, rfl⟩

theorem regular_command (f : Family) (pending : List Blank) : (command f pending).Regular :=
  Option.some_ne_none f

theorem regular_number_iff {sign : Option Sign} {v : Nat} :
    (number op sign v).Regular ↔ op.operandKind = .number ∧ (sign = none → v = 0) := by
  have hop : some op ∈ [some Opcode.push, some .copy, some .slide] ↔ op.operandKind = .number := by
    cases op <;> decide
  have hsign : (number op sign v).sign = 0 ↔ sign = none := by
    rcases sign with _ | _ | _ <;> simp [Stage.sign, Sign.factor]
  simp only [Regular, opcode?, value, hop, hsign]

theorem regular_signed (h : op.operandKind = .number) (sign : Sign) (v : Nat) :
    (number op (some sign) v).Regular :=
  regular_number_iff.2 ⟨h, fun hsign => absurd hsign (Option.some_ne_none sign)⟩

theorem regular_label_iff {v : Nat} : (label op v).Regular ↔ op.operandKind = .label ∧ 1 ≤ v := by
  have hop : some op ∈ [some Opcode.mark, some .call, some .jump, some .jumpZero,
      some .jumpNegative] ↔ op.operandKind = .label := by
    cases op <;> decide
  simp only [Regular, opcode?, value, hop]

theorem Regular.valid (hst : st.Regular) : st.Valid := by
  cases st with
  | family pending => trivial
  | command f pending => trivial
  | number op sign v => exact (regular_number_iff.1 hst).1
  | label op v => exact regular_label_iff.1 hst

theorem regular_operandStage (h : Decoder.operandStage? op = some st) : st.Regular := by
  have hvalid := valid_operandStage h
  unfold Decoder.operandStage? at h
  split at h <;> cases h
  · exact regular_number_iff.2 ⟨hvalid, fun _ => rfl⟩
  · exact regular_label_iff.2 hvalid

/-- Inside the word of a family a blank either ends the word or is the tab that starts one. -/
theorem read_family {pending : List Blank} (h : pending = [] ∨ pending = [.tab]) (c : Blank) :
    (∃ f, (family pending).read c = .unfinished (command f [])) ∨
      (family pending).read c = .unfinished (family [.tab]) := by
  rcases h with rfl | rfl
  · cases c with
    | space => exact .inl ⟨.stack, rfl⟩
    | tab => exact .inr rfl
    | feed => exact .inl ⟨.flow, rfl⟩
  · cases c with
    | space => exact .inl ⟨.arithmetic, rfl⟩
    | tab => exact .inl ⟨.heap, rfl⟩
    | feed => exact .inl ⟨.io, rfl⟩

/-- A stage that can hold what it does goes on to such a stage. -/
theorem Regular.unfinished (hst : st.Regular) (h : st.read c = .unfinished st') : st'.Regular := by
  cases st with
  | family pending =>
    obtain ⟨f, hread⟩ | hread := read_family hst.1 c
    · cases hread.symm.trans h
      exact regular_command f []
    · cases hread.symm.trans h
      exact regular_family (.inr rfl)
  | command f pending =>
    simp only [read] at h
    split at h
    · split at h
      · next hstage =>
        cases h
        exact regular_operandStage hstage
      · cases h
    · cases h
      exact regular_command f _
    · cases h
  | number op sign v =>
    obtain ⟨hkind, -⟩ := regular_number_iff.1 hst
    cases sign <;> cases c <;> cases h <;> exact regular_signed hkind _ _
  | label op v =>
    have hvalid := hst.valid.unfinished h
    cases c <;> cases h <;> exact regular_label_iff.2 hvalid

/-- What goes wrong in a stage that can hold what it does: a command is unknown, or a number has no
sign. -/
theorem Regular.wrong (hst : st.Regular) (h : st.read c = .wrong cause st') :
    st'.Regular ∧
      ((∃ f w, cause = .unknownCommand f w ∧ st' = command f w ∧ Opcode.select f w = .unknown) ∨
      (cause = .unsigned ∧ st' = st ∧ st ≠ start)) := by
  cases st with
  | family pending =>
    obtain ⟨f, hread⟩ | hread := read_family hst.1 c
    · cases hread.symm.trans h
    · cases hread.symm.trans h
  | command f pending =>
    simp only [read] at h
    split at h
    · split at h <;> cases h
    · cases h
    · next hselect =>
      cases h
      exact ⟨regular_command f _, .inl ⟨f, _, rfl, rfl, hselect⟩⟩
  | number op sign v =>
    cases sign <;> cases c <;> cases h
    exact ⟨hst, .inr ⟨rfl, rfl, Stage.noConfusion⟩⟩
  | label op v => cases c <;> cases h

/-- An instruction is never complete at its first blank. -/
theorem ne_start_of_complete {i : Instruction} (h : st.read c = .complete i) : st ≠ start := by
  rintro rfl
  cases c <;> cases h

/-- No command of the family `f` starts with the blanks read. -/
def Lost (f : Family) (st : Stage) : Prop := ∃ w, st = command f w ∧ Opcode.select f w = .unknown

end Stage

/-- Blanks that start no word start none with more blanks behind them. -/
theorem select_append_of_unknown {α : Type} {items : List α} {word : α → List Blank}
    {pending : List Blank} (h : select items word pending = .unknown) (more : List Blank) :
    select items word (pending ++ more) = .unknown := by
  have hnone : ∀ a ∈ items, ¬ pending <+: word a := by
    unfold select at h
    split at h
    · cases h
    · split at h
      · cases h
      · next hany => simpa using hany
  have hmore : ∀ a ∈ items, ¬ pending ++ more <+: word a := fun a ha hprefix =>
    hnone a ha ((List.prefix_append pending more).trans hprefix)
  have hfind : items.find? (word · = pending ++ more) = none := by
    refine List.find?_eq_none.2 fun a ha heq => hmore a ha ?_
    have hword : word a = pending ++ more := of_decide_eq_true heq
    exact hword ▸ List.prefix_refl _
  unfold select
  rw [hfind]
  simpa using hmore

theorem Stage.Lost.read {st : Stage} {f : Family} (h : st.Lost f) (c : Blank) :
    ∃ w, st.read c = .wrong (.unknownCommand f w) (.command f w) ∧ (Stage.command f w).Lost f := by
  obtain ⟨w, rfl, hselect⟩ := h
  have hmore : Opcode.select f (w ++ [c]) = .unknown := select_append_of_unknown hselect [c]
  exact ⟨w ++ [c], by simp only [Stage.read, hmore], w ++ [c], rfl, hmore⟩

/-! ## One byte -/

namespace Decoder

/-- What one byte can do. -/
inductive Outcome (split : Bool) (d : Decoder) (b : UInt8) : Result Unit → Prop where
  | ignored (hb : Blank.ofByte? split d.lastByte b = none) :
      Outcome split d b (.ok () { d with offset := d.offset + 1, lastByte := some b })
  | unfinished {c : Blank} {st : Stage} (hb : Blank.ofByte? split d.lastByte b = some c)
      (h : d.stage.read c = .unfinished st) :
      Outcome split d b (.ok () { d with stage := st, offset := d.offset + 1, lastByte := some b })
  | complete {c : Blank} {i : Instruction} {log : Log}
      (hb : Blank.ofByte? split d.lastByte b = some c) (h : d.stage.read c = .complete i) :
      Outcome split d b (.ok ()
        { stage := .start
          offset := d.offset + 1
          lastByte := some b
          program := d.program.append i
          log := log })
  | tooLong {c : Blank} {i : Instruction} (hb : Blank.ofByte? split d.lastByte b = some c)
      (h : d.stage.read c = .complete i) : Outcome split d b (.error (.tooLong .writing) d)
  | wrong {c : Blank} {cause : Cause} {st : Stage}
      (hb : Blank.ofByte? split d.lastByte b = some c) (h : d.stage.read c = .wrong cause st) :
      Outcome split d b
        (.error (.malformed cause d.offset d.program.size) { d with stage := st })

variable {d d' : Decoder} {split : Bool} {e : Error} {f : Family}

theorem step_outcome (split : Bool) (d : Decoder) (b : UInt8) :
    Outcome split d b (d.step split b) := by
  unfold step
  cases hb : Blank.ofByte? split d.lastByte b with
  | none => exact .ignored hb
  | some c =>
    dsimp only
    rw [accept_eq]
    cases hread : d.stage.read c with
    | unfinished st => exact .unfinished hb hread
    | complete i =>
      by_cases hi : i.Fits
      · obtain ⟨log, hemit⟩ := d.exists_emit_eq_ok hi
        simp only [hemit]
        exact .complete hb hread
      · simp only [emit_eq_error d hi]
        exact .tooLong hb hread
    | wrong cause st => exact .wrong hb hread

/-- The stage can hold what it does, the instructions have their operands, and the program is the
one that they build. -/
structure Orderly (d : Decoder) : Prop where
  stage : d.stage.Regular
  wellFormed : ∀ i ∈ d.program.instructions.toList, i.WellFormed
  built : d.program = .ofInstructions d.program.instructions.toList

theorem orderly_initial : ({} : Decoder).Orderly :=
  ⟨Stage.regular_family (.inl rfl), by simp, rfl⟩

theorem Orderly.step (hd : d.Orderly) (b : UInt8) : (d.step split b).decoder.Orderly := by
  have h := step_outcome split d b
  generalize d.step split b = r at h
  cases h with
  | ignored => exact ⟨hd.stage, hd.wellFormed, hd.built⟩
  | unfinished _ hread => exact ⟨hd.stage.unfinished hread, hd.wellFormed, hd.built⟩
  | @complete c i log _ hread =>
    refine ⟨Stage.regular_family (.inl rfl), ?_, ?_⟩
    · intro j hj
      rcases List.mem_append.1 (Program.toList_append d.program i ▸ hj) with hj | hj
      · exact hd.wellFormed j hj
      · rw [List.mem_singleton.1 hj]
        exact hd.stage.valid.complete hread
    · simp only [Result.decoder, Program.toList_append, Program.ofInstructions_concat, ← hd.built]
  | tooLong => exact hd
  | wrong _ hread => exact ⟨(hd.stage.wrong hread).1, hd.wellFormed, hd.built⟩

/-- How a byte can fail, and what the failure leaves: an operand cannot be logged, a command is
unknown, or a number has no sign. -/
inductive Failure (d : Decoder) : Error → Decoder → Prop where
  | tooLong (h : d.stage ≠ .start) : Failure d (.tooLong .writing) d
  | unknownCommand {f : Family} {w : List Blank} (h : Opcode.select f w = .unknown) :
      Failure d (.malformed (.unknownCommand f w) d.offset d.program.size)
        { d with stage := .command f w }
  | unsigned (h : d.stage ≠ .start) :
      Failure d (.malformed .unsigned d.offset d.program.size) d

theorem Orderly.failure (hd : d.Orderly) {b : UInt8} (h : d.step split b = .error e d') :
    Failure d e d' := by
  have hout := step_outcome split d b
  rw [h] at hout
  cases hout with
  | tooLong _ hread => exact .tooLong (Stage.ne_start_of_complete hread)
  | wrong _ hread =>
    obtain ⟨-, ⟨f, w, rfl, rfl, hselect⟩ | ⟨rfl, rfl, hstart⟩⟩ := hd.stage.wrong hread
    · exact .unknownCommand hselect
    · exact .unsigned hstart

namespace Failure

theorem program (h : Failure d e d') : d'.program = d.program := by
  cases h <;> rfl

/-- After a failure the decoder does not stand between instructions. -/
theorem stage_ne_start (h : Failure d e d') : d'.stage ≠ .start := by
  cases h with
  | tooLong hstart => exact hstart
  | unknownCommand => exact nofun
  | unsigned hstart => exact hstart

theorem ne_unknownFamily (h : Failure d e d') (w : List Blank) (offset index : Nat) :
    e ≠ .malformed (.unknownFamily w) offset index := by
  cases h <;> exact nofun

theorem lost {w : List Blank} {offset index : Nat}
    (h : Failure d (.malformed (.unknownCommand f w) offset index) d') : d'.stage.Lost f := by
  cases h with
  | unknownCommand hselect => exact ⟨w, rfl, hselect⟩

end Failure

/-- While a command is unknown, a byte that stands for a blank fails, and the command stays
unknown. -/
theorem step_of_lost (hd : d.stage.Lost f) (b : UInt8) :
    (d.step split b).decoder.stage.Lost f ∧
      (Blank.ofByte? split d.lastByte b ≠ none → ∃ w d', d.step split b =
        .error (.malformed (.unknownCommand f w) d.offset d.program.size) d') := by
  have h := step_outcome split d b
  generalize d.step split b = r at h
  cases h with
  | ignored hb => exact ⟨hd, fun hne => absurd hb hne⟩
  | @unfinished c _ _ hread =>
    obtain ⟨w, hlost, -⟩ := hd.read c
    cases hlost.symm.trans hread
  | @complete c _ _ _ hread =>
    obtain ⟨w, hlost, -⟩ := hd.read c
    cases hlost.symm.trans hread
  | @tooLong c _ _ hread =>
    obtain ⟨w, hlost, -⟩ := hd.read c
    cases hlost.symm.trans hread
  | @wrong c _ _ _ hread =>
    obtain ⟨w, hlost, hnext⟩ := hd.read c
    cases hlost.symm.trans hread
    exact ⟨hnext, fun _ => ⟨w, _, rfl⟩⟩

/-! ## Sessions -/

/-- What every byte keeps, a piece keeps, also one that fails. -/
theorem feed_keeps {P : Decoder → Prop} (hstep : ∀ d b, P d → P (d.step split b).decoder)
    (hd : P d) (piece : List UInt8) : P (d.feed split piece).decoder := by
  induction piece generalizing d with
  | nil => exact hd
  | cons b piece ih =>
    have hb := hstep d b hd
    rw [feed]
    cases h : d.step split b with
    | ok u d₁ =>
      rw [h] at hb
      exact ih hb
    | error e d₁ =>
      rw [h] at hb
      exact hb

/-- What every byte keeps, whatever is logged, a session keeps, as long as nothing is given up or
that keeps it too. -/
theorem session_keeps {P : Decoder → Prop} (hstep : ∀ d b, P d → P (d.step split b).decoder)
    (hlog : ∀ d log, P d → P { d with log := log }) {calls : List Call}
    (hreset : .reset ∈ calls → ∀ d, P d → P d.reset) (hd : P d) : P (d.session split calls) := by
  induction calls generalizing d with
  | nil => exact hd
  | cons c calls ih =>
    refine ih (fun h => hreset (List.mem_cons_of_mem c h)) ?_
    cases c with
    | feed piece =>
      simp only [call, Result.decoder_map]
      exact feed_keeps hstep hd piece
    | finish =>
      simp only [call, Result.decoder_map, finish]
      split
      · exact hlog d _ hd
      · exact hd
    | reset => exact hreset List.mem_cons_self d hd

theorem Orderly.feed (hd : d.Orderly) (split : Bool) (piece : List UInt8) :
    (d.feed split piece).decoder.Orderly :=
  feed_keeps (fun _ b h => h.step b) hd piece

theorem Orderly.session (hd : d.Orderly) (split : Bool) (calls : List Call) :
    (d.session split calls).Orderly :=
  session_keeps (fun _ b h => h.step b) (fun _ _ h => ⟨h.stage, h.wellFormed, h.built⟩)
    (fun _ _ h => ⟨Stage.regular_family (.inl rfl), h.wellFormed, h.built⟩) hd

/-- An unknown command stays one until it is given up. -/
theorem lost_session (hd : d.stage.Lost f) (split : Bool) {calls : List Call}
    (h : .reset ∉ calls) :
    (d.session split calls).stage.Lost f :=
  session_keeps (P := fun d => d.stage.Lost f) (fun _ b h => (step_of_lost h b).1)
    (fun _ _ h => h) (fun hmem => absurd hmem h) hd

/-- A piece fails at one byte: those in front of it were read, and it is that byte's failure. -/
theorem feed_eq_error {piece : List UInt8} (h : d.feed split piece = .error e d') :
    ∃ before b after d₁, piece = before ++ b :: after ∧ d.feed split before = .ok () d₁ ∧
      d₁.step split b = .error e d' := by
  induction piece generalizing d with
  | nil => cases h
  | cons b piece ih =>
    rw [feed] at h
    cases hstep : d.step split b with
    | ok u d₁ =>
      rw [hstep] at h
      obtain ⟨before, b', after, d₂, rfl, hbefore, hfail⟩ := ih h
      refine ⟨b :: before, b', after, d₂, rfl, ?_, hfail⟩
      rw [feed, hstep]
      exact hbefore
    | error e₁ d₁ =>
      rw [hstep] at h
      cases h
      exact ⟨[], b, piece, d, rfl, rfl, hstep⟩

/-- The program is not given while the decoder stands inside an instruction. -/
theorem finish_eq_error (h : d.stage ≠ .start) :
    d.finish = .error (.malformed (.cutOff d.stage) d.offset d.program.size) d := by
  rw [finish, if_neg h]
  rfl

/-- The byte is a space, a tab or the end of a line, and not the line feed of a return. -/
def Heeds (split : Bool) (d : Decoder) (b : UInt8) : Prop :=
  b ∈ significant ∧ ¬ (b = 10 ∧ d.lastByte = some 13 ∧ split = false)

theorem Heeds.ofByte?_ne_none {b : UInt8} (h : d.Heeds split b) :
    Blank.ofByte? split d.lastByte b ≠ none := by
  intro hnone
  have hnormal := normalByte?_eq split d.lastByte b
  rw [hnone, normalByte?, if_neg (not_not_intro h.1), if_neg h.2] at hnormal
  cases hnormal

/-- What can be relied on at every moment of a session. -/
structure Reliable (split : Bool) (d : Decoder) : Prop where
  stage : d.stage.Regular
  wellFormed : ∀ i ∈ d.program.instructions.toList, i.WellFormed
  /-- The instructions build the program, so none of them was a mark without its label. -/
  built : Program.ofInstructions? d.program.instructions.toList = some d.program
  /-- No call meets an unknown family. -/
  known : ∀ c e d', d.call split c = .error e d' →
    ∀ w offset index, e ≠ .malformed (.unknownFamily w) offset index
  /-- A piece fails at one byte, which adds no instruction, and then the program is not given. -/
  failure : ∀ piece e d', d.feed split piece = .error e d' →
    (∃ before b after d₁, piece = before ++ b :: after ∧ d.feed split before = .ok () d₁ ∧
      d₁.step split b = .error e d' ∧ d'.program = d₁.program) ∧
    d'.finish = .error (.malformed (.cutOff d'.stage) d'.offset d'.program.size) d'
  /-- After an unknown command every blank is a failure, until the command is given up. -/
  lost : ∀ piece f w offset index d',
    d.feed split piece = .error (.malformed (.unknownCommand f w) offset index) d' →
    ∀ later, .reset ∉ later → ∀ b rest, (d'.session split later).Heeds split b →
      ∃ w' d'', (d'.session split later).feed split (b :: rest) =
        .error (.malformed (.unknownCommand f w') (d'.session split later).offset
          (d'.session split later).program.size) d''

/-- Where an orderly decoder fails, and what the failure leaves. -/
theorem Orderly.feed_eq_error (hd : d.Orderly) {piece : List UInt8}
    (h : d.feed split piece = .error e d') :
    ∃ before b after d₁, piece = before ++ b :: after ∧ d.feed split before = .ok () d₁ ∧
      d₁.Orderly ∧ d₁.step split b = .error e d' := by
  obtain ⟨before, b, after, d₁, hpiece, hbefore, hstep⟩ := Decoder.feed_eq_error h
  have hd₁ := hd.feed split before
  rw [hbefore] at hd₁
  exact ⟨before, b, after, d₁, hpiece, hbefore, hd₁, hstep⟩

theorem Orderly.call_ne_unknownFamily (hd : d.Orderly) {c : Call} {d' : Decoder}
    (h : d.call split c = .error e d') (w : List Blank) (offset index : Nat) :
    e ≠ .malformed (.unknownFamily w) offset index := by
  cases c with
  | feed piece =>
    simp only [call] at h
    cases hfeed : d.feed split piece with
    | ok u d₁ =>
      rw [hfeed] at h
      cases h
    | error e₁ d₁ =>
      rw [hfeed] at h
      cases h
      obtain ⟨before, b, after, d₁, -, -, hd₁, hstep⟩ := hd.feed_eq_error hfeed
      exact (hd₁.failure hstep).ne_unknownFamily w offset index
  | finish =>
    simp only [call, finish] at h
    split at h
    · cases h
    · cases h
      intro heq
      cases heq
  | reset => cases h

/-- Whatever calls were made on a decoder, and whichever of them failed: its stage holds only what
it can, its instructions are well-formed, no family is ever unknown, a failure adds no instruction
and keeps the program from being given, and an unknown command fails with every further blank until
it is given up. -/
theorem reliable_session (split : Bool) (calls : List Call) :
    (({} : Decoder).session split calls).Reliable split := by
  have hd : (({} : Decoder).session split calls).Orderly := orderly_initial.session split calls
  generalize ({} : Decoder).session split calls = d at hd
  refine ⟨hd.stage, hd.wellFormed, ?_, fun c e d' => hd.call_ne_unknownFamily, ?_, ?_⟩
  · rw [Program.ofInstructions?_of_wellFormed hd.wellFormed, ← hd.built]
  · intro piece e d' h
    obtain ⟨before, b, after, d₁, hpiece, hbefore, hd₁, hstep⟩ := hd.feed_eq_error h
    have hfailure := hd₁.failure hstep
    exact ⟨⟨before, b, after, d₁, hpiece, hbefore, hstep, hfailure.program⟩,
      finish_eq_error hfailure.stage_ne_start⟩
  · intro piece f w offset index d' h later hlater b rest hb
    obtain ⟨before, b', after, d₁, -, -, hd₁, hstep⟩ := hd.feed_eq_error h
    have hnow := lost_session (hd₁.failure hstep).lost split hlater
    obtain ⟨w', d'', hfail⟩ := (step_of_lost hnow b).2 hb.ofByte?_ne_none
    exact ⟨w', d'', by rw [feed, hfail]⟩

end Decoder

end Whitespace
