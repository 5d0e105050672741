import Whitespace.Proofs.Decoder.Feeding

/-!
# What every decoded program satisfies

Whatever bytes a source holds, comments and carriage returns included, the instructions read from it
have the operands that their opcodes take, and the operands can be written in decimal.

## Main definitions

* `Stage.Valid` — an operand is read only for an opcode that takes it.
* `Decoder.Sound` — the program read so far is made of proper instructions.

## Main statements

* `Decoder.Sound.step`, `Decoder.Sound.feed` — one byte, and a piece of source.
* `decode_sound` — the program that a source holds.
-/

namespace Whitespace

namespace Stage

/-- An operand is read only for an opcode that takes it. -/
def Valid : Stage → Prop
  | family _ => True
  | command _ _ => True
  | number op _ _ => op.operandKind = .number
  | label op v => op.operandKind = .label ∧ 1 ≤ v

variable {st st' : Stage} {c : Blank} {i : Instruction}

theorem valid_operandStage {op : Opcode} (h : Decoder.operandStage? op = some st) : st.Valid := by
  unfold Decoder.operandStage? at h
  split at h <;> cases h
  · assumption
  · exact ⟨by assumption, Nat.le_refl 1⟩

theorem Valid.unfinished (hst : st.Valid) (h : st.read c = .unfinished st') : st'.Valid := by
  cases st with
  | family pending =>
    simp only [read] at h
    split at h <;> cases h <;> trivial
  | command f pending =>
    simp only [read] at h
    split at h
    · split at h
      · next hstage =>
        cases h
        exact valid_operandStage hstage
      · cases h
    · cases h
      trivial
    · cases h
  | number op sign v =>
    have hkind : op.operandKind = .number := hst
    cases sign <;> cases c <;> cases h <;> exact hkind
  | label op v =>
    obtain ⟨hkind, hv⟩ := hst
    cases c <;> cases h
    · exact ⟨hkind, by omega⟩
    · exact ⟨hkind, by omega⟩

theorem Valid.complete (hst : st.Valid) (h : st.read c = .complete i) : i.WellFormed := by
  cases st with
  | family pending =>
    simp only [read] at h
    split at h <;> cases h
  | command f pending =>
    simp only [read] at h
    split at h
    · next op _ =>
      split at h
      · cases h
      · next hstage =>
        cases h
        have hkind : op.operandKind = .none := by
          unfold Decoder.operandStage? at hstage
          split at hstage <;> simp_all
        simp [Instruction.WellFormed, hkind]
    · cases h
    · cases h
  | number op sign v =>
    have hkind : op.operandKind = .number := hst
    cases sign <;> cases c <;> cases h
    simp [Instruction.WellFormed, hkind]
  | label op v =>
    obtain ⟨hkind, hv⟩ := hst
    cases c <;> cases h
    have hle : (1 : Int) ≤ v := by exact_mod_cast hv
    simpa [Instruction.WellFormed, hkind] using hle

end Stage

namespace Decoder

variable {d d' : Decoder} {split : Bool}

/-- The program read so far is made of instructions that have their operands, and the operands fit.
The stage comes in because it holds the opcode of the next instruction. -/
structure Sound (d : Decoder) : Prop where
  stage : d.stage.Valid
  program : ∃ is, d.program = .ofInstructions is ∧ ∀ i ∈ is, i.WellFormed ∧ i.Fits

theorem sound_initial : ({} : Decoder).Sound := ⟨trivial, [], rfl, by simp⟩

theorem Sound.emit (hd : d.Sound) {i : Instruction} (hi : i.WellFormed)
    (h : d.emit i = .ok () d') : d'.Sound := by
  unfold Decoder.emit at h
  split at h
  · cases h
  · next text htext =>
    cases h
    obtain ⟨is, his, hall⟩ := hd.program
    refine ⟨trivial, is ++ [i], by rw [Program.ofInstructions_concat, ← his], ?_⟩
    intro j hj
    rcases List.mem_append.1 hj with hj | hj
    · exact hall j hj
    · rw [List.mem_singleton.1 hj]
      exact ⟨hi, Instruction.fits_of_text_eq_ok htext⟩

theorem Sound.accept (hd : d.Sound) {c : Blank} (h : d.accept c = .ok () d') : d'.Sound := by
  rw [accept_eq] at h
  cases hread : d.stage.read c with
  | unfinished st =>
    simp only [hread] at h
    cases h
    exact ⟨hd.stage.unfinished hread, hd.program⟩
  | complete i =>
    simp only [hread] at h
    exact hd.emit (hd.stage.complete hread) h
  | wrong cause st =>
    simp only [hread, fail] at h
    cases h

theorem Sound.step (hd : d.Sound) {b : UInt8} (h : d.step split b = .ok () d') : d'.Sound := by
  unfold Decoder.step at h
  split at h
  · cases h
    exact ⟨hd.stage, hd.program⟩
  · split at h
    · next haccept =>
      cases h
      have he := hd.accept haccept
      exact ⟨he.stage, he.program⟩
    · cases h

theorem Sound.feed (hd : d.Sound) {bytes : List UInt8} (h : d.feed split bytes = .ok () d') :
    d'.Sound := by
  induction bytes generalizing d with
  | nil =>
    cases h
    exact hd
  | cons b bytes ih =>
    rw [Decoder.feed] at h
    split at h
    · next hstep => exact ih (hd.step hstep) h
    · cases h

end Decoder

/-- Whatever source a program comes from, its instructions have their operands, the operands fit,
and the label table is that of the instructions. -/
theorem decode_sound {split : Bool} {source : List UInt8} {p : Program}
    (h : decode split source = .ok p) :
    ∃ is, p = .ofInstructions is ∧ ∀ i ∈ is, i.WellFormed ∧ i.Fits := by
  rw [decode, decodeSource_eq] at h
  cases hfeed : ({} : Decoder).feed split source with
  | error e d => simp [hfeed, Decoder.Result.toExcept] at h
  | ok u d =>
    have hd : d.Sound := Decoder.sound_initial.feed hfeed
    simp only [hfeed, Decoder.finish, Decoder.fail] at h
    split at h
    · cases h
      exact hd.program
    · cases h

end Whitespace
