import Whitespace.Proofs.Decoder.Account

/-!
# Sources behind one another

A source that was decoded leaves the decoder between two instructions, so what follows is decoded
as if it stood alone. The instructions come behind those that are there, and places are counted
from the beginning of the whole source. One pair of sources does not join: a return and a line feed
that meet are one line end, unless the two are split.

## Main definitions

* `Decoder.Error.behind` — an error in a source that stands behind another one.
* `Decoder.Behind` — a decoder does what another one does, behind a source.

## Main statements

* `Decoder.Behind.step`, `Decoder.Behind.feed` — one byte, and a whole source.
* `decode_append` — decoding two sources as one.
-/

namespace Whitespace

/-- A byte is read in the same way behind every byte, but for the line feed of a return. -/
theorem Blank.ofByte?_eq_of_not_pair {split : Bool} {previous : Option UInt8} {b : UInt8}
    (h : ¬ (split = false ∧ previous = some 13 ∧ b = 10)) :
    ofByte? split previous b = ofByte? split none b := by
  by_cases hfeed : b = 10
  · have hpair : ¬ (previous = some 13 && !split) := by grind
    simp [ofByte?, hfeed, hpair]
  · simp [ofByte?, hfeed]

namespace Decoder

/-- The error in a source that stands behind `n` bytes with `k` instructions. -/
def Error.behind (n k : Nat) : Error → Error
  | .malformed cause offset index => .malformed cause (n + offset) (k + index)
  | .tooLong e => .tooLong e

/-- The decoder `d` has read `n` bytes with the instructions `is`, and then what `e` has read. -/
structure Behind (n : Nat) (is : List Instruction) (d e : Decoder) : Prop where
  stage : d.stage = e.stage
  offset : d.offset = n + e.offset
  program : ∃ js, e.program = .ofInstructions js ∧ d.program = .ofInstructions (is ++ js)

/-- Two operations lead to a decoder behind the other one, or to the same error further on. -/
inductive StepsBehind (n : Nat) (is : List Instruction) : Result Unit → Result Unit → Prop where
  | ok {d e : Decoder} (h : Behind n is d e) : StepsBehind n is (.ok () d) (.ok () e)
  | error {d e : Decoder} (err : Error) :
      StepsBehind n is (.error (err.behind n is.length) d) (.error err e)

theorem lastByte_of_step {split : Bool} {d d' : Decoder} {b : UInt8}
    (h : d.step split b = .ok () d') : d'.lastByte = some b := by
  have houtcome := step_outcome split d b
  rw [h] at houtcome
  cases houtcome <;> rfl

namespace Behind

variable {n : Nat} {is : List Instruction} {d e : Decoder} {split : Bool} {b : UInt8}

theorem size_eq (h : Behind n is d e) : d.program.size = is.length + e.program.size := by
  obtain ⟨js, he, hd⟩ := h.program
  rw [he, hd, Program.size_ofInstructions, Program.size_ofInstructions, List.length_append]

/-- The program that is there once both have read another instruction. -/
theorem program_append (h : Behind n is d e) (i : Instruction) :
    ∃ js, e.program.append i = .ofInstructions js ∧
      d.program.append i = .ofInstructions (is ++ js) := by
  obtain ⟨js, he, hd⟩ := h.program
  refine ⟨js ++ [i], ?_, ?_⟩
  · rw [he, Program.ofInstructions_concat]
  · rw [hd, ← List.append_assoc, Program.ofInstructions_concat]

/-- One byte, which both decoders take for the same blank. -/
theorem step (h : Behind n is d e)
    (hb : Blank.ofByte? split d.lastByte b = Blank.ofByte? split e.lastByte b) :
    StepsBehind n is (d.step split b) (e.step split b) := by
  have hoffset : d.offset + 1 = n + (e.offset + 1) := by have := h.offset; omega
  unfold Decoder.step
  rw [hb]
  cases Blank.ofByte? split e.lastByte b with
  | none => exact .ok ⟨h.stage, hoffset, h.program⟩
  | some c =>
    dsimp only
    rw [accept_eq, accept_eq, h.stage]
    cases e.stage.read c with
    | unfinished st => exact .ok ⟨rfl, hoffset, h.program⟩
    | complete i =>
      by_cases hi : i.Fits
      · obtain ⟨log, hd⟩ := d.exists_emit_eq_ok hi
        obtain ⟨log', he⟩ := e.exists_emit_eq_ok hi
        simp only [hd, he]
        exact .ok ⟨rfl, hoffset, h.program_append i⟩
      · simp only [emit_eq_error _ hi]
        exact .error (.tooLong .writing)
    | wrong cause st =>
      simp only [Decoder.fail, h.size_eq, h.offset]
      exact .error (.malformed cause e.offset e.program.size)

/-- A whole source. After its first byte both decoders have read the same byte last. -/
theorem feed {bytes : List UInt8} (h : Behind n is d e)
    (hfirst : ∀ b ∈ bytes.head?,
      Blank.ofByte? split d.lastByte b = Blank.ofByte? split e.lastByte b) :
    StepsBehind n is (d.feed split bytes) (e.feed split bytes) := by
  induction bytes generalizing d e with
  | nil => exact .ok h
  | cons b bytes ih =>
    have hstep := h.step (hfirst b rfl)
    unfold Decoder.feed
    generalize hd : d.step split b = r at hstep
    generalize he : e.step split b = r' at hstep
    cases hstep with
    | ok hnext =>
      apply ih hnext
      intro b' _
      rw [lastByte_of_step hd, lastByte_of_step he]
    | error err => exact .error err

theorem finish (h : Behind n is d e) :
    d.finish.toExcept =
      match e.finish.toExcept with
      | .ok q => .ok ((Program.ofInstructions is).join q)
      | .error err => .error (err.behind n is.length) := by
  unfold Decoder.finish Decoder.fail
  rw [h.stage, h.size_eq, h.offset]
  split
  · obtain ⟨js, he, hd⟩ := h.program
    simp only [Result.toExcept, he, hd, Program.ofInstructions_append]
  · rfl

end Behind

end Decoder

open Decoder

variable {split : Bool} {s₁ : List UInt8} {p₁ : Program} (s₂ : List UInt8)

/-- What is read behind a source that was decoded. -/
theorem decode_behind (h : decode split s₁ = .ok p₁)
    (hmeet : ¬ (split = false ∧ s₁.getLast? = some 13 ∧ s₂.head? = some 10)) :
    decode split (s₁ ++ s₂) =
      match decode split s₂ with
      | .ok p₂ => .ok (p₁.join p₂)
      | .error err => .error (err.behind s₁.length p₁.size) := by
  obtain ⟨d, hfeed, hstage, rfl⟩ := exists_feed_of_decode h
  obtain ⟨is, pending, haccount⟩ := account_of_feed hfeed
  have hstart : Behind s₁.length is d {} :=
    ⟨hstage, haccount.offset, [], rfl, by rw [haccount.program, List.append_nil]⟩
  have hsteps : StepsBehind s₁.length is (d.feed split s₂) (({} : Decoder).feed split s₂) := by
    apply hstart.feed
    intro b hb
    apply Blank.ofByte?_eq_of_not_pair
    rintro ⟨hsplit, hreturn, rfl⟩
    exact hmeet ⟨hsplit, haccount.lastByte ▸ hreturn, hb⟩
  rw [decode, decodeSource_eq, feed_append, hfeed, decode, decodeSource_eq, haccount.size_eq,
    haccount.program]
  dsimp only
  generalize d.feed split s₂ = r at hsteps
  generalize ({} : Decoder).feed split s₂ = r' at hsteps
  cases hsteps with
  | ok hnext => exact hnext.finish
  | error err => rfl

/-- Two sources that are decoded as one. If the first one holds a program, the second one is decoded
behind it: its instructions follow those of the first, its labels stand that much further on and
hide those of the first, and its errors keep their cause, counted from the beginning of the whole.
Only a return and a line feed must not meet, unless the two are split. -/
theorem decode_append (h : decode split s₁ = .ok p₁)
    (hmeet : ¬ (split = false ∧ s₁.getLast? = some 13 ∧ s₂.head? = some 10)) :
    (decode split (s₁ ++ s₂) =
      match decode split s₂ with
      | .ok p₂ => .ok (p₁.join p₂)
      | .error (.malformed cause offset index) =>
        .error (.malformed cause (s₁.length + offset) (p₁.size + index))
      | .error (.tooLong e) => .error (.tooLong e)) ∧
    ∀ p₂, decode split s₂ = .ok p₂ →
      (p₁.join p₂).instructions.toList = p₁.instructions.toList ++ p₂.instructions.toList ∧
      ∀ l, (p₁.join p₂).labels.get? l =
        ((p₂.labels.get? l).map (p₁.size + ·)).or (p₁.labels.get? l) := by
  constructor
  · rw [decode_behind s₂ h hmeet]
    rcases decode split s₂ with (⟨cause, offset, index⟩ | e) | p₂ <;> rfl
  · intro p₂ h₂
    obtain ⟨is, _, -, -, -, rfl⟩ := decode_eq_ok_iff.1 h₂
    exact ⟨Array.toList_append, p₁.get?_labels_join (Program.functional_labels is)⟩

/-- Both sources mark the label 3, the second one behind another mark and a comment. -/
theorem decode_append_remark :
    ∃ p, decode false ([10, 32, 32, 9, 13] ++ [97, 10, 32, 32, 32, 10, 10, 32, 32, 9, 10]) = .ok p ∧
      p.size = 3 ∧ p.labels.get? 3 = some 2 ∧ p.labels.get? 2 = some 1 := by
  have hfirst : decode false [10, 32, 32, 9, 13] = .ok (.ofInstructions [⟨.mark, some 3⟩]) := by
    decide +kernel
  have hsecond : decode false [97, 10, 32, 32, 32, 10, 10, 32, 32, 9, 10] =
      .ok (.ofInstructions [⟨.mark, some 2⟩, ⟨.mark, some 3⟩]) := by
    decide +kernel
  obtain ⟨hjoined, hread⟩ :=
    decode_append [97, 10, 32, 32, 32, 10, 10, 32, 32, 9, 10] hfirst (by decide)
  rw [hsecond] at hjoined
  refine ⟨_, hjoined, by decide, ?_, ?_⟩
  · rw [(hread _ hsecond).2]
    decide
  · rw [(hread _ hsecond).2]
    decide

end Whitespace
