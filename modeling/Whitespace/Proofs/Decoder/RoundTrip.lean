import Whitespace.Encoder
import Whitespace.Proofs.Bytes
import Whitespace.Proofs.Decimal
import Whitespace.Proofs.Decoder.Feeding

/-!
# Encoding and decoding

The blanks of a well-formed instruction are a word that spells it, so decoding gives back what was
encoded. The only obstacle is the log: an operand beyond the limit of decimal text cannot be logged,
and the first one stops the decoder.

## Main definitions

* `Instruction.word` — the blanks of an instruction that has its operand.

## Main statements

* `Instruction.spells_word` — the blanks of a well-formed instruction spell it.
* `Program.encode?_eq_some` — a program is encoded word by word.
* `decode_of_not_fits` — what becomes of an operand beyond the limit.
* `eq_ofInstructions_of_decode` — the only program that words can be decoded to.
* `decode_encode` — decoding after encoding.
-/

namespace Whitespace

theorem spells_number {op : Opcode} (hkind : op.operandKind = .number) (v : Int) :
    Spells ⟨op, some v⟩ (op.code ++ numberWord v) := by
  by_cases hv : 0 ≤ v
  · have h := Spells.number hkind .plus (Bits.ofNat v.natAbs)
    have hvalue : Sign.plus.factor * (v.natAbs : Int) = v := by
      rw [Sign.factor]
      omega
    rw [Bits.value_ofNat, hvalue] at h
    simpa [numberWord, hv, Sign.blank] using h
  · have h := Spells.number hkind .minus (Bits.ofNat v.natAbs)
    have hvalue : Sign.minus.factor * (v.natAbs : Int) = v := by
      rw [Sign.factor]
      omega
    rw [Bits.value_ofNat, hvalue] at h
    simpa [numberWord, hv, Sign.blank] using h

theorem spells_label {op : Opcode} (hkind : op.operandKind = .label) (bits : List Bool) :
    Spells ⟨op, some (Label.ofBits bits)⟩ (op.code ++ labelWord bits) := by
  rw [labelWord, ← List.append_assoc]
  exact Spells.label hkind bits

namespace Instruction

variable {i : Instruction} {is : List Instruction}

/-- The blanks of an instruction that has its operand. -/
def word (i : Instruction) : List Blank := i.encode?.getD []

/-- A well-formed instruction is encoded as a word that spells it. -/
theorem encode?_and_spells (h : i.WellFormed) : i.encode? = some i.word ∧ Spells i i.word := by
  obtain ⟨op, operand⟩ := i
  cases hkind : op.operandKind with
  | none =>
    cases operand with
    | none =>
      refine ⟨by simp [word, encode?, hkind], ?_⟩
      simpa [word, encode?, hkind] using Spells.plain hkind
    | some v => simp [WellFormed, hkind] at h
  | number =>
    cases operand with
    | none => simp [WellFormed, hkind] at h
    | some v =>
      refine ⟨by simp [word, encode?, hkind], ?_⟩
      simpa [word, encode?, hkind] using spells_number hkind v
  | label =>
    cases operand with
    | none => simp [WellFormed, hkind] at h
    | some l =>
      have hl : 1 ≤ l := by simpa [WellFormed, hkind] using h
      have hspells := spells_label hkind (Label.bits l)
      rw [Label.ofBits_bits hl] at hspells
      refine ⟨by simp [word, encode?, hkind], ?_⟩
      simpa [word, encode?, hkind] using hspells

theorem encode?_eq_some (h : i.WellFormed) : i.encode? = some i.word := (encode?_and_spells h).1

theorem spells_word (h : i.WellFormed) : Spells i i.word := (encode?_and_spells h).2

theorem forall₂_spells (h : ∀ i ∈ is, i.WellFormed) : List.Forall₂ Spells is (is.map word) := by
  induction is with
  | nil => exact .nil
  | cons i is ih =>
    obtain ⟨hi, his⟩ := List.forall_mem_cons.1 h
    exact .cons (spells_word hi) (ih his)

theorem operand_ne_none_of_mark (h : i.WellFormed) (hop : i.opcode = .mark) :
    i.operand ≠ none := by
  obtain ⟨op, operand⟩ := i
  rintro rfl
  subst hop
  exact h

theorem exists_first_long (h : ∃ i ∈ is, ¬ i.Fits) :
    ∃ before i after, is = before ++ i :: after ∧ (∀ j ∈ before, j.Fits) ∧ ¬ i.Fits := by
  induction is with
  | nil => simp at h
  | cons j is ih =>
    by_cases hj : j.Fits
    · obtain ⟨i, hi, hlong⟩ := h
      have hmem : i ∈ is := by
        rcases List.mem_cons.1 hi with rfl | hmem
        · exact absurd hj hlong
        · exact hmem
      obtain ⟨before, i, after, rfl, hbefore, hlong⟩ := ih ⟨i, hmem, hlong⟩
      exact ⟨j :: before, i, after, rfl, List.forall_mem_cons.2 ⟨hj, hbefore⟩, hlong⟩
    · exact ⟨[], j, is, rfl, by simp, hj⟩

end Instruction

namespace Program

variable {is : List Instruction}

theorem ofInstructions?_of_wellFormed (h : ∀ i ∈ is, i.WellFormed) :
    ofInstructions? is = some (ofInstructions is) :=
  ofInstructions?_eq_some fun i hi => Instruction.operand_ne_none_of_mark (h i hi)

/-- A program of well-formed instructions is encoded word by word. -/
theorem encode?_eq_some (h : ∀ i ∈ is, i.WellFormed) :
    (ofInstructions is).encode? = some (is.map Instruction.word).flatten := by
  have hwords : is.mapM Instruction.encode? = some (is.map Instruction.word) := by
    induction is with
    | nil => rfl
    | cons i is ih =>
      obtain ⟨hi, his⟩ := List.forall_mem_cons.1 h
      simp [Instruction.encode?_eq_some hi, ih his]
  rw [encode?, toList_ofInstructions, hwords, Option.map_some]

end Program

open Decoder

/-- An operand beyond the limit stops the decoder, and the source is not called malformed. -/
theorem decode_of_not_fits (split : Bool) {is : List Instruction} (hwf : ∀ i ∈ is, i.WellFormed)
    (hlong : ∃ i ∈ is, ¬ i.Fits) :
    decode split ((is.map Instruction.word).flatten.map Blank.byte) =
      .error (.tooLong .writing) := by
  obtain ⟨before, i, after, rfl, hbefore, hi⟩ := Instruction.exists_first_long hlong
  have hwfBefore : ∀ j ∈ before, j.WellFormed := fun j hj => hwf j (List.mem_append_left _ hj)
  obtain ⟨d, hdecode, -⟩ := decodeSource_long split (Instruction.forall₂_spells hwfBefore) hbefore
    (Instruction.spells_word (hwf i (by simp))) hi (after.map Instruction.word).flatten
  simp only [List.map_append, List.map_cons, List.flatten_append, List.flatten_cons] at hdecode ⊢
  rw [decode, hdecode]
  rfl

/-- Words that can be decoded are decoded to the instructions they spell. -/
theorem eq_ofInstructions_of_decode {split : Bool} {is : List Instruction} {p : Program}
    (hwf : ∀ i ∈ is, i.WellFormed)
    (h : decode split ((is.map Instruction.word).flatten.map Blank.byte) = .ok p) :
    p = .ofInstructions is := by
  by_cases hfits : ∀ i ∈ is, i.Fits
  · rw [decode_words split (Instruction.forall₂_spells hwf) hfits] at h
    cases h
    rfl
  · rw [decode_of_not_fits split hwf (by simpa using hfits)] at h
    cases h

/-- Decoding what was encoded gives the program back, with its label table, as long as every operand
is within the limit of decimal text. Otherwise the first operand beyond the limit stops the decoder
at the last blank of its instruction; the source is never called malformed. -/
theorem decode_encode (is : List Instruction) (hwf : ∀ i ∈ is, i.WellFormed) (split : Bool) :
    ∃ p row, Program.ofInstructions? is = some p ∧ p.instructions.toList = is ∧
      p.encode? = some row ∧
      ((∀ i ∈ is, i.Fits) → decode split (Text.bytes (Blank.text row)) = .ok p) ∧
      ((∃ i ∈ is, ¬ i.Fits) →
        decode split (Text.bytes (Blank.text row)) = .error (.tooLong .writing) ∧
        ∃ before i after done word d,
          is = before ++ i :: after ∧ (∀ j ∈ before, j.Fits) ∧ ¬ i.Fits ∧
          decodeSource split (Text.bytes (Blank.text row)) = .error (.tooLong .writing) d ∧
          Program.ofInstructions? before = some d.program ∧
          d.program.encode? = some done ∧ i.encode? = some word ∧
          d.offset + 1 = done.length + word.length) := by
  refine ⟨.ofInstructions is, _, Program.ofInstructions?_of_wellFormed hwf,
    Program.toList_ofInstructions is, Program.encode?_eq_some hwf, ?_, ?_⟩
  · intro hfits
    rw [Blank.bytes_text]
    exact decode_words split (Instruction.forall₂_spells hwf) hfits
  · intro hlong
    obtain ⟨before, i, after, rfl, hbefore, hi⟩ := Instruction.exists_first_long hlong
    have hwfBefore : ∀ j ∈ before, j.WellFormed := fun j hj => hwf j (List.mem_append_left _ hj)
    have hwfi : i.WellFormed := hwf i (by simp)
    obtain ⟨d, hdecode, hprogram, hoffset⟩ :=
      decodeSource_long split (Instruction.forall₂_spells hwfBefore) hbefore
        (Instruction.spells_word hwfi) hi (after.map Instruction.word).flatten
    have hsource : decodeSource split (Text.bytes (Blank.text
        ((before ++ i :: after).map Instruction.word).flatten)) = .error (.tooLong .writing) d := by
      rw [Blank.bytes_text, ← hdecode]
      simp
    refine ⟨?_, before, i, after, _, _, d, rfl, hbefore, hi, hsource, ?_, ?_,
      Instruction.encode?_eq_some hwfi, hoffset⟩
    · rw [decode, hsource]
      rfl
    · rw [hprogram, Program.ofInstructions?_of_wellFormed hwfBefore]
    · rw [hprogram, Program.encode?_eq_some hwfBefore]

/-- A jump to a label with a leading zero, and a negative number. -/
theorem decode_encode_jump :
    (∀ i ∈ [⟨.mark, some 5⟩, ⟨.push, some (-3)⟩, ⟨.jump, some 5⟩], Instruction.WellFormed i) ∧
    ∃ p row, Program.ofInstructions?
        [⟨.mark, some 5⟩, ⟨.push, some (-3)⟩, ⟨.jump, some 5⟩] = some p ∧
      p.encode? = some row ∧ decode false (Text.bytes (Blank.text row)) = .ok p := by
  have hwf : ∀ i ∈ [⟨.mark, some 5⟩, ⟨.push, some (-3)⟩, ⟨.jump, some 5⟩],
      Instruction.WellFormed i := by decide
  have hfits : ∀ i ∈ [⟨.mark, some 5⟩, ⟨.push, some (-3)⟩, ⟨.jump, some 5⟩],
      Instruction.Fits i := by
    simp only [List.forall_mem_cons, Instruction.Fits, Option.some.injEq, forall_eq']
    exact ⟨Decimal.fits_of_lt_pow (n := 1) (by decide) (by decide),
      Decimal.fits_of_lt_pow (n := 1) (by decide) (by decide),
      Decimal.fits_of_lt_pow (n := 1) (by decide) (by decide), by simp⟩
  obtain ⟨p, row, hp, -, hrow, hdecode, -⟩ := decode_encode _ hwf false
  exact ⟨hwf, p, row, hp, hrow, hdecode hfits⟩

end Whitespace
