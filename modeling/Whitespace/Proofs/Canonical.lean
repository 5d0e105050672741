import Whitespace.Proofs.Assembly.Resolution
import Whitespace.Proofs.Decoder.Account
import Whitespace.Proofs.Decoder.Grammar

/-!
# The canonical form of a source

Decoding a source and encoding the program again gives the source back, but for what decoding does
not look at. Comments are gone and lines end in line feeds; codes and labels are spelled as before,
because every digit of a label counts; and a number is spelled without leading zeros, with one digit
if it is zero, which has no minus sign. A source that was encoded or assembled is canonical.

## Main definitions

* `canonicalize?` — the source of the program that a source holds.
* `Bits.trim` — a numeral without its leading zeros.
* `Respelled` — a word and its canonical spelling.

## Main statements

* `Bits.ofNat_value` — the numeral of a value is what was read, without leading zeros.
* `Spells.respelled` — the encoding of an instruction is the canonical spelling of its words.
* `canonicalize_respells` — what decoding and encoding keep of a source.
-/

namespace Whitespace

/-- Decode a source and encode the program that it holds. -/
def canonicalize? (split : Bool) (source : List UInt8) : Option String :=
  match decode split source with
  | .ok p => p.encode?.map Blank.text
  | .error _ => none

/-- The numeral without its leading zeros; of a zero one digit is left. -/
def Bits.trim (bits : List Bool) : List Bool :=
  match bits.dropWhile (! ·) with
  | [] => [false]
  | digits => digits

theorem Bits.ofNat_value (bits : List Bool) : ofNat (value bits) = trim bits := by
  induction bits with
  | nil => rfl
  | cons b bits ih =>
    cases b with
    | false => exact ih
    | true => exact ofNat_valueFrom bits

/-- The second word is the canonical spelling of the first: all of it is kept but the sign and the
leading zeros of a number. -/
inductive Respelled : List Blank → List Blank → Prop where
  | plain {op : Opcode} (h : op.operandKind = .none) : Respelled op.code op.code
  | number {op : Opcode} (h : op.operandKind = .number) (sign : Sign) (bits : List Bool) :
      Respelled (op.code ++ sign.blank :: bits.map Blank.ofBit ++ [.feed])
        (op.code ++ (if Bits.value bits = 0 then .space else sign.blank) ::
          (Bits.trim bits).map Blank.ofBit ++ [.feed])
  | label {op : Opcode} (h : op.operandKind = .label) (bits : List Bool) :
      Respelled (op.code ++ bits.map Blank.ofBit ++ [.feed])
        (op.code ++ bits.map Blank.ofBit ++ [.feed])

namespace Spells

variable {i : Instruction} {w : List Blank}

theorem wellFormed (h : Spells i w) : i.WellFormed := by
  cases h with
  | plain hkind => simp [Instruction.WellFormed, hkind]
  | number hkind sign bits => simp [Instruction.WellFormed, hkind]
  | label hkind bits =>
    have hone : (1 : Int) ≤ (Bits.value (true :: bits) : Nat) := by
      exact_mod_cast Label.one_le_ofBits bits
    simpa [Instruction.WellFormed, hkind] using hone

/-- The sign of a number that was read is written again, unless the number is zero. -/
theorem numberWord_factor_mul (sign : Sign) (bits : List Bool) :
    numberWord (sign.factor * Bits.value bits) =
      (if Bits.value bits = 0 then .space else sign.blank) ::
        (Bits.trim bits).map Blank.ofBit ++ [.feed] := by
  have hsign : (if 0 ≤ sign.factor * (Bits.value bits : Int) then Blank.space else .tab) =
      if Bits.value bits = 0 then .space else sign.blank := by
    cases sign with
    | plus => simp [Sign.factor, Sign.blank]
    | minus =>
      have hneg : 0 ≤ Sign.minus.factor * (Bits.value bits : Int) ↔ Bits.value bits = 0 := by
        simp only [Sign.factor]
        omega
      simp only [hneg, Sign.blank]
  have hvalue : (sign.factor * (Bits.value bits : Int)).natAbs = Bits.value bits := by
    cases sign <;> simp [Sign.factor]
  rw [numberWord, hsign, hvalue, Bits.ofNat_value]

/-- An instruction is encoded as the canonical spelling of every word that spells it. -/
theorem respelled (h : Spells i w) : Respelled w i.word := by
  cases h with
  | plain hkind => simpa [Instruction.word, Instruction.encode?, hkind] using Respelled.plain hkind
  | number hkind sign bits =>
    simpa [Instruction.word, Instruction.encode?, hkind, numberWord_factor_mul] using
      Respelled.number hkind sign bits
  | label hkind bits =>
    have hbits : Label.bits (Bits.value (true :: bits) : Nat) = bits := Label.bits_ofBits bits
    simpa [Instruction.word, Instruction.encode?, hkind, labelWord, hbits] using
      Respelled.label hkind bits

theorem forall₂_respelled {is : List Instruction} {ws : List (List Blank)}
    (h : List.Forall₂ Spells is ws) : List.Forall₂ Respelled ws (is.map Instruction.word) := by
  induction h with
  | nil => exact .nil
  | cons hw _ ih => exact .cons hw.respelled ih

theorem forall_wellFormed {is : List Instruction} {ws : List (List Blank)}
    (h : List.Forall₂ Spells is ws) : ∀ i ∈ is, i.WellFormed := by
  induction h with
  | nil => simp
  | cons hw _ ih => exact List.forall_mem_cons.2 ⟨hw.wellFormed, ih⟩

theorem segments {is : List Instruction} {ws : List (List Blank)}
    (h : List.Forall₂ Spells is ws) : Segments ws ws.flatten := by
  refine ⟨?_, rfl⟩
  induction h with
  | nil => simp
  | cons hw _ ih => exact List.forall_mem_cons.2 ⟨⟨_, hw⟩, ih⟩

end Spells

/-- Encoded instructions that can be decoded are canonical. -/
theorem canonicalize?_words {split : Bool} {is : List Instruction} {p : Program}
    (hwf : ∀ i ∈ is, i.WellFormed)
    (h : decode split (Text.bytes (Blank.text (is.map Instruction.word).flatten)) = .ok p) :
    canonicalize? split (Text.bytes (Blank.text (is.map Instruction.word).flatten)) =
      some (Blank.text (is.map Instruction.word).flatten) := by
  have hp : p = .ofInstructions is := by
    rw [Blank.bytes_text] at h
    exact eq_ofInstructions_of_decode hwf h
  simp only [canonicalize?, h, hp, Program.encode?_eq_some hwf, Option.map_some]

/-- What a text is assembled to is the encoding of well-formed instructions. -/
theorem Assembly.exists_words_of_assemble {text : List Char} {s : String}
    (h : assemble false text = .ok s) :
    ∃ is : List Instruction, (∀ i ∈ is, i.WellFormed) ∧
      s = Blank.text (is.map Instruction.word).flatten := by
  obtain ⟨d, hdraft, hdefined⟩ := draft_of_assemble h
  obtain ⟨cs, hd, hwf⟩ := draft_eq_ok hdraft
  obtain ⟨log, hsource⟩ := hd.source_eq hwf hdefined
  rw [assemble_eq false hdraft, hsource] at h
  cases h
  exact ⟨_, List.forall_mem_map.2 fun c hc =>
    Command.instruction_wellFormed (hwf c hc) d.one_le_label, rfl⟩

/-- Decoding and encoding gives the canonical form of a source. The significant text of a source
that can be decoded is cut into words in one way, which spell the instructions of the program, and
encoding the program replaces each word by its canonical spelling. So doing it once more, with
either treatment of returns, changes nothing, and neither does doing it to a source that was
assembled from a text, if that can be decoded. -/
theorem canonicalize_respells (split : Bool) :
    (∀ source p, decode split source = .ok p →
      ∃ ws vs, normalize split source = Text.bytes (Blank.text ws.flatten) ∧
        List.Forall₂ Spells p.instructions.toList ws ∧
        (∀ us, Segments us ws.flatten → us = ws) ∧
        List.Forall₂ Respelled ws vs ∧
        canonicalize? split source = some (Blank.text vs.flatten)) ∧
    (∀ source s, canonicalize? split source = some s →
      ∀ split', canonicalize? split' (Text.bytes s) = some s) ∧
    ∀ text s p, Assembly.assemble false text = .ok s → decode split (Text.bytes s) = .ok p →
      canonicalize? split (Text.bytes s) = some s := by
  refine ⟨fun source p h => ?_, fun source s h split' => ?_, fun text s p hs h => ?_⟩
  · obtain ⟨is, ws, hws, hblanks, -, rfl⟩ := decode_eq_ok_iff.1 h
    refine ⟨ws, is.map Instruction.word, ?_, ?_, fun us hus => hus.unique (Spells.segments hws),
      Spells.forall₂_respelled hws, ?_⟩
    · rw [normalize_eq, hblanks, Blank.bytes_text]
    · rwa [Program.toList_ofInstructions]
    · simp only [canonicalize?, h, Program.encode?_eq_some (Spells.forall_wellFormed hws),
        Option.map_some]
  · unfold canonicalize? at h
    split at h
    · next p hp =>
      obtain ⟨is, ws, hws, -, hfits, rfl⟩ := decode_eq_ok_iff.1 hp
      have hwf := Spells.forall_wellFormed hws
      rw [Program.encode?_eq_some hwf] at h
      cases h
      refine canonicalize?_words hwf (p := .ofInstructions is) ?_
      rw [Blank.bytes_text]
      exact decode_words split' (Instruction.forall₂_spells hwf) hfits
    · cases h
  · obtain ⟨is, hwf, rfl⟩ := Assembly.exists_words_of_assemble hs
    exact canonicalize?_words hwf h

/-- Minus zero with two digits and a return, and a label with a leading zero. -/
theorem canonicalize_respells_minus :
    canonicalize? false [32, 32, 9, 32, 32, 13, 10, 10, 32, 32, 32, 9, 10] =
      some "    \n\n   \t\n" ∧
    canonicalize? true (Text.bytes "    \n\n   \t\n") = some "    \n\n   \t\n" := by
  have hfirst : canonicalize? false [32, 32, 9, 32, 32, 13, 10, 10, 32, 32, 32, 9, 10] =
      some "    \n\n   \t\n" := by decide +kernel
  exact ⟨hfirst, (canonicalize_respells false).2.1 _ _ hfirst true⟩

end Whitespace
