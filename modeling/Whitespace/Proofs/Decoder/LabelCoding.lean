import Whitespace.Encoder
import Whitespace.Proofs.Bytes
import Whitespace.Proofs.Decoder.Session

/-!
# Three codings of labels

The digits of a label become its number in three ways: the text of the digits is read as a binary
literal behind a one, the number is written in binary and the leading one is cut off, and the
decoder doubles a one digit by digit. The three agree for digits of every length, leading zeros and
no digits at all included.

The decoder has one reservation, which is not about labels: a line feed right behind a carriage
return belongs to the return, and so it does not end a label that has no digits.

## Main statements

* `Text.readBinary?_digits` — a row of digits is a binary literal.
* `Label.read?_text` — the text of a row of digits is read as the label of the row.
* `Decoder.feed_labelText` — so is the row itself, by a decoder that is about to read a label.
* `label_codings_agree` — the three codings side by side.
-/

namespace Whitespace

/-! ## Digits as text -/

namespace Text

/-- The character of a binary digit. -/
def digitChar (b : Bool) : Char := if b then '1' else '0'

theorem digitValue?_digitChar (b : Bool) : digitValue? (digitChar b) = some b.toNat := by
  cases b <;> decide

theorem isLiteralSpace_digitChar (b : Bool) : isLiteralSpace (digitChar b) = false := by
  cases b <;> decide

theorem digitChar_ne (b : Bool) {c : Char} (hzero : c ≠ '0') (hone : c ≠ '1') :
    digitChar b ≠ c := by
  cases b
  · exact Ne.symm hzero
  · exact Ne.symm hone

theorem trimLiteral_digits (row : List Bool) :
    trimLiteral (row.map digitChar) = row.map digitChar := by
  have hdrop (row : List Bool) :
      (row.map digitChar).dropWhile isLiteralSpace = row.map digitChar := by
    cases row with
    | nil => rfl
    | cons b row => rw [List.map_cons, List.dropWhile_cons, isLiteralSpace_digitChar]; rfl
  rw [trimLiteral, hdrop, ← List.map_reverse, hdrop, List.map_reverse, List.reverse_reverse]

theorem splitSign_digits (row : List Bool) :
    splitSign (row.map digitChar) = (false, row.map digitChar) := by
  rcases row with _ | ⟨_ | _, row⟩ <;> rfl

theorem dropBinaryMark_digits (row : List Bool) :
    dropBinaryMark (row.map digitChar) = row.map digitChar := by
  rcases row with _ | ⟨a, _ | ⟨b, row⟩⟩
  · rfl
  · rfl
  · have hb : digitChar b ≠ 'b' ∧ digitChar b ≠ 'B' :=
      ⟨digitChar_ne b (by decide) (by decide), digitChar_ne b (by decide) (by decide)⟩
    simp [dropBinaryMark, hb]

theorem digitRow?_digits {row : List Bool} (h : row ≠ []) :
    digitRow? 2 (row.map digitChar) = some (row.map Bool.toNat) := by
  have hbit (b : Bool) : b.toNat < 2 := by cases b <;> decide
  induction row with
  | nil => exact absurd rfl h
  | cons a row ih =>
    cases row with
    | nil =>
      simp only [List.map_cons, List.map_nil, digitRow?, digitValue?_digitChar, Option.bind_eq_bind,
        Option.bind_some, hbit, if_true]
    | cons b row =>
      have hmark : digitChar b ≠ '_' := digitChar_ne b (by decide) (by decide)
      have hrest := ih (List.cons_ne_nil b row)
      simp only [List.map_cons] at hrest ⊢
      rw [digitRow?]
      · simp only [digitValue?_digitChar, Option.bind_eq_bind, Option.bind_some, hbit, if_true,
          hrest, Option.map_some]
      · exact List.cons_ne_nil _ _
      · intro rest heq
        exact hmark (List.cons.inj heq).1

/-- A row of digits is a binary literal for the number that the row denotes. -/
theorem readBinary?_digits {row : List Bool} (h : row ≠ []) :
    readBinary? (row.map digitChar) = some (Bits.value row : Int) := by
  rw [readBinary?, trimLiteral_digits, splitSign_digits]
  simp only [dropBinaryMark_digits, digitRow?_digits h, Option.map_some, ofDigits]
  simp [Bits.value, Bits.valueFrom, List.foldl_map]

end Text

/-- The text of a row of digits is read as the label of the row. -/
theorem Label.read?_text (row : List Bool) :
    read? (Bits.text row).toList = some (ofBits row : Int) := by
  have htext : (Bits.text row).toList = row.map Text.digitChar := Bits.toList_text row
  rw [htext]
  cases row with
  | nil => decide
  | cons b row =>
    have hread := Text.readBinary?_digits (List.cons_ne_nil b row)
    have hpos : ¬ ((Bits.value (b :: row) : Nat) : Int) < 0 := by omega
    rw [read?, if_neg (by simp), hread]
    simp only [if_neg hpos, ofBits, Bits.valueFrom_eq 1, List.length_map, Nat.one_mul]
    rfl

theorem labelText_text (row : List Bool) :
    labelText (Bits.text row) = Blank.text (labelWord row) := by
  have hchar (b : Bool) :
      (if Text.digitChar b = '0' then ' ' else if Text.digitChar b = '1' then '\t' else
        Text.digitChar b) = (Blank.ofBit b).char := by
    cases b <;> decide
  rw [labelText, Bits.toList_text, labelWord, Blank.text_append, Blank.text, List.map_map,
    List.map_map]
  congr 2
  exact List.map_congr_left fun b _ => hchar b

namespace Decoder

variable {d : Decoder} {op : Opcode}

/-- The line feed of a carriage return is passed over. -/
theorem feed_of_return (h : d.lastByte = some 13) :
    d.feed false [10] = .ok () { d with offset := d.offset + 1, lastByte := some 10 } := by
  simp [feed, step, Blank.ofByte?, h]

/-- The first blank of a label counts, unless it is the line feed of a carriage return. -/
theorem ofByte?_head_labelWord {split : Bool} {row : List Bool} {previous : Option UInt8}
    (h : ¬ (row = [] ∧ previous = some 13 ∧ split = false)) :
    ∀ c ∈ (labelWord row).head?, Blank.ofByte? split previous c.byte = some c := by
  intro c hc
  cases row with
  | nil =>
    cases hc
    cases split with
    | true => exact Blank.ofByte?_byte_of_split previous .feed
    | false =>
      refine Blank.ofByte?_byte false (fun hprevious => h ⟨rfl, hprevious, rfl⟩) .feed
  | cons b row =>
    cases hc
    cases b <;> rfl

/-- A decoder that is about to read a label adds the instruction with the label of the row. -/
theorem feed_labelText (hd : d.stage = .label op 1) {split : Bool} {row : List Bool}
    (hfits : Decimal.Fits (Label.ofBits row))
    (hlast : ¬ (row = [] ∧ d.lastByte = some 13 ∧ split = false)) :
    ∃ d', d.feed split (Text.bytes (labelText (Bits.text row))) = .ok () d' ∧ d'.stage = .start ∧
      d'.program = d.program.append ⟨op, some (Label.ofBits row)⟩ := by
  have hcomplete : d.stage.complete? (labelWord row) = some ⟨op, some (Label.ofBits row)⟩ := by
    rw [hd]
    exact Stage.complete?_label.2 ⟨row, rfl, rfl⟩
  have hi : Instruction.Fits ⟨op, some (Label.ofBits row)⟩ := by
    rintro v ⟨⟩
    exact hfits
  obtain ⟨e, c, hprogram, -, hfeed⟩ :=
    feed_complete split (ofByte?_head_labelWord hlast) hcomplete
  obtain ⟨log, hemit⟩ := e.exists_emit_eq_ok hi
  rw [hemit] at hfeed
  rw [labelText_text, Blank.bytes_text]
  exact ⟨_, hfeed, rfl, by rw [hprogram]⟩

end Decoder

/-- The three codings of labels agree. For every row of binary digits there is a number from one on
that the text of the row is read as. Its digits are the row, and a decoder that is about to read a
label, fed the row, adds the instruction with that number, if it is within the limit of decimal
text. Only if the row is empty and the byte before was a carriage return that takes its line feed
along, the decoder passes the line feed over.

Conversely every number from one on is read from its digits, so it is the label of exactly one row,
and rows that are read as the same label are the same. -/
theorem label_codings_agree :
    (∀ row : List Bool, ∃ l : Int, 1 ≤ l ∧ Label.read? (Bits.text row).toList = some l ∧
      Label.bits l = row ∧
      ∀ (split : Bool) (d : Decoder) (op : Opcode), d.stage = .label op 1 → Decimal.Fits l →
        if row = [] ∧ d.lastByte = some 13 ∧ split = false then
          d.feed split (Text.bytes (labelText (Bits.text row))) =
            .ok () { d with offset := d.offset + 1, lastByte := some 10 }
        else
          ∃ d', d.feed split (Text.bytes (labelText (Bits.text row))) = .ok () d' ∧
            d'.stage = .start ∧ d'.program = d.program.append ⟨op, some l⟩) ∧
    (∀ l : Int, 1 ≤ l → Label.read? (Bits.text (Label.bits l)).toList = some l) ∧
    (∀ l : Int, 1 ≤ l → ∃! row : List Bool, Label.read? (Bits.text row).toList = some l) ∧
    ∀ row row' : List Bool,
      Label.read? (Bits.text row).toList = Label.read? (Bits.text row').toList → row = row' := by
  have hback (l : Int) (hl : 1 ≤ l) : Label.read? (Bits.text (Label.bits l)).toList = some l := by
    rw [Label.read?_text, Label.ofBits_bits hl]
  have hinjective (row row' : List Bool)
      (h : Label.read? (Bits.text row).toList = Label.read? (Bits.text row').toList) :
      row = row' := by
    rw [Label.read?_text, Label.read?_text, Option.some.injEq] at h
    rw [← Label.bits_ofBits row, h, Label.bits_ofBits]
  refine ⟨fun row => ?_, hback, fun l hl => ?_, hinjective⟩
  · have hpos : (1 : Int) ≤ Label.ofBits row := by
      exact_mod_cast Label.one_le_ofBits row
    refine ⟨Label.ofBits row, hpos, Label.read?_text row, Label.bits_ofBits row, ?_⟩
    intro split d op hd hfits
    split
    · next hlast =>
      obtain ⟨rfl, hprevious, rfl⟩ := hlast
      rw [labelText_text, Blank.bytes_text]
      exact Decoder.feed_of_return hprevious
    · next hlast => exact Decoder.feed_labelText hd hfits hlast
  · exact ⟨Label.bits l, hback l hl, fun row hrow =>
      hinjective row _ (hrow.trans (hback l hl).symm)⟩

/-- A jump whose label has a leading zero, spelled with a carriage return in its code: the digits
are read although the return comes right before them. -/
theorem label_codings_agree_zero :
    Label.read? "01".toList = some 5 ∧ Label.bits 5 = [false, true] ∧
      ∃ d d' : Decoder, ({} : Decoder).feed false [10, 32, 13] = .ok () d ∧
        d.feed false (Text.bytes (labelText "01")) = .ok () d' ∧
        d'.program.instructions = #[⟨.jump, some 5⟩] := by
  obtain ⟨l, -, hread, hbits, hfeed⟩ := label_codings_agree.1 [false, true]
  have hl : l = 5 := by
    have hfive : Label.read? (Bits.text [false, true]).toList = some 5 := by decide
    exact Option.some.inj (hread.symm.trans hfive)
  subst hl
  have hfits : Decimal.Fits 5 := Decimal.fits_of_lt_pow (n := 1) (by decide) (by decide)
  let d : Decoder := { stage := .label .jump 1, offset := 3, lastByte := some 13 }
  obtain ⟨d', hd', -, hprogram⟩ := hfeed false d .jump rfl hfits
  exact ⟨hread, hbits, d, d', rfl, hd', congrArg Program.instructions hprogram⟩

/-- A label without digits is not read behind a carriage return, when its line feed belongs to the
return: a decoder can be about to read a label and pass it over. -/
theorem label_passed_over :
    ¬ ∀ (split : Bool) (calls : List Decoder.Call) (op : Opcode) (row : List Bool) (l : Int),
      (({} : Decoder).session split calls).stage = .label op 1 →
      Label.read? (Bits.text row).toList = some l → Decimal.Fits l →
      ∃ d', (({} : Decoder).session split calls).feed split
          (Text.bytes (labelText (Bits.text row))) = .ok () d' ∧
        d'.program = (({} : Decoder).session split calls).program.append ⟨op, some l⟩ := by
  intro h
  have hfits : Decimal.Fits 1 := Decimal.fits_of_lt_pow (n := 1) (by decide) (by decide)
  obtain ⟨d', hd', hprogram⟩ := h false [.feed [10, 32, 13]] .jump [] 1 rfl (by decide) hfits
  have hpassed := Decoder.feed_of_return
    (d := ({} : Decoder).session false [.feed [10, 32, 13]]) rfl
  rw [labelText_text, Blank.bytes_text] at hd'
  cases hpassed.symm.trans hd'
  exact absurd (congrArg Program.size hprogram) (by decide)

end Whitespace
