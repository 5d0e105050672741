import Whitespace.Proofs.Bytes
import Whitespace.Proofs.Decimal
import Whitespace.Proofs.Decoder.Feeding

/-!
# The grammar that the decoder accepts

A source of blanks is decoded exactly when it is a concatenation of words. There is only one way to
cut it into words, and the instructions are those that the words spell.

## Main definitions

* `Segments` — a row of blanks cut into words.
* `OperandsFit` — the operands of the words at the start of a row are within the limit.

## Main statements

* `Segments.unique` — a row can be cut in one way at most.
* `decode_eq_ok_iff_segments` — the rows that are decoded, and to what.
-/

namespace Whitespace

/-- The words `ws` one after the other are the row. -/
def Segments (ws : List (List Blank)) (row : List Blank) : Prop :=
  (∀ w ∈ ws, ∃ i, Spells i w) ∧ ws.flatten = row

/-- No operand of the words that the row starts with is beyond the limit of decimal text. -/
def OperandsFit (row : List Blank) : Prop :=
  ∀ is ws rest, List.Forall₂ Spells is ws → row = ws.flatten ++ rest → ∀ i ∈ is, i.Fits

namespace Segments

variable {vs ws : List (List Blank)} {row : List Blank}

theorem exists_spells (h : Segments ws row) : ∃ is, List.Forall₂ Spells is ws := by
  obtain ⟨hws, -⟩ := h
  induction ws with
  | nil => exact ⟨[], .nil⟩
  | cons w ws ih =>
    obtain ⟨i, hi⟩ := hws w List.mem_cons_self
    obtain ⟨is, his⟩ := ih fun v hv => hws v (List.mem_cons_of_mem w hv)
    exact ⟨i :: is, .cons hi his⟩

/-- A row can be cut into words in one way at most. -/
theorem unique (hv : Segments vs row) (hw : Segments ws row) : vs = ws := by
  induction vs generalizing ws row with
  | nil =>
    cases ws with
    | nil => rfl
    | cons w ws =>
      obtain ⟨i, hi⟩ := hw.1 w List.mem_cons_self
      have hrow : w ++ ws.flatten = [] := hw.2.trans hv.2.symm
      exact absurd (List.append_eq_nil_iff.1 hrow).1 hi.ne_nil
  | cons v vs ih =>
    obtain ⟨i, hi⟩ := hv.1 v List.mem_cons_self
    cases ws with
    | nil =>
      have hrow : v ++ vs.flatten = [] := hv.2.trans hw.2.symm
      exact absurd (List.append_eq_nil_iff.1 hrow).1 hi.ne_nil
    | cons w ws =>
      obtain ⟨j, hj⟩ := hw.1 w List.mem_cons_self
      have hrow : v ++ vs.flatten = w ++ ws.flatten := hv.2.trans hw.2.symm
      have hhead : v = w := hi.prefix_free hj hrow
      subst hhead
      have htail : ws.flatten = vs.flatten := (List.append_cancel_left hrow).symm
      have hvs : Segments vs vs.flatten := ⟨fun u hu => hv.1 u (List.mem_cons_of_mem v hu), rfl⟩
      have hws : Segments ws vs.flatten := ⟨fun u hu => hw.1 u (List.mem_cons_of_mem v hu), htail⟩
      rw [ih hvs hws]

end Segments

theorem OperandsFit.of_append {w rest : List Blank} {i : Instruction} (h : OperandsFit (w ++ rest))
    (hw : Spells i w) : i.Fits ∧ OperandsFit rest := by
  constructor
  · exact h [i] [w] rest (.cons hw .nil) (by simp) i List.mem_cons_self
  · intro is ws tail his hrest j hj
    have hrow : w ++ rest = (w :: ws).flatten ++ tail := by simp [hrest]
    exact h (i :: is) (w :: ws) tail (.cons hw his) hrow j (List.mem_cons_of_mem i hj)

theorem Spells.natAbs_lt {i : Instruction} {w : List Blank} (h : Spells i w) {v : Int}
    (hv : i.operand = some v) : v.natAbs < 2 ^ w.length := by
  cases h with
  | plain hkind => cases hv
  | @number op hkind sign bits =>
    have hlt := Bits.value_lt bits
    have hpow : 2 ^ bits.length ≤ 2 ^ (op.code ++ sign.blank :: bits.map Blank.ofBit ++
        [Blank.feed]).length := Nat.pow_le_pow_right (by omega) (by simp; omega)
    cases hv
    rw [Int.natAbs_mul, Int.natAbs_natCast]
    cases sign <;> simp only [Sign.factor, Int.natAbs_neg, Int.natAbs_one] <;> omega
  | @label op hkind bits =>
    have hlt := Bits.value_lt (true :: bits)
    have hpow : 2 ^ (true :: bits).length ≤ 2 ^ (op.code ++ bits.map Blank.ofBit ++
        [Blank.feed]).length := Nat.pow_le_pow_right (by omega) (by simp)
    cases hv
    rw [Int.natAbs_natCast]
    omega

/-- Only a long source has an operand beyond the limit. -/
theorem OperandsFit.of_length_le {row : List Blank} (h : row.length ≤ Decimal.limit) :
    OperandsFit row := by
  rintro is ws rest his rfl i hi v hv
  obtain ⟨w, hw, hspells⟩ : ∃ w ∈ ws, Spells i w := by
    clear h
    induction his with
    | nil => cases hi
    | cons hspells _ ih =>
      rcases List.mem_cons.1 hi with rfl | hi
      · exact ⟨_, List.mem_cons_self, hspells⟩
      · obtain ⟨w, hw, hspells⟩ := ih hi
        exact ⟨w, List.mem_cons_of_mem _ hw, hspells⟩
  have hlen : w.length ≤ ws.flatten.length := (List.sublist_flatten_of_mem hw).length_le
  rw [List.length_append] at h
  have hlt : v.natAbs < 10 ^ w.length :=
    Nat.lt_of_lt_of_le (hspells.natAbs_lt hv) (Nat.pow_le_pow_left (by omega) _)
  exact Decimal.fits_of_lt_pow hlt (by omega)

namespace Decoder

/-- From between two instructions, a row that cannot be cut into words fails as malformed or ends
inside an instruction. The words it does start with are read first. -/
theorem Ready.feed_not_segments (split : Bool) {d : Decoder} {n : Nat} {done : List Instruction}
    (hd : d.Ready n done) {row : List Blank} (hfits : OperandsFit row)
    (h : ¬ ∃ ws, Segments ws row) :
    (∃ cause offset index e,
      d.feed split (row.map Blank.byte) = .error (.malformed cause offset index) e) ∨
    ∃ e, d.feed split (row.map Blank.byte) = .ok () e ∧ e.stage ≠ .start := by
  induction hlen : row.length using Nat.strongRecOn generalizing d n done row with
  | ind len ih =>
    by_cases hword : ∃ i w rest, Spells i w ∧ row = w ++ rest
    · obtain ⟨i, w, rest, hw, rfl⟩ := hword
      obtain ⟨hi, hrest⟩ := hfits.of_append hw
      have hnot : ¬ ∃ ws, Segments ws rest := by
        rintro ⟨ws, hws, rfl⟩
        exact h ⟨w :: ws, List.forall_mem_cons.2 ⟨⟨i, hw⟩, hws⟩, rfl⟩
      obtain ⟨e, hfeed, he⟩ := hd.feed_word split hw hi
      have hshort : rest.length < len := by
        have := List.length_pos_iff.2 hw.ne_nil
        rw [← hlen, List.length_append]
        omega
      rw [List.map_append, feed_append, hfeed]
      exact ih _ hshort he hrest hnot rfl
    · refine feed_stuck split hd.lastByte ?_ (.inl ?_)
      · rintro w ⟨rest, hrow⟩
        rw [hd.stage, ← Option.not_isSome_iff_eq_none, Option.isSome_iff_exists]
        rintro ⟨i, hi⟩
        exact hword ⟨i, w, rest, Stage.complete?_start_iff.1 hi, hrow.symm⟩
      · rintro rfl
        exact h ⟨[], by simp [Segments]⟩

end Decoder

open Decoder

theorem decode_not_segments (split : Bool) {row : List Blank} (hfits : OperandsFit row)
    (h : ¬ ∃ ws, Segments ws row) :
    ∃ cause offset index,
      decode split (row.map Blank.byte) = .error (.malformed cause offset index) := by
  rcases ready_initial.feed_not_segments split hfits h with ⟨cause, n, k, e, hfeed⟩ | ⟨e, hfeed, he⟩
  · refine ⟨cause, n, k, ?_⟩
    rw [decode, decodeSource_eq, hfeed]
    rfl
  · refine ⟨.cutOff e.stage, e.offset, e.program.size, ?_⟩
    rw [decode, decodeSource_eq, hfeed]
    simp only [finish, if_neg he]
    rfl

/-- The decoder accepts exactly its grammar: a source of blanks with operands within the limit is
decoded exactly when it can be cut into words, it can then be cut in one way only, and the
instructions are those that the words spell; any other source is malformed. -/
theorem decode_eq_ok_iff_segments (split : Bool) (row : List Blank) (hfits : OperandsFit row) :
    ((∃ p, decode split (Text.bytes (Blank.text row)) = .ok p) ↔ ∃ ws, Segments ws row) ∧
    (∀ vs ws, Segments vs row → Segments ws row → vs = ws) ∧
    (∀ p ws, decode split (Text.bytes (Blank.text row)) = .ok p → Segments ws row →
      List.Forall₂ Spells p.instructions.toList ws) ∧
    ((¬ ∃ ws, Segments ws row) → ∃ cause offset index,
      decode split (Text.bytes (Blank.text row)) = .error (.malformed cause offset index)) := by
  rw [Blank.bytes_text]
  have hok : ∀ ws, Segments ws row → ∃ is, List.Forall₂ Spells is ws ∧
      decode split (row.map Blank.byte) = .ok (.ofInstructions is) := by
    intro ws hws
    obtain ⟨is, his⟩ := hws.exists_spells
    have hrow : row = ws.flatten ++ [] := by rw [hws.2, List.append_nil]
    refine ⟨is, his, ?_⟩
    rw [← hws.2]
    exact decode_words split his (hfits is ws [] his hrow)
  refine ⟨⟨?_, ?_⟩, fun vs ws => Segments.unique, ?_, decode_not_segments split hfits⟩
  · rintro ⟨p, hp⟩
    by_contra hnot
    obtain ⟨cause, n, k, herror⟩ := decode_not_segments split hfits hnot
    rw [herror] at hp
    cases hp
  · rintro ⟨ws, hws⟩
    obtain ⟨is, -, hdecode⟩ := hok ws hws
    exact ⟨_, hdecode⟩
  · intro p ws hp hws
    obtain ⟨is, his, hdecode⟩ := hok ws hws
    rw [hdecode] at hp
    cases hp
    rwa [Program.toList_ofInstructions]

/-- A push of minus two, spelled with a leading zero. -/
theorem decode_eq_ok_iff_segments_push :
    OperandsFit [.space, .space, .tab, .space, .tab, .space, .feed] ∧
    ∃ p, decode false (Text.bytes (Blank.text
        [.space, .space, .tab, .space, .tab, .space, .feed])) = .ok p ∧
      List.Forall₂ Spells p.instructions.toList
        [[.space, .space, .tab, .space, .tab, .space, .feed]] := by
  have hfits : OperandsFit [.space, .space, .tab, .space, .tab, .space, .feed] :=
    .of_length_le (by decide)
  have hcut : Segments [[.space, .space, .tab, .space, .tab, .space, .feed]]
      [.space, .space, .tab, .space, .tab, .space, .feed] := by
    refine ⟨List.forall_mem_singleton.2 ?_, rfl⟩
    exact ⟨_, @Spells.number .push rfl .minus [false, true, false]⟩
  obtain ⟨hiff, -, hspells, -⟩ := decode_eq_ok_iff_segments false _ hfits
  obtain ⟨p, hp⟩ := hiff.2 ⟨_, hcut⟩
  exact ⟨hfits, p, hp, hspells p _ hp hcut⟩

end Whitespace
