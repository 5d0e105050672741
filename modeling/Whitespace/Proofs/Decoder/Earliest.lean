import Whitespace.Proofs.Decimal
import Whitespace.Proofs.Decoder.Account

/-!
# Where a source goes wrong

A decoder that has not failed can always be led to the end of the instruction that it is reading, as
long as the operand read so far is within the limit of decimal text. So it fails no later than it
must: the bytes in front of the one that fails can be completed to a source that is decoded, and with
that byte they cannot. The offset counts all bytes, comments included, and the index counts the
instructions that are complete.

## Main definitions

* `OperandRead`, `ValuesFit` — the operands of a row, complete or not, are within the limit.
* `Extensible` — a source can be completed to one that is decoded.
* `Completes` — the number of complete instructions in a source.

## Main statements

* `Stage.Begins.exists_word` — every beginning of a word can be completed.
* `Decoder.Account.extensible` — so can everything that was read without a failure.
* `malformed_earliest` — a malformed source is reported at the earliest byte possible.
-/

namespace Whitespace

/-! ## Operands that are read -/

/-- The blanks are the beginning of a word, up to some digit of its operand, and the digits read so
far have the value `v`. -/
inductive OperandRead : List Blank → Nat → Prop where
  | number {op : Opcode} (h : op.operandKind = .number) (sign : Sign) (bits : List Bool) :
      OperandRead (op.code ++ sign.blank :: bits.map Blank.ofBit) (Bits.value bits)
  | label {op : Opcode} (h : op.operandKind = .label) (bits : List Bool) :
      OperandRead (op.code ++ bits.map Blank.ofBit) (Bits.value (true :: bits))

/-- No operand of the row, complete or still being read, is beyond the limit of decimal text. -/
def ValuesFit (row : List Blank) : Prop :=
  ∀ is ws w v, List.Forall₂ Spells is ws → OperandRead w v → ws.flatten ++ w <+: row →
    Decimal.Fits v

theorem ValuesFit.of_prefix {r row : List Blank} (h : ValuesFit row) (hr : r <+: row) :
    ValuesFit r :=
  fun is ws w v hws hw hleads => h is ws w v hws hw (hleads.trans hr)

theorem OperandRead.lt_two_pow {w : List Blank} {v : Nat} (h : OperandRead w v) :
    v < 2 ^ w.length := by
  cases h with
  | @number op hkind sign bits =>
    refine Nat.lt_of_lt_of_le (Bits.value_lt bits) (Nat.pow_le_pow_right (by omega) ?_)
    simp only [List.length_append, List.length_cons, List.length_map]
    omega
  | @label op hkind bits =>
    have hcode : 0 < op.code.length := by cases op <;> decide
    refine Nat.lt_of_lt_of_le (Bits.value_lt (true :: bits)) (Nat.pow_le_pow_right (by omega) ?_)
    simp only [List.length_append, List.length_cons, List.length_map]
    omega

/-- Only a long row has an operand beyond the limit. -/
theorem ValuesFit.of_length_le {row : List Blank} (h : row.length ≤ Decimal.limit) :
    ValuesFit row := by
  intro is ws w v _ hw hprefix
  have hlength := hprefix.length_le
  rw [List.length_append] at hlength
  have hlt : v < 10 ^ w.length :=
    Nat.lt_of_lt_of_le hw.lt_two_pow (Nat.pow_le_pow_left (by omega) _)
  exact Decimal.fits_of_lt_pow (n := w.length) (by simpa using hlt) (by omega)

theorem Decimal.fits_zero : Fits 0 := fits_of_lt_pow (n := 1) (by decide) (by decide)

theorem Decimal.fits_one : Fits 1 := fits_of_lt_pow (n := 1) (by decide) (by decide)

/-! ## Completing a word -/

/-- Behind the code of an opcode there can be the smallest operand that it takes. -/
theorem Opcode.exists_word (op : Opcode) :
    ∃ more i, Spells i (op.code ++ more) ∧ i.Fits ∧ (op.operandKind ≠ .none → more ≠ []) := by
  cases hkind : op.operandKind with
  | none => exact ⟨[], _, by simpa using Spells.plain hkind, by simp [Instruction.Fits], by simp⟩
  | number =>
    refine ⟨[Sign.plus.blank, .feed], _, by simpa using Spells.number hkind .plus [], ?_, by simp⟩
    simpa [Instruction.Fits, Bits.value] using Decimal.fits_zero
  | label =>
    refine ⟨[.feed], _, by simpa using Spells.label hkind [], ?_, by simp⟩
    simpa [Instruction.Fits, Bits.value] using Decimal.fits_one

namespace Stage

variable {st : Stage} {w : List Blank}

/-- Every beginning of a word can be completed, and its operand is then no greater than it has to
be. -/
theorem Begins.exists_word (h : Begins st w) :
    ∃ more i, more ≠ [] ∧ Spells i (w ++ more) ∧ (Decimal.Fits st.value → i.Fits) := by
  cases h with
  | family hpending =>
    rcases hpending with rfl | rfl
    · exact ⟨Opcode.halt.code, _, by decide, .plain rfl, fun _ => by simp [Instruction.Fits]⟩
    · exact ⟨[.tab, .space], _, by simp, @Spells.plain .store rfl,
        fun _ => by simp [Instruction.Fits]⟩
  | @command op pending hprefix hne =>
    obtain ⟨rest, hrest⟩ := hprefix
    obtain ⟨more, i, hspells, hfits, -⟩ := op.exists_word
    refine ⟨rest ++ more, i, ?_, ?_, fun _ => hfits⟩
    · intro hnil
      rw [(List.append_eq_nil_iff.1 hnil).1, List.append_nil] at hrest
      exact hne hrest
    · simpa [Opcode.code, ← hrest] using hspells
  | @unsigned op hkind =>
    obtain ⟨more, i, hspells, hfits, hmore⟩ := op.exists_word
    exact ⟨more, i, hmore (by simp [hkind]), hspells, fun _ => hfits⟩
  | number hkind sign bits =>
    refine ⟨[.feed], _, by simp, .number hkind sign bits, fun hvalue => ?_⟩
    intro v hv
    cases hv
    rw [Decimal.Fits, Int.natAbs_mul, Int.natAbs_natCast]
    have hfactor : sign.factor.natAbs = 1 := by cases sign <;> rfl
    rw [hfactor, Nat.one_mul]
    exact hvalue
  | label hkind bits =>
    refine ⟨[.feed], _, by simp, .label hkind bits, fun hvalue => ?_⟩
    intro v hv
    cases hv
    exact hvalue

/-- A beginning of a word does not start with a word. -/
theorem Begins.not_prefix (h : Begins st w) {i : Instruction} {v : List Blank} (hv : Spells i v) :
    ¬ v <+: w := by
  rintro ⟨rest, rfl⟩
  obtain ⟨more, j, hmore, hspells, -⟩ := h.exists_word
  have hword := hv.prefix_free hspells (r := rest ++ more) (s := []) (by simp)
  rw [List.append_assoc, List.self_eq_append_right] at hword
  exact hmore (List.append_eq_nil_iff.1 hword).2

theorem Begins.operandRead (h : Begins st w) : OperandRead w st.value ∨ st.value = 0 := by
  cases h with
  | family | command | unsigned => exact .inr rfl
  | number hkind sign bits => exact .inl (.number hkind sign bits)
  | label hkind bits => exact .inl (.label hkind bits)

end Stage

/-! ## Completing a source -/

/-- More bytes make a source that is decoded. -/
def Extensible (split : Bool) (source : List UInt8) : Prop :=
  ∃ rest p, decode split (source ++ rest) = .ok p

/-- The blanks of the source are `n` words and a rest that starts with no further word. -/
def Completes (split : Bool) (source : List UInt8) (n : Nat) : Prop :=
  ∃ is ws rest, List.Forall₂ Spells is ws ∧ blanks split source = ws.flatten ++ rest ∧
    (∀ i w, Spells i w → ¬ w <+: rest) ∧ is.length = n

/-- A byte that stands for the blank whatever byte is in front of it. A line feed does not: after a
return it may stand for nothing. -/
def Blank.plainByte : Blank → UInt8
  | space => 32
  | tab => 9
  | feed => 13

theorem Blank.ofByte?_plainByte (split : Bool) (previous : Option UInt8) (c : Blank) :
    ofByte? split previous c.plainByte = some c := by
  cases c <;> rfl

theorem blanksFrom_plainByte (split : Bool) (previous : Option UInt8) (row : List Blank) :
    blanksFrom split previous (row.map Blank.plainByte) = row := by
  induction row generalizing previous with
  | nil => rfl
  | cons c row ih => simp [blanksFrom, Blank.ofByte?_plainByte, ih]

namespace Decoder

variable {split : Bool} {source : List UInt8} {is : List Instruction} {pending : List Blank}
  {d : Decoder}

theorem Account.completes (h : Account split source is pending d) :
    Completes split source d.program.size := by
  obtain ⟨ws, hws, hblanks⟩ := h.words
  exact ⟨is, ws, pending, hws, hblanks, fun i w hw => h.stage.not_prefix hw, h.size_eq.symm⟩

theorem Account.fits_value (h : Account split source is pending d)
    (hfits : ValuesFit (blanks split source)) : Decimal.Fits d.stage.value := by
  obtain ⟨ws, hws, hblanks⟩ := h.words
  rcases h.stage.operandRead with hread | hzero
  · exact hfits is ws pending _ hws hread (hblanks ▸ List.prefix_refl _)
  · rw [hzero]
    exact Decimal.fits_zero

/-- A byte that fails is reported at the offset and the index that it has. -/
theorem Account.place_eq (h : Account split source is pending d) {b : UInt8} {cause : Cause}
    {k n : Nat} {d' : Decoder} (hstep : d.step split b = .error (.malformed cause k n) d') :
    k = source.length ∧ n = d.program.size := by
  have houtcome := step_outcome split d b
  rw [hstep] at houtcome
  cases houtcome
  exact ⟨h.offset, rfl⟩

/-- What was read without a failure can be completed, since the instruction that is being read can
be. -/
theorem Account.extensible (h : Account split source is pending d)
    (hfits : ValuesFit (blanks split source)) : Extensible split source := by
  obtain ⟨ws, hws, hblanks⟩ := h.words
  obtain ⟨more, i, -, hspells, hi⟩ := h.stage.exists_word
  refine ⟨more.map Blank.plainByte, .ofInstructions (is ++ [i]), decode_eq_ok_iff.2 ?_⟩
  refine ⟨is ++ [i], ws ++ [pending ++ more], List.rel_append hws (.cons hspells .nil), ?_, ?_, rfl⟩
  · rw [blanks_append, hblanks, blanksFrom_plainByte]
    simp
  · intro j hj
    rcases List.mem_append.1 hj with hj | hj
    · exact h.fits j hj
    · rw [List.mem_singleton.1 hj]
      exact hi (h.fits_value hfits)

end Decoder

open Decoder

/-- A malformed source is reported at the earliest byte possible. Let no operand of a source,
complete or still being read, be beyond the limit of decimal text, and let the source be malformed
at offset `k` after `n` instructions. Either the byte at `k` fails while the source is read: then
the bytes in front of it can be completed to a source that is decoded, and hold `n` complete
instructions, but with that byte every source fails in the same way. Or all bytes are read and the
source ends inside an instruction: then `k` is the number of bytes, they hold `n` complete
instructions and can be completed to a source that is decoded. -/
theorem malformed_earliest (split : Bool) (source : List UInt8)
    (hfits : ValuesFit (blanks split source)) {cause : Cause} {k n : Nat}
    (h : decode split source = .error (.malformed cause k n)) :
    ((∃ d, ({} : Decoder).feed split source = .error (.malformed cause k n) d) ∧
      k < source.length ∧ Extensible split (source.take k) ∧
      (∀ rest, decode split (source.take (k + 1) ++ rest) = .error (.malformed cause k n)) ∧
      Completes split (source.take k) n) ∨
    ((∃ d, ({} : Decoder).feed split source = .ok () d ∧ cause = .cutOff d.stage) ∧
      k = source.length ∧ Extensible split source ∧ Completes split source n) := by
  rw [decode, decodeSource_eq] at h
  cases hfeed : ({} : Decoder).feed split source with
  | error e d =>
    rw [hfeed] at h
    cases h
    left
    obtain ⟨before, b, after, d₁, rfl, hbefore, hstep⟩ := feed_eq_error hfeed
    obtain ⟨is, pending, haccount⟩ := account_of_feed hbefore
    obtain ⟨rfl, rfl⟩ := haccount.place_eq hstep
    have htake : (before ++ b :: after).take (before.length + 1) = before ++ [b] := by
      rw [List.take_length_add_append, List.take_succ_cons, List.take_zero]
    rw [List.take_left, htake]
    have hprefix : ValuesFit (blanks split before) :=
      hfits.of_prefix ⟨_, (blanks_append split before (b :: after)).symm⟩
    refine ⟨⟨d, rfl⟩, by simp, haccount.extensible hprefix, fun rest => ?_, haccount.completes⟩
    have hsame : ({} : Decoder).feed split (before ++ [b] ++ rest) =
        .error (.malformed cause before.length d₁.program.size) d := by
      simp only [List.append_assoc, feed_append, hbefore, List.singleton_append, feed, hstep]
    rw [decode, decodeSource_eq, hsame]
    rfl
  | ok u d =>
    right
    obtain ⟨is, pending, haccount⟩ := account_of_feed hfeed
    simp only [hfeed] at h
    by_cases hstage : d.stage = .start
    · rw [finish, if_pos hstage] at h
      cases h
    · rw [finish_eq_error hstage] at h
      cases h
      exact ⟨⟨d, rfl, rfl⟩, haccount.offset, haccount.extensible hfits, haccount.completes⟩

/-- A push, a comment and the end of the line where the sign of a number should be: the line feed
fails at offset three, and something else in its place would not. -/
theorem malformed_earliest_unsigned :
    ValuesFit (blanks false [32, 32, 97, 10, 32]) ∧
    decode false [32, 32, 97, 10, 32] = .error (.malformed .unsigned 3 0) ∧
    Extensible false [32, 32, 97] ∧
    ∀ rest, decode false (32 :: 32 :: 97 :: 10 :: rest) = .error (.malformed .unsigned 3 0) := by
  have hfits : ValuesFit (blanks false [32, 32, 97, 10, 32]) := .of_length_le (by decide)
  have herror : decode false [32, 32, 97, 10, 32] = .error (.malformed .unsigned 3 0) := rfl
  refine ⟨hfits, herror, ?_⟩
  rcases malformed_earliest false _ hfits herror with ⟨-, -, hextensible, hsame, -⟩ | ⟨-, hend, -⟩
  · exact ⟨hextensible, hsame⟩
  · cases hend

end Whitespace
