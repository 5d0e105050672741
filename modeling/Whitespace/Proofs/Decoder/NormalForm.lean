import Mathlib.Logic.Relation
import Whitespace.Proofs.Decoder.Feeding

/-!
# The normal form of a source

A source may hold comments between its blanks, and lines may end in three ways. Its normal form has
no comments and ends every line with a line feed. The decoder takes both alike: it gives the same
program, or it fails for the same reason after the same number of instructions. Only the offset of a
failure is counted in the bytes that were read.

## Main definitions

* `normalize` — the normal form of a source.
* `InsertsRemark` — a source has one more comment than another one.
* `Decoder.Alike` — two results differ at most in the offset of an error.
* `Decoder.Similar` — two decoders have come equally far.

## Main statements

* `Decoder.Similar.accept`, `Decoder.Similar.feed` — similar decoders stay similar, one of them
  being given the normal form of what the other one reads.
* `normalize_remark`, `normalizeFrom_withReturns` — sources with the same normal form.
* `decode_normalize` — decoding a source and its normal form.
-/

namespace Whitespace

/-- The bytes that are no comment: space, tab, line feed and carriage return. -/
def significant : List UInt8 := [32, 9, 10, 13]

/-- What becomes of byte `b` in normal form when it follows `previous`. Comments are left out, and
so is the line feed of a return, unless the two are `split`; a return becomes a line feed. -/
def normalByte? (split : Bool) (previous : Option UInt8) (b : UInt8) : Option UInt8 :=
  if b ∉ significant then none
  else if b = 10 ∧ previous = some 13 ∧ split = false then none
  else some (if b = 13 then 10 else b)

/-- The normal form of the part of a source that follows the byte `previous`. -/
def normalizeFrom (split : Bool) (previous : Option UInt8) : List UInt8 → List UInt8
  | [] => []
  | b :: rest => (normalByte? split previous b).toList ++ normalizeFrom split (some b) rest

/-- The normal form of a source. -/
def normalize (split : Bool) (source : List UInt8) : List UInt8 := normalizeFrom split none source

-- a return alone, a return and a line feed with a comment between them, two returns and a line feed
example : normalize false [32, 13, 9, 13, 97, 10, 9, 13, 13, 10] =
    [32, 10, 9, 10, 10, 9, 10, 10] := by decide

/-- A byte and its normal form stand for the same blank. -/
theorem normalByte?_eq (split : Bool) (previous : Option UInt8) (b : UInt8) :
    normalByte? split previous b = (Blank.ofByte? split previous b).map Blank.byte := by
  by_cases hspace : b = 32
  · simp [normalByte?, significant, Blank.ofByte?, Blank.byte, hspace]
  by_cases htab : b = 9
  · simp [normalByte?, significant, Blank.ofByte?, Blank.byte, htab]
  by_cases hreturn : b = 13
  · simp [normalByte?, significant, Blank.ofByte?, Blank.byte, hreturn]
  by_cases hfeed : b = 10
  · by_cases hpair : previous = some 13 ∧ split = false
    · simp [normalByte?, significant, Blank.ofByte?, hfeed, hpair]
    · have hpair' : ¬ (previous = some 13 && !split) := by simpa using hpair
      simp [normalByte?, significant, Blank.ofByte?, Blank.byte, hfeed, hpair, hpair']
  · simp [normalByte?, significant, Blank.ofByte?, hspace, htab, hreturn, hfeed]

namespace Decoder

/-- Two errors differ at most in the offset. -/
inductive Error.Alike : Error → Error → Prop where
  | malformed (cause : Cause) (offset offset' index : Nat) :
      Alike (.malformed cause offset index) (.malformed cause offset' index)
  | tooLong (e : Decimal.TooLong) : Alike (.tooLong e) (.tooLong e)

/-- Two results of decoding are the same program, or errors that differ at most in the offset. -/
inductive Alike : Except Error Program → Except Error Program → Prop where
  | ok (p : Program) : Alike (.ok p) (.ok p)
  | error {e e' : Error} (h : e.Alike e') : Alike (.error e) (.error e')

namespace Alike

variable {r r' r'' : Except Error Program}

theorem refl (r : Except Error Program) : Alike r r := by
  rcases r with (⟨cause, offset, index⟩ | e) | p
  · exact .error (.malformed cause offset offset index)
  · exact .error (.tooLong e)
  · exact .ok p

theorem symm (h : Alike r r') : Alike r' r := by
  cases h with
  | ok p => exact .ok p
  | error h =>
    cases h with
    | malformed cause offset offset' index => exact .error (.malformed cause offset' offset index)
    | tooLong e => exact .error (.tooLong e)

theorem trans (h : Alike r r') (h' : Alike r' r'') : Alike r r'' := by
  cases h with
  | ok p => exact h'
  | error h =>
    cases h with
    | malformed cause offset offset' index =>
      cases h' with
      | error h' =>
        cases h' with
        | malformed => exact .error (.malformed ..)
    | tooLong e => exact h'

theorem eq_ok {p : Program} (h : Alike (.ok p) r) : r = .ok p := by
  cases h with
  | ok => rfl

theorem eq_tooLong {e : Decimal.TooLong} (h : Alike (.error (.tooLong e)) r) :
    r = .error (.tooLong e) := by
  cases h with
  | error h =>
    cases h with
    | tooLong => rfl

end Alike

/-- Two decoders have read the same instructions and the same part of the next one. -/
structure Similar (d e : Decoder) : Prop where
  stage : d.stage = e.stage
  program : d.program = e.program

/-- Two operations lead to similar decoders, or fail with errors that differ at most in the
offset. -/
inductive StepsAlike : Result Unit → Result Unit → Prop where
  | ok {d e : Decoder} (h : Similar d e) : StepsAlike (.ok () d) (.ok () e)
  | error {err err' : Error} {d e : Decoder} (h : err.Alike err') :
      StepsAlike (.error err d) (.error err' e)

namespace Similar

variable {d e : Decoder}

theorem emit (h : Similar d e) (i : Instruction) : StepsAlike (d.emit i) (e.emit i) := by
  unfold Decoder.emit
  cases i.text with
  | error err => exact .error (.tooLong err)
  | ok text => exact .ok ⟨rfl, congrArg (·.append i) h.program⟩

theorem fail (h : Similar d e) (cause : Cause) : StepsAlike (d.fail cause) (e.fail cause) := by
  unfold Decoder.fail
  rw [h.program]
  exact .error (.malformed ..)

/-- One blank keeps two decoders similar: what it does depends on the stage and on the program. -/
theorem accept (h : Similar d e) (c : Blank) : StepsAlike (d.accept c) (e.accept c) := by
  rw [accept_eq, accept_eq, ← h.stage]
  cases d.stage.read c with
  | unfinished st => exact .ok ⟨rfl, h.program⟩
  | complete i => exact h.emit i
  | wrong cause st =>
    have hstage : Similar { d with stage := st } { e with stage := st } := ⟨rfl, h.program⟩
    exact hstage.fail cause

/-- A blank is accepted and counted, whatever byte it was written as. -/
theorem step_blank (h : Similar d e) (split split' : Bool) {b : UInt8} {c : Blank}
    (hb : Blank.ofByte? split d.lastByte b = some c) (he : e.lastByte ≠ some 13) :
    (∃ d' e', d.step split b = .ok () d' ∧ e.step split' c.byte = .ok () e' ∧ Similar d' e' ∧
      d'.lastByte = some b ∧ e'.lastByte = some c.byte) ∨
    ∃ err err' d' e', d.step split b = .error err d' ∧ e.step split' c.byte = .error err' e' ∧
      err.Alike err' := by
  have haccept := h.accept c
  unfold Decoder.step
  rw [hb, Blank.ofByte?_byte split' he]
  dsimp only
  generalize d.accept c = r at haccept
  generalize e.accept c = r' at haccept
  cases haccept with
  | ok hsimilar => exact .inl ⟨_, _, rfl, rfl, ⟨hsimilar.stage, hsimilar.program⟩, rfl, rfl⟩
  | error herror => exact .inr ⟨_, _, _, _, rfl, rfl, herror⟩

/-- Reading a source and reading its normal form keeps two decoders similar. The byte that the first
decoder has read last may be part of a comment; the second decoder never sees a carriage return. -/
theorem feed (h : Similar d e) (split split' : Bool) (he : e.lastByte ≠ some 13)
    (bytes : List UInt8) :
    StepsAlike (d.feed split bytes)
      (e.feed split' (normalizeFrom split d.lastByte bytes)) := by
  induction bytes generalizing d e with
  | nil => exact .ok h
  | cons b bytes ih =>
    rw [normalizeFrom, normalByte?_eq, Decoder.feed]
    cases hb : Blank.ofByte? split d.lastByte b with
    | none =>
      have hstep : d.step split b =
          .ok () { d with offset := d.offset + 1, lastByte := some b } := by
        simp only [Decoder.step, hb]
      rw [hstep]
      exact ih (d := { d with offset := d.offset + 1, lastByte := some b })
        ⟨h.stage, h.program⟩ he
    | some c =>
      rw [Option.map_some, Option.toList_some, List.singleton_append, Decoder.feed]
      obtain ⟨d', e', hd', he', hsimilar, hlast, hlast'⟩ | ⟨err, err', d', e', hd', he', herror⟩ :=
        h.step_blank split split' hb he
      · rw [hd', he', ← hlast]
        exact ih hsimilar (by rw [hlast']; exact c.byte_ne_return)
      · rw [hd', he']
        exact .error herror

theorem finish (h : Similar d e) : Alike d.finish.toExcept e.finish.toExcept := by
  unfold Decoder.finish Decoder.fail
  rw [h.stage, h.program]
  split
  · exact .ok _
  · exact .error (.malformed ..)

end Similar

end Decoder

open Decoder

/-- Decoders given a source and its normal form come equally far. -/
theorem alike_decode_normalize (split split' : Bool) (source : List UInt8) :
    Alike (decode split source) (decode split' (normalize split source)) := by
  have hfeed : StepsAlike (({} : Decoder).feed split source)
      (({} : Decoder).feed split' (normalize split source)) :=
    Similar.feed ⟨rfl, rfl⟩ split split' (by simp) source
  rw [decode, decode, decodeSource_eq, decodeSource_eq]
  generalize ({} : Decoder).feed split source = r at hfeed
  generalize ({} : Decoder).feed split' (normalize split source) = r' at hfeed
  cases hfeed with
  | ok hsimilar => exact hsimilar.finish
  | error herror => exact .error herror

/-! ## Sources with the same normal form -/

theorem normalizeFrom_append (split : Bool) (previous : Option UInt8) (s t : List UInt8) :
    normalizeFrom split previous (s ++ t) =
      normalizeFrom split previous s ++ normalizeFrom split (s.getLast?.or previous) t := by
  induction s generalizing previous with
  | nil => simp [normalizeFrom]
  | cons b s ih =>
    have hlast : (b :: s).getLast?.or previous = s.getLast?.or (some b) := by
      cases hs : s.getLast? <;> simp [List.getLast?_cons, hs]
    rw [List.cons_append, normalizeFrom, ih, normalizeFrom, hlast, List.append_assoc]

/-- Comments have no normal form. -/
theorem normalizeFrom_remark (split : Bool) (previous : Option UInt8) {remark : List UInt8}
    (h : ∀ b ∈ remark, b ∉ significant) : normalizeFrom split previous remark = [] := by
  induction remark generalizing previous with
  | nil => rfl
  | cons b remark ih =>
    obtain ⟨hb, hremark⟩ := List.forall_mem_cons.1 h
    rw [normalizeFrom, normalByte?, if_pos hb, ih _ hremark]
    rfl

/-- The byte in front matters only to a line feed, and only if it is a carriage return. -/
theorem normalizeFrom_congr (split : Bool) {previous previous' : Option UInt8} {s : List UInt8}
    (h : s.head? = some 10 → (previous = some 13 ↔ previous' = some 13)) :
    normalizeFrom split previous s = normalizeFrom split previous' s := by
  cases s with
  | nil => rfl
  | cons b s =>
    have hb : normalByte? split previous b = normalByte? split previous' b := by
      by_cases hfeed : b = 10
      · simp only [normalByte?, h (by rw [hfeed, List.head?_cons])]
      · simp only [normalByte?, hfeed, false_and]
    rw [normalizeFrom, hb, normalizeFrom]

/-- The source `t` is `s` with a comment put in somewhere, but not between a carriage return and its
line feed. -/
def InsertsRemark (s t : List UInt8) : Prop :=
  ∃ before remark after, s = before ++ after ∧ t = before ++ (remark ++ after) ∧
    (∀ b ∈ remark, b ∉ significant) ∧ ¬ (before.getLast? = some 13 ∧ after.head? = some 10)

theorem normalize_remark (split : Bool) {s t : List UInt8} (h : InsertsRemark s t) :
    normalize split t = normalize split s := by
  obtain ⟨before, remark, after, rfl, rfl, hremark, hpair⟩ := h
  unfold normalize
  rw [normalizeFrom_append, normalizeFrom_append, normalizeFrom_remark split _ hremark,
    List.nil_append, normalizeFrom_append, Option.or_none]
  congr 1
  apply normalizeFrom_congr
  intro hfeed
  have hbefore : before.getLast? ≠ some 13 := fun hreturn => hpair ⟨hreturn, hfeed⟩
  cases hlast : remark.getLast? with
  | none => rw [Option.none_or]
  | some b =>
    have hb : b ≠ 13 := by
      rintro rfl
      exact hremark 13 (List.mem_of_getLast? hlast) (by decide)
    simp [hb, hbefore]

/-- The source with a return in front of every line feed. -/
def withReturns (source : List UInt8) : List UInt8 :=
  source.flatMap fun b => if b = 10 then [13, 10] else [b]

theorem normalizeFrom_withReturns {previous : Option UInt8} {source : List UInt8}
    (hprevious : previous ≠ some 13) (h : 13 ∉ source) :
    normalizeFrom false previous (withReturns source) = normalizeFrom false previous source := by
  induction source generalizing previous with
  | nil => rfl
  | cons b source ih =>
    obtain ⟨hb, hsource⟩ : 13 ≠ b ∧ 13 ∉ source := by simpa using h
    have hlast : some b ≠ some 13 := by simpa using hb.symm
    have hmore := ih hlast hsource
    by_cases hfeed : b = 10
    · subst hfeed
      -- the return gives the line feed, and the line feed behind it gives nothing
      simpa [withReturns, normalizeFrom, normalByte?, significant, hprevious] using hmore
    · simpa [withReturns, normalizeFrom, hfeed] using hmore

/-- Comments and line ends make no difference to the decoder. A source and its normal form are
decoded to the same program, or fail for the same reason after the same number of instructions; so
do a source and the same source with more comments, and, as long as returns are not split from their
line feeds, a source without returns and the same source with a return in front of every line
feed. -/
theorem decode_normalize (split : Bool) (source : List UInt8) :
    Alike (decode split source) (decode split (normalize split source)) ∧
    (∀ source', Relation.ReflTransGen InsertsRemark source source' →
      Alike (decode split source) (decode split source')) ∧
    (split = false → 13 ∉ source →
      Alike (decode split source) (decode split (withReturns source))) := by
  have hsame {s t : List UInt8} (h : normalize split t = normalize split s) :
      Alike (decode split s) (decode split t) :=
    (alike_decode_normalize split split s).trans
      (h ▸ (alike_decode_normalize split split t).symm)
  refine ⟨alike_decode_normalize split split source, fun source' hmore => ?_, fun hsplit hno => ?_⟩
  · induction hmore with
    | refl => exact .refl _
    | tail _ hremark ih => exact ih.trans (hsame (normalize_remark split hremark))
  · subst hsplit
    exact hsame (normalizeFrom_withReturns (by simp) hno)

end Whitespace
