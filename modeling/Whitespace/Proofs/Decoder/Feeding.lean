import Mathlib.Data.List.Forall2
import Whitespace.Proofs.Decoder.Reading
import Whitespace.Proofs.Program

/-!
# Feeding rows of blanks

What a decoder does with a source made of blanks only. Between two instructions the decoder is
described by how far it has read and by the instructions it has read; one word takes it to the next
such state, unless the operand is beyond the limit of decimal text, and a row without a word at its
start takes it to no such state at all.

## Main definitions

* `Decoder.Ready` — the decoder stands between two instructions.

## Main statements

* `Decoder.Ready.feed_word`, `Decoder.Ready.feed_words` — reading words.
* `Decoder.Ready.feed_long` — reading a word whose operand is beyond the limit.
* `Decoder.feed_stuck` — reading a row that starts with no word.
* `decode_words`, `decodeSource_long` — the same for whole sources.
-/

namespace Whitespace

theorem Blank.ofByte?_byte (split : Bool) {previous : Option UInt8} (h : previous ≠ some 13)
    (c : Blank) : ofByte? split previous c.byte = some c := by
  cases c <;> simp [ofByte?, byte, h]

theorem Blank.byte_ne_return (c : Blank) : some c.byte ≠ some 13 := by
  cases c <;> decide

namespace Decoder

variable {d : Decoder} (split : Bool)

/-- One blank, counted unless it fails. A line feed is a blank unless it belongs to the carriage
return before it. -/
theorem step_byte {c : Blank} (hc : Blank.ofByte? split d.lastByte c.byte = some c) :
    d.step split c.byte =
      match d.stage.read c with
      | .unfinished st =>
        .ok () { d with stage := st, offset := d.offset + 1, lastByte := some c.byte }
      | .complete i =>
        match d.emit i with
        | .ok () e => .ok () { e with offset := e.offset + 1, lastByte := some c.byte }
        | .error err e => .error err e
      | .wrong cause st => fail { d with stage := st } cause := by
  unfold step
  rw [hc]
  simp only [accept_eq]
  cases d.stage.read c <;> rfl

theorem exists_emit_eq_ok (d : Decoder) {i : Instruction} (hi : i.Fits) :
    ∃ log, d.emit i =
      .ok () { d with stage := .start, program := d.program.append i, log := log } := by
  obtain ⟨t, ht⟩ := Instruction.exists_text_eq_ok hi
  rw [emit, ht]
  exact ⟨_, rfl⟩

theorem emit_eq_error (d : Decoder) {i : Instruction} (hi : ¬ i.Fits) :
    d.emit i = .error (.tooLong .writing) d := by
  rw [emit, Instruction.text_eq_error hi]

/-- A row that completes an instruction is read up to its last blank, which adds the instruction. -/
theorem feed_complete {row : List Blank} {i : Instruction}
    (hfirst : ∀ c ∈ row.head?, Blank.ofByte? split d.lastByte c.byte = some c)
    (h : d.stage.complete? row = some i) :
    ∃ (e : Decoder) (c : Blank), e.program = d.program ∧ e.offset + 1 = d.offset + row.length ∧
      d.feed split (row.map Blank.byte) =
        match e.emit i with
        | .ok () e' => .ok () { e' with offset := e'.offset + 1, lastByte := some c.byte }
        | .error err e' => .error err e' := by
  induction row generalizing d with
  | nil => cases h
  | cons c row ih =>
    rw [Stage.complete?] at h
    rw [List.map_cons, feed, step_byte split (hfirst c rfl)]
    cases hread : d.stage.read c with
    | unfinished st =>
      rw [hread] at h
      obtain ⟨e, c', hprogram, hoffset, hfeed⟩ :=
        ih (d := { d with stage := st, offset := d.offset + 1, lastByte := some c.byte })
          (fun c' _ => Blank.ofByte?_byte split c.byte_ne_return c') h
      refine ⟨e, c', hprogram, ?_, hfeed⟩
      rw [hoffset, List.length_cons]
      dsimp only
      omega
    | complete j =>
      simp only [hread] at h
      split at h
      · next hrow =>
        cases h
        subst hrow
        refine ⟨d, c, rfl, by simp, ?_⟩
        dsimp only
        cases d.emit i <;> rfl
      · cases h
    | wrong cause st => simp [hread] at h

/-- A row that starts with no word either fails as malformed or ends inside an instruction. -/
theorem feed_stuck (hd : d.lastByte ≠ some 13) {row : List Blank}
    (h : ∀ w, w <+: row → d.stage.complete? w = none) (hne : row ≠ [] ∨ d.stage ≠ .start) :
    (∃ cause offset index e,
      d.feed split (row.map Blank.byte) = .error (.malformed cause offset index) e) ∨
    ∃ e, d.feed split (row.map Blank.byte) = .ok () e ∧ e.stage ≠ .start := by
  induction row generalizing d with
  | nil => exact .inr ⟨d, rfl, by simpa using hne⟩
  | cons c row ih =>
    rw [List.map_cons, feed, step_byte split (Blank.ofByte?_byte split hd c)]
    cases hread : d.stage.read c with
    | unfinished st =>
      refine ih (d := { d with stage := st, offset := d.offset + 1, lastByte := some c.byte })
        c.byte_ne_return (fun w hw => ?_) (.inr (Stage.ne_start_of_read hread))
      have := h (c :: w) (List.cons_prefix_cons.2 ⟨rfl, hw⟩)
      simpa [Stage.complete?, hread] using this
    | complete j =>
      have := h [c] (List.cons_prefix_cons.2 ⟨rfl, List.nil_prefix⟩)
      simp [Stage.complete?, hread] at this
    | wrong cause st => exact .inl ⟨_, _, _, _, rfl⟩

/-- The decoder stands between two instructions: it has read `offset` bytes, which held the
instructions `is`. -/
structure Ready (d : Decoder) (offset : Nat) (is : List Instruction) : Prop where
  stage : d.stage = .start
  offset : d.offset = offset
  program : d.program = .ofInstructions is
  lastByte : d.lastByte ≠ some 13

theorem ready_initial : ({} : Decoder).Ready 0 [] := ⟨rfl, rfl, rfl, by simp⟩

namespace Ready

variable {n : Nat} {done is : List Instruction} {i : Instruction} {w : List Blank}
  {ws : List (List Blank)}

theorem feed_word (hd : d.Ready n done) (hw : Spells i w) (hi : i.Fits) :
    ∃ e, d.feed split (w.map Blank.byte) = .ok () e ∧ e.Ready (n + w.length) (done ++ [i]) := by
  rw [← Stage.complete?_start_iff, ← hd.stage] at hw
  obtain ⟨e, c, hprogram, hoffset, hfeed⟩ :=
    feed_complete split (fun c _ => Blank.ofByte?_byte split hd.lastByte c) hw
  obtain ⟨log, hemit⟩ := e.exists_emit_eq_ok hi
  rw [hemit] at hfeed
  refine ⟨_, hfeed, rfl, ?_, ?_, c.byte_ne_return⟩
  · rw [← hd.offset]
    exact hoffset
  · rw [Program.ofInstructions_concat, ← hd.program, ← hprogram]

theorem feed_long (hd : d.Ready n done) (hw : Spells i w) (hi : ¬ i.Fits) :
    ∃ e, d.feed split (w.map Blank.byte) = .error (.tooLong .writing) e ∧
      e.program = .ofInstructions done ∧ e.offset + 1 = n + w.length := by
  rw [← Stage.complete?_start_iff, ← hd.stage] at hw
  obtain ⟨e, c, hprogram, hoffset, hfeed⟩ :=
    feed_complete split (fun c _ => Blank.ofByte?_byte split hd.lastByte c) hw
  rw [emit_eq_error e hi] at hfeed
  refine ⟨e, hfeed, hprogram.trans hd.program, ?_⟩
  rw [← hd.offset]
  exact hoffset

/-- Words whose operands fit are read one after the other. -/
theorem feed_words (hd : d.Ready n done) (h : List.Forall₂ Spells is ws)
    (hfits : ∀ i ∈ is, i.Fits) :
    ∃ e, d.feed split (ws.flatten.map Blank.byte) = .ok () e ∧
      e.Ready (n + ws.flatten.length) (done ++ is) := by
  induction h generalizing d n done with
  | nil => exact ⟨d, rfl, by simpa using hd⟩
  | @cons i w is ws hw _ ih =>
    obtain ⟨e, hfeed, he⟩ := hd.feed_word split hw (hfits i List.mem_cons_self)
    obtain ⟨e', hfeed', he'⟩ := ih he fun j hj => hfits j (List.mem_cons_of_mem i hj)
    refine ⟨e', ?_, ?_⟩
    · rw [List.flatten_cons, List.map_append, feed_append, hfeed]
      exact hfeed'
    · simpa [Nat.add_assoc] using he'

theorem finish_eq (hd : d.Ready n is) : ∃ e, d.finish = .ok (.ofInstructions is) e := by
  rw [finish, if_pos hd.stage, hd.program]
  exact ⟨_, rfl⟩

end Ready

end Decoder

open Decoder

theorem decodeSource_eq (split : Bool) (source : List UInt8) :
    decodeSource split source =
      match ({} : Decoder).feed split source with
      | .ok () d => d.finish
      | .error e d => .error e d := by
  unfold decodeSource run feedAll
  cases ({} : Decoder).feed split source <;> rfl

variable {is : List Instruction} {i : Instruction} {ws : List (List Blank)} {w : List Blank}

/-- A source of words whose operands fit is decoded to the instructions they spell. -/
theorem decode_words (split : Bool) (h : List.Forall₂ Spells is ws) (hfits : ∀ i ∈ is, i.Fits) :
    decode split (ws.flatten.map Blank.byte) = .ok (.ofInstructions is) := by
  obtain ⟨d, hfeed, hd⟩ := ready_initial.feed_words split h hfits
  obtain ⟨e, hfinish⟩ := hd.finish_eq
  rw [decode, decodeSource_eq, hfeed]
  simp only [hfinish, List.nil_append, Result.toExcept]

/-- The first operand beyond the limit stops the decoder at the last blank of its word, whatever
comes behind it. -/
theorem decodeSource_long (split : Bool) (h : List.Forall₂ Spells is ws) (hfits : ∀ i ∈ is, i.Fits)
    (hw : Spells i w) (hi : ¬ i.Fits) (rest : List Blank) :
    ∃ d, decodeSource split ((ws.flatten ++ (w ++ rest)).map Blank.byte) =
        .error (.tooLong .writing) d ∧
      d.program = .ofInstructions is ∧ d.offset + 1 = ws.flatten.length + w.length := by
  obtain ⟨d, hfeed, hd⟩ := ready_initial.feed_words split h hfits
  obtain ⟨e, hfail, hprogram, hoffset⟩ := hd.feed_long split hw hi
  refine ⟨e, ?_, hprogram, by omega⟩
  rw [decodeSource_eq, List.map_append, feed_append, hfeed, List.map_append]
  simp only [feed_append, hfail]

end Whitespace
