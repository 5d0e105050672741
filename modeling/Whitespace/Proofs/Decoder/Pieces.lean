import Whitespace.Proofs.Decoder.Reading

/-!
# Decoding piece by piece

A source comes in pieces, and where it is cut makes no difference: the decoder that the pieces leave
is the one that the whole source leaves, after a failure too. A file is read in pieces of one size.
Its name is logged before the first of them, and since no operation looks at the log, decoding a
file differs from decoding its contents in this record only.

## Main definitions

* `Decoder.afterLog`, `Decoder.Result.afterLog` — earlier records put in front of the log.

## Main statements

* `Decoder.feedAll_eq_feed` — feeding pieces is feeding them joined.
* `Decoder.feed_afterLog`, `Decoder.finish_afterLog` — earlier records make no difference.
* `getElem?_pieces`, `flatten_pieces` — the pieces in which a file is read.
* `decodeContents_eq` — decoding a file is decoding its contents.
-/

namespace Whitespace

theorem Log.append_debug (before log : Log) (line : String) :
    before ++ log.debug line = Log.debug (before ++ log) line :=
  Array.append_push

namespace Decoder

variable {α : Type} {split : Bool}

/-- Feeding pieces one after the other is feeding them joined. -/
theorem feedAll_eq_feed (split : Bool) (d : Decoder) (cut : List (List UInt8)) :
    d.feedAll split cut = d.feed split cut.flatten := by
  induction cut generalizing d with
  | nil => rfl
  | cons piece cut ih =>
    rw [feedAll, List.flatten_cons, feed_append]
    cases d.feed split piece with
    | ok u d' => exact ih d'
    | error e d' => rfl

/-! ## The log -/

/-- The decoder with earlier records in front of its log. -/
def afterLog (before : Log) (d : Decoder) : Decoder := { d with log := before ++ d.log }

/-- The result with earlier records in front of the log. -/
def Result.afterLog (before : Log) : Result α → Result α
  | .ok a d => .ok a (d.afterLog before)
  | .error e d => .error e (d.afterLog before)

@[simp] theorem Result.toExcept_afterLog (before : Log) (r : Result α) :
    (r.afterLog before).toExcept = r.toExcept := by
  cases r <;> rfl

theorem emit_afterLog (before : Log) (d : Decoder) (i : Instruction) :
    (d.afterLog before).emit i = (d.emit i).afterLog before := by
  unfold emit
  cases i.text with
  | error e => rfl
  | ok text =>
    simp only [Result.afterLog, afterLog, Log.append_debug]

theorem accept_afterLog (before : Log) (d : Decoder) (c : Blank) :
    (d.afterLog before).accept c = (d.accept c).afterLog before := by
  rw [accept_eq, accept_eq]
  have hstage : (d.afterLog before).stage = d.stage := rfl
  rw [hstage]
  cases d.stage.read c with
  | unfinished st => rfl
  | complete i => exact emit_afterLog before d i
  | wrong cause st => rfl

theorem step_afterLog (before : Log) (d : Decoder) (b : UInt8) :
    (d.afterLog before).step split b = (d.step split b).afterLog before := by
  have hlast : (d.afterLog before).lastByte = d.lastByte := rfl
  unfold step
  rw [hlast]
  cases Blank.ofByte? split d.lastByte b with
  | none => rfl
  | some c =>
    simp only [accept_afterLog]
    cases d.accept c <;> rfl

theorem feed_afterLog (before : Log) (d : Decoder) (s : List UInt8) :
    (d.afterLog before).feed split s = (d.feed split s).afterLog before := by
  induction s generalizing d with
  | nil => rfl
  | cons b s ih =>
    rw [feed, feed, step_afterLog]
    cases d.step split b with
    | ok u d' => exact ih d'
    | error e d' => rfl

theorem finish_afterLog (before : Log) (d : Decoder) :
    (d.afterLog before).finish = d.finish.afterLog before := by
  have hstage : (d.afterLog before).stage = d.stage := rfl
  unfold finish
  rw [hstage]
  split
  · simp only [Result.afterLog, afterLog, Log.append_debug]
  · rfl

/-- Pieces are decoded like the whole source, and earlier records stay in front of the log. -/
theorem run_afterLog (split : Bool) (before : Log) (d : Decoder) (cut : List (List UInt8)) :
    (d.afterLog before).run split cut = (d.run split [cut.flatten]).afterLog before := by
  unfold run
  rw [feedAll_eq_feed, feedAll_eq_feed, feed_afterLog, List.flatten_singleton]
  cases d.feed split cut.flatten with
  | ok u d' => exact finish_afterLog before d'
  | error e d' => rfl

end Decoder

/-! ## Files -/

variable {α : Type}

/-- The pieces are cut at the multiples of their size, and the last one ends with the list. -/
theorem getElem?_pieces (n : Nat) (l : List α) (k : Nat) :
    (pieces n l)[k]? =
      if k * (n + 1) < l.length then some ((l.drop (k * (n + 1))).take (n + 1)) else none := by
  fun_induction pieces n l generalizing k with
  | case1 => simp
  | case2 a rest ih =>
    cases k with
    | zero => simp
    | succ k =>
      have hdrop : (a :: rest).drop ((k + 1) * (n + 1)) = (rest.drop n).drop (k * (n + 1)) := by
        rw [List.drop_drop, Nat.succ_mul, ← Nat.add_assoc, List.drop_succ_cons, Nat.add_comm]
      have hlength : (k + 1) * (n + 1) < (a :: rest).length ↔
          k * (n + 1) < (rest.drop n).length := by
        rw [Nat.succ_mul, List.length_cons, List.length_drop]
        omega
      rw [List.getElem?_cons_succ, ih, hdrop]
      simp only [hlength]

theorem flatten_pieces (n : Nat) (l : List α) : (pieces n l).flatten = l := by
  fun_induction pieces n l with
  | case1 => rfl
  | case2 a rest ih => rw [List.flatten_cons, ih, List.cons_append, List.take_append_drop]

/-- Decoding a file is decoding its contents, with the name of the file logged first. -/
theorem decodeContents_eq (split : Bool) (path : String) (contents : List UInt8) :
    decodeContents split path contents =
      (decodeSource split contents).afterLog #[⟨.debug, "Decoding " ++ path⟩] := by
  have h := Decoder.run_afterLog split #[⟨.debug, "Decoding " ++ path⟩] {}
    (pieces (pieceSize - 1) contents)
  rw [flatten_pieces] at h
  exact h

theorem toExcept_decodeContents (split : Bool) (path : String) (contents : List UInt8) :
    (decodeContents split path contents).toExcept = decode split contents := by
  rw [decodeContents_eq, Decoder.Result.toExcept_afterLog]
  rfl

/-- Decoding does not depend on how a source is cut. Whatever state a decoder is in, pieces fed one
after the other leave it in the state, and fail with the error, that their whole does. So a file,
which is read in pieces of one size, is decoded to the program or to the error that its contents
are decoded to at once, and the decoder left differs in the log alone. -/
theorem decode_cut (split : Bool) :
    (∀ (d : Decoder) (cut : List (List UInt8)),
      d.feedAll split cut = d.feed split cut.flatten) ∧
    ∀ (path : String) (contents : List UInt8),
      (∀ k, (pieces (pieceSize - 1) contents)[k]? =
        if k * pieceSize < contents.length then
          some ((contents.drop (k * pieceSize)).take pieceSize)
        else none) ∧
      (decodeContents split path contents).toExcept = decode split contents ∧
      decodeContents split path contents =
        (decodeSource split contents).afterLog #[⟨.debug, "Decoding " ++ path⟩] := by
  refine ⟨Decoder.feedAll_eq_feed split, fun path contents => ⟨?_, ?_, ?_⟩⟩
  · exact getElem?_pieces (pieceSize - 1) contents
  · rw [decodeContents_eq, Decoder.Result.toExcept_afterLog]
    rfl
  · exact decodeContents_eq split path contents

end Whitespace
