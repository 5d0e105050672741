import Mathlib.Data.List.TakeWhile
import Mathlib.Data.Nat.Digits.Defs
import Whitespace.Proofs.Assembly.Tokens
import Whitespace.Proofs.Machine.Input

/-!
# Reading a number

A number is read from a line of its own. The line may have space at both ends, a sign, and at least
one digit; nothing else may stand on it. Whatever the line holds, it is taken off the input as a
whole, so the next read starts at the next line.

## Main definitions

* `IntegerLine` — the lines that hold one decimal integer.
* `Decimal.signed` — the integer that a sign and a row of digits denote.

## Main statements

* `integerLine?_eq_some_iff` — the lines that are understood are those that hold an integer.
* `Machine.readLine_of_firstLine`, `Machine.readNumber_of_firstLine` — reading the first line.
* `Machine.readNumber_reads` — what reading a number comes to, on every input.
-/

namespace Whitespace

open Assembly (Stops stops_cons takeWhile_append_of_stops dropWhile_append_of_stops)
open Assembly.Cursor (IsSign)

/-- The line holds one decimal integer: space, a sign or none, one digit or more, and space. -/
inductive IntegerLine (negative : Bool) (digits : List Char) : List Char → Prop where
  | intro (before sign behind : List Char) (hbefore : ∀ a ∈ before, Text.isSpace a)
      (hsign : IsSign negative sign) (hne : digits ≠ []) (hdigits : ∀ a ∈ digits, Decimal.isDigit a)
      (hbehind : ∀ a ∈ behind, Text.isSpace a) :
      IntegerLine negative digits (before ++ (sign ++ (digits ++ behind)))

/-- The integer that a sign and a row of digits denote: the digits count tens from the right. -/
def Decimal.signed (negative : Bool) (digits : List Char) : Int :=
  let magnitude : Nat := Nat.ofDigits 10 (digits.reverse.map fun a => a.toNat - '0'.toNat)
  if negative then -(magnitude : Int) else magnitude

/-! ## Digits and signs -/

theorem not_isSpace_of_isDigit {a : Char} (h : Decimal.isDigit a) : Text.isSpace a = false := by
  simp only [Decimal.isDigit, Bool.and_eq_true, decide_eq_true_eq] at h
  have hzero : 48 ≤ a.toNat := h.1
  have hnine : a.toNat ≤ 57 := h.2
  simp only [Text.isSpace]
  grind

/-- Digits are read from the left, each one after ten times what came before it. -/
theorem Decimal.value_eq_ofDigits (digits : List Char) :
    value digits = Nat.ofDigits 10 (digits.reverse.map fun a => a.toNat - '0'.toNat) := by
  simp only [value, Nat.ofDigits_eq_foldr, List.foldr_map, List.foldr_reverse, Nat.cast_id,
    Nat.add_comm]

/-- A row of digits within the limit is read as the integer that it denotes. -/
theorem Decimal.read_eq_signed (negative : Bool) (digits : List Char) :
    read negative digits =
      if digits.length ≤ limit then .ok (signed negative digits)
      else .error (.reading digits.length) := by
  simp only [read, signed, value_eq_ofDigits]

/-- A sign is split off a text that goes on without one. -/
theorem Text.splitSign_append {negative : Bool} {sign t : List Char} (hsign : IsSign negative sign)
    (ht : Stops (fun a => a = '+' ∨ a = '-') t) : splitSign (sign ++ t) = (negative, t) := by
  rcases hsign with ⟨rfl, rfl | rfl⟩ | ⟨rfl, rfl⟩
  · cases t with
    | nil => rfl
    | cons a t =>
      have ha : a ≠ '+' ∧ a ≠ '-' := by simpa using stops_cons.1 ht
      simp [splitSign, ha]
  · rfl
  · rfl

/-- What is split off a text is a sign. -/
theorem Text.exists_sign_of_splitSign (t : List Char) :
    ∃ sign, IsSign (splitSign t).1 sign ∧ t = sign ++ (splitSign t).2 := by
  unfold splitSign
  split
  · exact ⟨['-'], .inr ⟨rfl, rfl⟩, rfl⟩
  · exact ⟨['+'], .inl ⟨rfl, .inr rfl⟩, rfl⟩
  · exact ⟨[], .inl ⟨rfl, .inl rfl⟩, rfl⟩

/-! ## Lines -/

theorem integerLine_of_integerLine? {line digits : List Char} {negative : Bool}
    (h : integerLine? line = some (negative, digits)) : IntegerLine negative digits line := by
  obtain ⟨sign, hsign, hsplit⟩ := Text.exists_sign_of_splitSign (line.dropWhile Text.isSpace)
  generalize hbody : (Text.splitSign (line.dropWhile Text.isSpace)).2 = body at hsplit
  have hline : line = line.takeWhile Text.isSpace ++
      (sign ++ (body.takeWhile Decimal.isDigit ++ body.dropWhile Decimal.isDigit)) := by
    rw [List.takeWhile_append_dropWhile, ← hsplit, List.takeWhile_append_dropWhile]
  simp only [integerLine?, hbody, Bool.and_eq_true, decide_eq_true_eq, List.all_eq_true,
    Option.ite_none_right_eq_some, Option.some.injEq, Prod.mk.injEq] at h
  obtain ⟨⟨hne, hbehind⟩, rfl, rfl⟩ := h
  have hparts := IntegerLine.intro (line.takeWhile Text.isSpace) _ _
    (fun _ => List.mem_takeWhile_imp) hsign hne (fun _ => List.mem_takeWhile_imp) hbehind
  rwa [← hline] at hparts

theorem integerLine?_of_integerLine {line digits : List Char} {negative : Bool}
    (h : IntegerLine negative digits line) : integerLine? line = some (negative, digits) := by
  obtain ⟨before, sign, behind, hbefore, hsign, hne, hdigits, hbehind⟩ := h
  -- each part ends in front of the next one, which starts with no character of its class
  have hstart : Stops Text.isSpace (sign ++ (digits ++ behind)) := by
    refine hsign.stops hne hdigits ?_
    rintro a (rfl | rfl | ha)
    · decide
    · decide
    · exact not_isSpace_of_isDigit ha
  have hunsigned : Stops (fun a => a = '+' ∨ a = '-') (digits ++ behind) := by
    obtain ⟨a, row, rfl⟩ := List.exists_cons_of_ne_nil hne
    have ha := hdigits a List.mem_cons_self
    refine stops_cons.2 (decide_eq_false ?_)
    rintro (rfl | rfl) <;> simp [Decimal.isDigit] at ha
  have hend : Stops Decimal.isDigit behind := by
    intro a ha
    have hspace := hbehind a (List.mem_of_mem_head? ha)
    cases hdigit : Decimal.isDigit a with
    | false => rfl
    | true => simp [not_isSpace_of_isDigit hdigit] at hspace
  have hall : behind.all Text.isSpace := List.all_eq_true.2 hbehind
  simp only [integerLine?, dropWhile_append_of_stops hbefore hstart,
    Text.splitSign_append hsign hunsigned, takeWhile_append_of_stops hdigits hend,
    dropWhile_append_of_stops hdigits hend, hall]
  simp [hne]

/-- A line is understood exactly if it holds one decimal integer. -/
theorem integerLine?_eq_some_iff {line digits : List Char} {negative : Bool} :
    integerLine? line = some (negative, digits) ↔ IntegerLine negative digits line :=
  ⟨integerLine_of_integerLine?, integerLine?_of_integerLine⟩

theorem integerLine?_eq_none_iff {line : List Char} :
    integerLine? line = none ↔ ∀ negative digits, ¬ IntegerLine negative digits line := by
  simp only [← integerLine?_eq_some_iff, Option.eq_none_iff_forall_ne_some, Prod.forall]

/-- There is one way only in which a line holds an integer. -/
theorem IntegerLine.exists_and_iff {line digits : List Char} {negative : Bool}
    (h : IntegerLine negative digits line) {P : Bool → List Char → Prop} :
    (∃ negative' digits', IntegerLine negative' digits' line ∧ P negative' digits') ↔
      P negative digits := by
  simp only [← integerLine?_eq_some_iff, integerLine?_of_integerLine h]
  simp

theorem exists_firstLine {text : List Char} (hne : text ≠ []) :
    ∃ line rest, FirstLine text line rest := by
  by_cases hfeed : '\n' ∈ text
  · obtain ⟨body, rest, rfl, hbody⟩ := List.eq_append_cons_of_mem hfeed
    exact ⟨_, rest, .feed hbody rest⟩
  · exact ⟨text, [], .last hfeed hne⟩

/-! ## Reading -/

namespace Machine

open Whitespace.Action

variable {m : Machine} {s : State} {line rest : List Char}

theorem readLine_of_firstLine (hm : m.ending = .closed) (h : FirstLine s.unread line rest) :
    m.readLine s = .ok line { s with unread := rest } := by
  generalize hs : s.unread = text at h
  cases h with
  | feed hbody => exact readLine_feed hbody hs
  | last hfeed hne =>
    subst hs
    exact readLine_last hm hfeed hne

theorem readLine_of_nil (hm : m.ending = .closed) (hs : s.unread = []) :
    m.readLine s = .error (.fault .noLine none) s := by
  simp [readLine, hs, splitLine?, exhausted, hm, raise, Fault.text]

/-- A number is read from the first line of the input, and that line is gone. -/
theorem readNumber_of_firstLine (hm : m.ending = .closed) (h : FirstLine s.unread line rest) :
    m.readNumber s =
      match integerLine? line with
      | some (negative, digits) =>
        if digits.length ≤ Decimal.limit then
          .ok (Decimal.signed negative digits) { s with unread := rest }
        else .error (.tooLong (.reading digits.length)) { s with unread := rest }
      | none =>
        .error (.fault (.notNumber (String.ofList (Text.stripRight line))) none)
          { s with unread := rest } := by
  simp only [readNumber, bind_apply, readLine_of_firstLine hm h, Decimal.read_eq_signed]
  cases integerLine? line with
  | none => rfl
  | some shape => dsimp only; split <;> rfl

/-- Numbers are read exactly from the lines that hold one. At the end of the input there is nothing
to be read, and nothing changes. Otherwise the first line is taken off the input, whatever is on it.
It gives a number if it holds an integer of at most as many digits as the limit allows, it is too
long if it holds one of more digits, and if it holds none it is said to be no number. -/
theorem readNumber_reads (hm : m.ending = .closed) (s : State) :
    (s.unread = [] →
      ∃ f, f.kind = "InputExhausted" ∧ m.readNumber s = .error (.fault f none) s) ∧
    (s.unread ≠ [] → ∃ line rest, FirstLine s.unread line rest) ∧
    ∀ line rest, FirstLine s.unread line rest →
      after (m.readNumber s) = { s with unread := rest } ∧
      (∀ v, (∃ s', m.readNumber s = .ok v s') ↔
        ∃ negative digits, IntegerLine negative digits line ∧ digits.length ≤ Decimal.limit ∧
          v = Decimal.signed negative digits) ∧
      (∀ e, (∃ s', m.readNumber s = .error (.tooLong e) s') ↔
        ∃ negative digits, IntegerLine negative digits line ∧ Decimal.limit < digits.length ∧
          e = .reading digits.length) ∧
      ((∃ f s', f.kind = "NumberParseError" ∧ m.readNumber s = .error (.fault f none) s') ↔
        ∀ negative digits, ¬ IntegerLine negative digits line) := by
  refine ⟨fun hnil => ⟨.noLine, rfl, ?_⟩, exists_firstLine, fun line rest hline => ?_⟩
  · simp only [readNumber, bind_apply, readLine_of_nil hm hnil]
  · rw [readNumber_of_firstLine hm hline]
    cases hshape : integerLine? line with
    | none =>
      have hother := integerLine?_eq_none_iff.1 hshape
      refine ⟨rfl, ?_, ?_, ?_⟩
      · simp [hother]
      · simp [hother]
      · simp [hother, Fault.kind]
    | some shape =>
      obtain ⟨negative, digits⟩ := shape
      have hholds := integerLine?_eq_some_iff.1 hshape
      have hnot : ¬ ∀ negative digits, ¬ IntegerLine negative digits line :=
        fun hother => hother _ _ hholds
      simp only [hholds.exists_and_iff]
      by_cases hlength : digits.length ≤ Decimal.limit
      · simp only [if_pos hlength]
        refine ⟨rfl, ?_, ?_, iff_of_false (by simp) hnot⟩
        · simp [hlength, eq_comm]
        · simp [Nat.not_lt.2 hlength]
      · simp only [if_neg hlength]
        refine ⟨rfl, ?_, ?_, iff_of_false (by simp) hnot⟩
        · simp [hlength]
        · simp [Nat.not_le.1 hlength, eq_comm]

/-- A number with leading zeros, with space of several kinds around it, and then the last line, on
which no line feed stands and two signs do. -/
theorem readNumber_reads_padded :
    ∃ m : Machine, m.ending = .closed ∧
      (∃ s', m.readNumber { unread := "\u00a0\t-0042\x1c\r\n+-1".toList } = .ok (-42) s' ∧
        s' = { unread := "+-1".toList }) ∧
      ∃ f s', f.kind = "NumberParseError" ∧
        m.readNumber { unread := "+-1".toList } = .error (.fault f none) s' ∧ s' = {} := by
  let m : Machine := { program := ⟨#[], {}⟩ }
  have hfirst : FirstLine "\u00a0\t-0042\x1c\r\n+-1".toList "\u00a0\t-0042\x1c\r\n".toList
      "+-1".toList := @FirstLine.feed "\u00a0\t-0042\x1c\r".toList (by decide) "+-1".toList
  have hlast : FirstLine "+-1".toList "+-1".toList [] := .last (by decide) (by decide)
  have hholds : IntegerLine true "0042".toList "\u00a0\t-0042\x1c\r\n".toList :=
    .intro "\u00a0\t".toList ['-'] "\x1c\r\n".toList (List.all_eq_true.1 rfl) (.inr ⟨rfl, rfl⟩)
      (by decide) (List.all_eq_true.1 rfl) (List.all_eq_true.1 rfl)
  have hnone : ∀ negative digits, ¬ IntegerLine negative digits "+-1".toList :=
    integerLine?_eq_none_iff.1 (by decide)
  obtain ⟨-, -, hread⟩ := readNumber_reads (m := m) rfl
    { unread := "\u00a0\t-0042\x1c\r\n+-1".toList }
  obtain ⟨-, -, hrefuse⟩ := readNumber_reads (m := m) rfl { unread := "+-1".toList }
  obtain ⟨hleft, hnumber, -, -⟩ := hread _ _ hfirst
  obtain ⟨hleft', -, -, hfault⟩ := hrefuse _ _ hlast
  obtain ⟨s₁, hs₁⟩ := (hnumber (-42)).2 ⟨true, _, hholds, by decide, by decide⟩
  obtain ⟨f, s₂, hf, hs₂⟩ := hfault.2 hnone
  rw [hs₁] at hleft
  rw [hs₂] at hleft'
  exact ⟨m, rfl, ⟨s₁, hs₁, hleft⟩, f, s₂, hf, hs₂, hleft'⟩

end Machine

end Whitespace
