import Mathlib.Algebra.Group.Nat.Defs
import Whitespace.Decimal

/-!
# Decimal text and back

Whatever can be written can be read back, and whatever can be read can be written: both directions
have the same limit on the number of digits, except that leading zeros count when reading.

## Main definitions

* `Decimal.Writes` — a conversion that succeeds under a condition.

## Main statements

* `Decimal.toList_text` — a number's text is its sign and its digits.
* `Decimal.read_toDigits` — reading the digits of a number within the limit.
* `Decimal.fits_of_read` — what was read is within the limit.
-/

namespace Whitespace.Decimal

theorem pow_ten (n : Nat) : Nat.pow 10 n = 10 ^ n := rfl

theorem bound_eq : bound = 10 ^ limit := by
  unfold bound
  exact pow_ten limit

theorem fits_of_lt_pow {v : Int} {n : Nat} (hv : v.natAbs < 10 ^ n) (hn : n ≤ limit) : Fits v := by
  rw [Fits, bound_eq]
  exact Nat.lt_of_lt_of_le hv (Nat.pow_le_pow_right (by omega) hn)

theorem value_eq_ofDigitChars (digits : List Char) :
    value digits = Nat.ofDigitChars 10 digits 0 := rfl

theorem value_lt_pow {digits : List Char} (h : ∀ c ∈ digits, isDigit c) :
    value digits < 10 ^ digits.length := by
  have key : ∀ (start : Nat), Nat.ofDigitChars 10 digits start < (start + 1) * 10 ^ digits.length := by
    induction digits with
    | nil => simp
    | cons c digits ih =>
      intro start
      have hc : c.toNat - '0'.toNat ≤ 9 := by
        have hdigit := h c List.mem_cons_self
        simp only [isDigit, Bool.and_eq_true, decide_eq_true_eq] at hdigit
        have hnine : c.toNat ≤ '9'.toNat := hdigit.2
        have hvalue : '9'.toNat = 57 ∧ '0'.toNat = 48 := by decide
        omega
      rw [Nat.ofDigitChars_cons, List.length_cons, Nat.pow_succ]
      calc Nat.ofDigitChars 10 digits (10 * start + (c.toNat - '0'.toNat))
          < (10 * start + (c.toNat - '0'.toNat) + 1) * 10 ^ digits.length :=
            ih (fun d hd => h d (List.mem_cons_of_mem c hd)) _
        _ ≤ ((start + 1) * 10) * 10 ^ digits.length := Nat.mul_le_mul_right _ (by omega)
        _ = (start + 1) * (10 ^ digits.length * 10) := by
          rw [Nat.mul_assoc, Nat.mul_comm 10 (10 ^ _)]
  simpa [value_eq_ofDigitChars] using key 0

/-- Reading accepts no number beyond the limit of writing. -/
theorem fits_of_read {negative : Bool} {digits : List Char} {v : Int}
    (hdigits : ∀ c ∈ digits, isDigit c) (h : read negative digits = .ok v) : Fits v := by
  unfold read at h
  split at h
  · next hlen =>
    have hlt := value_lt_pow hdigits
    cases h
    refine fits_of_lt_pow (n := digits.length) ?_ hlen
    split <;> simpa using hlt
  · cases h

theorem fits_char (c : Char) : Fits c.toNat := by
  have hlt : c.toNat < 0x110000 := by
    have := c.valid
    simp only [UInt32.isValidChar, Nat.isValidChar] at this
    change c.val.toNat < 0x110000
    omega
  refine fits_of_lt_pow (n := 7) ?_ (by decide)
  rw [Int.natAbs_natCast]
  omega

theorem toList_text (v : Int) :
    (text v).toList = (if v < 0 then ['-'] else []) ++ Nat.toDigits 10 v.natAbs := by
  unfold text
  split <;> simp

theorem isDigit_of_mem_toDigits {n : Nat} {c : Char} (h : c ∈ Nat.toDigits 10 n) : isDigit c := by
  have hc := Nat.isDigit_of_mem_toDigits (by omega) (by omega) h
  simpa [Char.isDigit, isDigit, Char.le_def] using hc

/-- Reading the digits of a number that can be written gives the number. -/
theorem read_toDigits {v : Int} (h : Fits v) :
    read (decide (v < 0)) (Nat.toDigits 10 v.natAbs) = .ok v := by
  have hlen : (Nat.toDigits 10 v.natAbs).length ≤ limit := by
    rw [Fits, bound_eq] at h
    exact (Nat.length_toDigits_le_iff (by omega) (by decide)).2 h
  rw [read, if_pos hlen, value_eq_ofDigitChars, Nat.ofDigitChars_ten_toDigits]
  by_cases hneg : v < 0
  · simp only [hneg, decide_true, if_true]
    congr 1
    omega
  · simp only [hneg, decide_false, Bool.false_eq_true, if_false]
    congr 1
    omega

/-! ## Conversions that can fail -/

section Writes

variable {α β : Type} {p q : Prop}

/-- The conversion succeeds if `p` holds, and meets a number too long to be written if not. -/
inductive Writes (p : Prop) : Except TooLong α → Prop where
  | ok (a : α) (h : p) : Writes p (.ok a)
  | tooLong (h : ¬ p) : Writes p (.error .writing)

theorem Writes.congr {x : Except TooLong α} (h : Writes p x) (hiff : p ↔ q) : Writes q x := by
  rwa [← propext hiff]

theorem Writes.bind {x : Except TooLong α} {f : α → Except TooLong β} (hx : Writes p x)
    (hf : ∀ a, Writes q (f a)) : Writes (p ∧ q) (x >>= f) := by
  cases hx with
  | ok a hp => exact (hf a).congr (by simp [hp])
  | tooLong hp => exact .tooLong fun hpq => hp hpq.1

theorem Writes.map {x : Except TooLong α} (hx : Writes p x) (f : α → β) :
    Writes p (x >>= fun a => pure (f a)) :=
  (hx.bind fun a => .ok (f a) trivial).congr (Iff.of_eq (and_true p))

theorem Writes.mapM {P : α → Prop} {f : α → Except TooLong β} (hf : ∀ a, Writes (P a) (f a))
    (xs : List α) : Writes (∀ a ∈ xs, P a) (xs.mapM f) := by
  induction xs with
  | nil => exact .ok [] nofun
  | cons a xs ih =>
    rw [List.mapM_cons]
    have hcons := (hf a).bind fun b => ih.map fun bs => b :: bs
    exact hcons.congr List.forall_mem_cons.symm

theorem writes_write (v : Int) : Writes (Fits v) (write v) := by
  by_cases h : Fits v
  · rw [write_of_fits h]
    exact .ok _ h
  · rw [(write_eq_error_iff v).2 h]
    exact .tooLong h

end Writes

end Whitespace.Decimal
