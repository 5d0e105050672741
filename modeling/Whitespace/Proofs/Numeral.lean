import Mathlib.Algebra.Group.Nat.Defs
import Whitespace.Label

/-!
# Binary numerals and labels

A numeral without leading zeros is determined by its value, and a label by its number: the one in
front of a label's digits keeps leading zeros apart.

## Main statements

* `Bits.ofNat_valueFrom` — the numeral of a value that was read goes on with the digits read.
* `Label.bits_ofBits`, `Label.ofBits_bits` — digits and numbers of labels are in bijection.
* `Label.ofName?_eq_some_iff` — the names that spell digits are exactly those of listings.
-/

namespace Whitespace

namespace Bits

/-- Reading digits after `v` and writing the result again gives the digits of `v` and those read.
The value `v` must not be zero, since zeros in front are not written. -/
theorem digitsOnto_valueFrom {v : Nat} (hv : v ≠ 0) (bits tail : List Bool) :
    digitsOnto (valueFrom v bits) tail = digitsOnto v (bits ++ tail) := by
  induction bits generalizing v with
  | nil => rfl
  | cons b bits ih =>
    have hb : b.toNat ≤ 1 := Bool.toNat_le b
    have hdiv : (2 * v + b.toNat) / 2 = v := by omega
    have hmod : ((2 * v + b.toNat) % 2 == 1) = b := by cases b <;> simp
    have hne : 2 * v + b.toNat ≠ 0 := by omega
    rw [valueFrom_cons, ih hne, digitsOnto, if_neg hne, hdiv, hmod, List.cons_append]

theorem valueFrom_ne_zero {v : Nat} (hv : v ≠ 0) (bits : List Bool) : valueFrom v bits ≠ 0 := by
  induction bits generalizing v with
  | nil => exact hv
  | cons b bits ih =>
    have hne : 2 * v + b.toNat ≠ 0 := by omega
    exact ih hne

/-- Digits behind `v` add their own value to `v` moved past them. -/
theorem valueFrom_eq (v : Nat) (bits : List Bool) :
    valueFrom v bits = v * 2 ^ bits.length + value bits := by
  induction bits generalizing v with
  | nil => simp [value]
  | cons b bits ih =>
    have hshift : v * 2 ^ (b :: bits).length = 2 * v * 2 ^ bits.length := by
      rw [List.length_cons, Nat.pow_succ', Nat.mul_comm 2 v, Nat.mul_assoc]
    rw [value, valueFrom_cons, valueFrom_cons, ih, ih, hshift, Nat.add_mul, Nat.mul_zero,
      Nat.zero_add, Nat.add_assoc]

theorem valueFrom_lt (v : Nat) (bits : List Bool) :
    valueFrom v bits < (v + 1) * 2 ^ bits.length := by
  induction bits generalizing v with
  | nil => simp
  | cons b bits ih =>
    have hb : b.toNat ≤ 1 := Bool.toNat_le b
    calc valueFrom (2 * v + b.toNat) bits
        < (2 * v + b.toNat + 1) * 2 ^ bits.length := ih _
      _ ≤ ((v + 1) * 2) * 2 ^ bits.length := Nat.mul_le_mul_right _ (by omega)
      _ = (v + 1) * 2 ^ (b :: bits).length := by
        rw [List.length_cons, Nat.pow_succ, Nat.mul_assoc, Nat.mul_comm 2]

theorem value_lt (bits : List Bool) : value bits < 2 ^ bits.length := by
  simpa [value] using valueFrom_lt 0 bits

/-- The numeral of a one followed by digits. -/
theorem ofNat_valueFrom (bits : List Bool) : ofNat (valueFrom 1 bits) = true :: bits := by
  have h := digitsOnto_valueFrom Nat.one_ne_zero bits []
  rw [ofNat, if_neg (valueFrom_ne_zero Nat.one_ne_zero bits), h, List.append_nil]
  simp [digitsOnto]

/-- The numeral of a positive number starts with a one. -/
theorem exists_ofNat_eq {n : Nat} (hn : n ≠ 0) : ∃ bits, ofNat n = true :: bits := by
  have key : ∀ (n : Nat) (tail : List Bool), n ≠ 0 → ∃ bits, digitsOnto n tail = true :: bits := by
    intro n
    induction n using Nat.strongRecOn with
    | ind n ih =>
      intro tail hn
      rw [digitsOnto, if_neg hn]
      by_cases hone : n / 2 = 0
      · have : n = 1 := by omega
        subst this
        exact ⟨tail, by simp [digitsOnto]⟩
      · exact ih (n / 2) (by omega) _ hone
  rw [ofNat, if_neg hn]
  exact key n [] hn

theorem ofNat_injective {m n : Nat} (h : ofNat m = ofNat n) : m = n := by
  rw [← value_ofNat m, h, value_ofNat]

/-- Digits behind a number that is at most three times as great. -/
theorem valueFrom_le_three_mul {u v : Nat} (h : u ≤ 3 * v) (bits : List Bool) :
    valueFrom u bits ≤ 3 * valueFrom v bits := by
  induction bits generalizing u v with
  | nil => exact h
  | cons b bits ih =>
    have hstep : 2 * u + b.toNat ≤ 3 * (2 * v + b.toNat) := by omega
    exact ih hstep

theorem toList_text (bits : List Bool) :
    (text bits).toList = bits.map fun b => if b then '1' else '0' := by
  simp [text]

end Bits

namespace Label

@[simp] theorem bits_ofBits (row : List Bool) : bits (ofBits row) = row := by
  have hneg : ¬ ((ofBits row : Nat) : Int) < 0 := by omega
  rw [bits, if_neg hneg, Int.natAbs_natCast, ofBits, Bits.ofNat_valueFrom, List.tail_cons]

/-- A number from one on is the label of its digits. -/
theorem ofBits_bits {l : Int} (hl : 1 ≤ l) : (ofBits (bits l) : Int) = l := by
  obtain ⟨row, hrow⟩ := Bits.exists_ofNat_eq (n := l.natAbs) (by omega)
  have hbits : bits l = row := by
    rw [bits, if_neg (by omega), hrow, List.tail_cons]
  have hvalue : ofBits row = l.natAbs := by
    rw [← Bits.value_ofNat l.natAbs, hrow]
    rfl
  rw [hbits, hvalue]
  omega

theorem one_le_ofBits (row : List Bool) : 1 ≤ ofBits row :=
  Nat.one_le_iff_ne_zero.2 (Bits.valueFrom_ne_zero Nat.one_ne_zero row)

/-- The label that has a numeral as its digits is not much greater than the number. -/
theorem ofBits_ofNat_le (n : Nat) : ofBits (Bits.ofNat n) ≤ 3 * n + 2 := by
  by_cases hn : n = 0
  · subst hn
    decide
  · obtain ⟨bits, hbits⟩ := Bits.exists_ofNat_eq hn
    have hvalue : Bits.valueFrom 1 bits = n := by
      rw [← Bits.value_ofNat n, hbits]
      rfl
    have hlabel : ofBits (Bits.ofNat n) = Bits.valueFrom 3 bits := by
      rw [hbits]
      rfl
    have hle := Bits.valueFrom_le_three_mul (u := 3) (v := 1) (by omega) bits
    omega

theorem digits?_map (row : List Bool) :
    digits? (row.map fun b => if b then '1' else '0') = some row := by
  induction row with
  | nil => rfl
  | cons b row ih => cases b <;> simp [digits?, ih]

theorem digits?_eq_some_iff {s : List Char} {row : List Bool} :
    digits? s = some row ↔ s = row.map fun b => if b then '1' else '0' := by
  constructor
  · intro h
    fun_induction digits? s generalizing row with
    | case1 => simp_all
    | case2 rest ih =>
      obtain ⟨tail, htail, rfl⟩ := Option.map_eq_some_iff.1 h
      simp [ih htail]
    | case3 rest ih =>
      obtain ⟨tail, htail, rfl⟩ := Option.map_eq_some_iff.1 h
      simp [ih htail]
    | case4 => simp at h
  · rintro rfl
    exact digits?_map row

/-- A name spells digits exactly when it is an `L` followed by them. -/
theorem ofName?_eq_some_iff {name : String} {row : List Bool} :
    ofName? name = some row ↔ name = "L" ++ Bits.text row := by
  have htext : name = "L" ++ Bits.text row ↔
      name.toList = 'L' :: row.map fun b => if b then '1' else '0' := by
    rw [← String.toList_inj, String.toList_append, Bits.toList_text]
    rfl
  rw [htext, ofName?]
  split
  · next rest hrest => simp [hrest, digits?_eq_some_iff]
  · next hother =>
    constructor
    · intro h
      cases h
    · intro h
      exact absurd h (hother _)

/-- The name that a listing gives to a label spells its digits. -/
theorem ofName?_name (l : Int) : ofName? (name l) = some (bits l) :=
  ofName?_eq_some_iff.2 rfl

theorem name_injective {l m : Int} (hl : 1 ≤ l) (hm : 1 ≤ m) (h : name l = name m) : l = m := by
  have hbits : bits l = bits m := by
    have := ofName?_name l
    rw [h, ofName?_name, Option.some.injEq] at this
    exact this.symm
  rw [← ofBits_bits hl, hbits, ofBits_bits hm]

end Label

end Whitespace
