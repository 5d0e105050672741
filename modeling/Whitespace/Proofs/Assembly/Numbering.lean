import Mathlib.Data.Nat.Nth
import Mathlib.Data.Set.Finite.List
import Whitespace.Proofs.Assembly.Allocation
import Whitespace.Proofs.Assembly.Draft

/-!
# The numbers of label names

The names that do not spell digits are numbered. The first of them gets the least number whose
numeral no name of the list spells, the second gets the next one, and so on: the search for a number
goes on where the last one ended, and passes over what is taken.

## Main definitions

* `Unspelled` — the numbers whose numerals no name spells.
* `plainNames` — the names to be numbered, in order of first appearance.
* `Assignment.Counted` — the numerals that are taken when a number of names have theirs.

## Main statements

* `nextFree_eq` — the search ends at the first number that is not taken.
* `Assignment.Counted.number` — a name is given the next number.
* `counted_foldl_number` — the names of a list are given the first numbers.
* `allocate_numbers` — the digits that all names are given.
-/

namespace Whitespace.Assembly

/-- No name spells the numeral of the number. -/
def Unspelled (names : List String) (n : Nat) : Prop := "L" ++ Bits.text (Bits.ofNat n) ∉ names

instance (names : List String) : DecidablePred (Unspelled names) :=
  fun n => inferInstanceAs (Decidable ("L" ++ Bits.text (Bits.ofNat n) ∉ names))

/-- The names that do not spell digits, in order of first appearance. -/
def plainNames (names : List String) : List String :=
  (names.filter fun name => (Label.ofName? name).isNone).eraseDups

variable {names row : List String} {name : String}

theorem plainNames_concat_of_some {bits : List Bool} (h : Label.ofName? name = some bits) :
    plainNames (row ++ [name]) = plainNames row := by
  simp [plainNames, h]

theorem plainNames_concat_of_mem (hname : Label.ofName? name = none) (h : name ∈ row) :
    plainNames (row ++ [name]) = plainNames row := by
  simp [plainNames, hname, Draft.eraseDups_concat, h]

theorem plainNames_concat_of_not_mem (hname : Label.ofName? name = none) (h : name ∉ row) :
    plainNames (row ++ [name]) = plainNames row ++ [name] := by
  simp [plainNames, hname, Draft.eraseDups_concat, h]

theorem mem_plainNames {m : String} :
    m ∈ plainNames names ↔ m ∈ names ∧ ∀ bits, m ≠ "L" ++ Bits.text bits := by
  have hspells : Label.ofName? m = none ↔ ∀ bits, m ≠ "L" ++ Bits.text bits := by
    simp only [Option.eq_none_iff_forall_ne_some, ne_eq, Label.ofName?_eq_some_iff]
  simp [plainNames, hspells]

/-! ## Numbers that are not spelled -/

/-- A list spells finitely many numerals. -/
theorem infinite_unspelled (names : List String) : (Set.ofPred (Unspelled names)).Infinite := by
  have hinjective : Function.Injective fun n => "L" ++ Bits.text (Bits.ofNat n) := by
    intro a b hab
    have hbits := Label.ofName?_eq_some_iff.2 (show "L" ++ Bits.text (Bits.ofNat a) = _ from hab)
    rw [Label.ofName?_eq_some_iff.2 rfl] at hbits
    exact Bits.ofNat_injective (Option.some.inj hbits)
  have hspelled : {n | "L" ++ Bits.text (Bits.ofNat n) ∈ names}.Finite :=
    (List.finite_toSet names).preimage hinjective.injOn
  exact hspelled.infinite_compl

/-- The first of the numbers that are not spelled, up to one of them. -/
theorem lt_nth_succ_iff {n count : Nat} (hn : Unspelled names n) :
    n < Nat.nth (Unspelled names) (count + 1) ↔ n ≤ Nat.nth (Unspelled names) count := by
  have hlt : Nat.nth (Unspelled names) count < Nat.nth (Unspelled names) (count + 1) :=
    Nat.nth_strictMono (infinite_unspelled names) (Nat.lt_succ_self count)
  exact ⟨fun h => Nat.le_nth_of_lt_nth_succ h hn, fun h => Nat.lt_of_le_of_lt h hlt⟩

/-- The search ends at the first number that is not taken. -/
theorem nextFree_eq {used : List (List Bool)} {n m : Nat} (hle : n ≤ m)
    (hpassed : ∀ k, n ≤ k → k < m → Bits.ofNat k ∈ used) (hfree : Bits.ofNat m ∉ used) :
    nextFree used used.length n = m := by
  obtain ⟨hstart, htaken, -⟩ := nextFree_spec used used.length n
  have hend := nextFree_not_mem used n
  rcases Nat.lt_trichotomy (nextFree used used.length n) m with hlt | heq | hgt
  · exact absurd (hpassed _ hstart hlt) hend
  · exact heq
  · exact absurd (htaken m hle hgt) hfree

/-! ## Numbering -/

namespace Assignment

variable {a : Assignment} {count : Nat}

/-- The numerals that are taken are those that names spell and those of the first `count` numbers
that are not spelled, and the next of these numbers has not been passed. -/
structure Counted (a : Assignment) (names : List String) (count : Nat) : Prop where
  used : ∀ n, Bits.ofNat n ∈ a.used ↔
    (Unspelled names n → n < Nat.nth (Unspelled names) count)
  counter : a.counter ≤ Nat.nth (Unspelled names) count

theorem Counted.nextFree (h : a.Counted names count) :
    nextFree a.used a.used.length a.counter = Nat.nth (Unspelled names) count := by
  refine nextFree_eq h.counter (fun k _ hk => (h.used k).2 fun _ => hk) fun hmem => ?_
  have hunspelled := Nat.nth_mem_of_infinite (infinite_unspelled names) count
  exact Nat.lt_irrefl _ ((h.used _).1 hmem hunspelled)

/-- A name without digits is given the next number. -/
theorem Counted.number (h : a.Counted names count) (hname : a.labels.get? name = none) :
    (a.number name).Counted names (count + 1) ∧
      (a.number name).labels =
        a.labels.insert name (Bits.ofNat (Nat.nth (Unspelled names) count)) := by
  have hnumber : a.number name =
      ⟨a.labels.insert name (Bits.ofNat (Nat.nth (Unspelled names) count)),
        Bits.ofNat (Nat.nth (Unspelled names) count) :: a.used,
        Nat.nth (Unspelled names) count⟩ := by
    simp [Assignment.number, Table.contains, hname, h.nextFree]
  rw [hnumber]
  refine ⟨⟨fun n => ?_, ?_⟩, rfl⟩
  · have hsame : Bits.ofNat n = Bits.ofNat (Nat.nth (Unspelled names) count) ↔
        n = Nat.nth (Unspelled names) count := ⟨Bits.ofNat_injective, congrArg _⟩
    have hunspelled := Nat.nth_mem_of_infinite (infinite_unspelled names) count
    rw [List.mem_cons, hsame, h.used]
    grind [lt_nth_succ_iff]
  · exact (Nat.nth_strictMono (infinite_unspelled names)).monotone (Nat.le_succ count)

end Assignment

theorem counted_reserved (names : List String) : (reserved names).Counted names 0 := by
  constructor
  · intro n
    have hspelled : Bits.ofNat n ∈ (reserved names).used ↔ ¬ Unspelled names n := by
      rw [(sound_reserved names).used]
      simp only [get?_reserved, Label.ofName?_eq_some_iff]
      simp [Unspelled]
    have hleast (h : Unspelled names n) : Nat.nth (Unspelled names) 0 ≤ n := by
      rw [← Nat.nth_count h]
      exact Nat.nth_monotone (infinite_unspelled names) (Nat.zero_le _)
    grind
  · exact Nat.zero_le _

/-- Once the names of a row were numbered, a name has digits if it stands in the row or spells
them. -/
theorem get?_foldl_number_eq_none_iff (row : List String) (hname : name ∈ names) :
    (row.foldl Assignment.number (reserved names)).labels.get? name = none ↔
      name ∉ row ∧ Label.ofName? name = none := by
  have hsome := (foldl_number row (sound_reserved names)).2.2 name
  have hspells : (reserved names).labels.get? name = Label.ofName? name := by
    ext bits
    simp [get?_reserved, hname]
  rw [← Option.not_isSome_iff_eq_none, hsome, hspells, not_or, Option.not_isSome_iff_eq_none]

/-- The names of a row that do not spell digits are given the first numbers, in order of first
appearance. -/
theorem counted_foldl_number (hrow : row ⊆ names) :
    (row.foldl Assignment.number (reserved names)).Counted names (plainNames row).length ∧
    ∀ (k : Nat) m, (plainNames row)[k]? = some m →
      (row.foldl Assignment.number (reserved names)).labels.get? m =
        some (Bits.ofNat (Nat.nth (Unspelled names) k)) := by
  induction row using List.reverseRecOn with
  | nil => exact ⟨counted_reserved names, by simp [plainNames]⟩
  | append_singleton row name ih =>
    obtain ⟨hrow, hname⟩ : row ⊆ names ∧ name ∈ names := by simpa using hrow
    obtain ⟨hcounted, hlabels⟩ := ih hrow
    have hnone := get?_foldl_number_eq_none_iff row hname
    rw [List.foldl_append, List.foldl_cons, List.foldl_nil]
    generalize row.foldl Assignment.number (reserved names) = a at *
    by_cases hnew : a.labels.get? name = none
    · obtain ⟨hmem, hplain⟩ := hnone.1 hnew
      obtain ⟨hnext, hinsert⟩ := hcounted.number hnew
      rw [plainNames_concat_of_not_mem hplain hmem, List.length_append]
      refine ⟨hnext, fun k m hm => ?_⟩
      rw [hinsert, Table.get?_insert]
      rcases Nat.lt_or_ge k (plainNames row).length with hk | hk
      · have hbefore := hlabels k m (by rwa [List.getElem?_append_left hk] at hm)
        have hne : m ≠ name := by
          rintro rfl
          simp [hnew] at hbefore
        rw [if_neg hne, hbefore]
      · rw [List.getElem?_append_right hk, List.getElem?_singleton] at hm
        grind
    · have hplain : plainNames (row ++ [name]) = plainNames row := by
        cases hspells : Label.ofName? name with
        | some bits => exact plainNames_concat_of_some hspells
        | none =>
          refine plainNames_concat_of_mem hspells (Decidable.of_not_not fun hmem => ?_)
          exact hnew (hnone.2 ⟨hmem, hspells⟩)
      have hsame : a.number name = a := by
        rcases a.number_cases name with ⟨_, -, heq⟩ | ⟨hmissing, -⟩
        · exact heq
        · exact absurd hmissing hnew
      rw [hplain, hsame]
      exact ⟨hcounted, hlabels⟩

/-- Every name of a list gets digits, and different names get different ones. A search for a number
passes only numbers that are taken and ends at one that is not. A name that spells digits keeps
them. The others, in order of first appearance, get the numerals of the numbers from zero on, in
increasing order and without those whose numerals are spelled by a name of the list. -/
theorem allocate_numbers (names : List String) :
    (∀ used n, n ≤ nextFree used used.length n ∧
      (∀ k, n ≤ k → k < nextFree used used.length n → Bits.ofNat k ∈ used) ∧
      Bits.ofNat (nextFree used used.length n) ∉ used) ∧
    (∀ m, ((allocate names).get? m).isSome ↔ m ∈ names) ∧
    (∀ bits, "L" ++ Bits.text bits ∈ names →
      (allocate names).get? ("L" ++ Bits.text bits) = some bits) ∧
    (∀ m n bits, (allocate names).get? m = some bits → (allocate names).get? n = some bits →
      m = n) ∧
    (∀ m, m ∈ plainNames names ↔ m ∈ names ∧ ∀ bits, m ≠ "L" ++ Bits.text bits) ∧
    ∀ (k : Nat) m, (plainNames names)[k]? = some m →
      (allocate names).get? m = some (Bits.ofNat (Nat.nth (Unspelled names) k)) := by
  refine ⟨fun used n => ?_, allocate_isSome_iff names, fun bits hbits => ?_,
    fun _ _ _ => allocate_injective, fun _ => mem_plainNames,
    (counted_foldl_number (List.Subset.refl names)).2⟩
  · obtain ⟨hle, hpassed, -⟩ := nextFree_spec used used.length n
    exact ⟨hle, hpassed, nextFree_not_mem used n⟩
  · exact allocate_reserved hbits (Label.ofName?_eq_some_iff.2 rfl)

/-- The numerals of zero and one are spelled by names that stand between the others, so the two
names that are numbered get those of two and three. -/
theorem allocate_numbers_between :
    plainNames ["b", "L1", "a", "L0", "b"] = ["b", "a"] ∧
      (allocate ["b", "L1", "a", "L0", "b"]).get? "L0" = some [false] ∧
      (allocate ["b", "L1", "a", "L0", "b"]).get? "a" = some [true, true] := by
  have hplain : plainNames ["b", "L1", "a", "L0", "b"] = ["b", "a"] := by decide +kernel
  obtain ⟨-, -, hkept, -, -, hnumbered⟩ := allocate_numbers ["b", "L1", "a", "L0", "b"]
  have hcount : Nat.count (Unspelled ["b", "L1", "a", "L0", "b"]) 3 = 1 := by decide +kernel
  have hthree : Nat.nth (Unspelled ["b", "L1", "a", "L0", "b"]) 1 = 3 := by
    rw [← hcount]
    exact Nat.nth_count (by decide +kernel)
  have ha := hnumbered 1 "a" (by rw [hplain]; rfl)
  rw [hthree] at ha
  exact ⟨hplain, hkept [false] (by decide), ha.trans (by decide +kernel)⟩

end Whitespace.Assembly
