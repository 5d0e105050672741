import Mathlib.Data.List.Perm.Subperm
import Whitespace.Assembly.Labels
import Whitespace.Proofs.Numeral
import Whitespace.Proofs.Table

/-!
# The digits of label names

Names that spell digits keep them, wherever they stand in the list of names. Every other name gets
a numeral that no name before it has and that no name spells, so different names have different
digits.

## Main definitions

* `Assignment.Sound` — the digits taken are those of the names, and no two names share theirs.
* `Assignment.Dense` — no numeral below the counter is free.

## Main statements

* `nextFree_not_mem` — the search for a numeral ends at a free one.
* `allocate_isSome_iff` — the names that get digits are those of the list.
* `allocate_injective` — different names get different digits.
* `allocate_reserved` — a name that spells digits keeps them.
* `allocate_numeral` — any other name gets a numeral less than the number of names.
-/

namespace Whitespace.Assembly

/-! ## The next free numeral -/

theorem nextFree_spec (used : List (List Bool)) (fuel n : Nat) :
    n ≤ nextFree used fuel n ∧
    (∀ k, n ≤ k → k < nextFree used fuel n → Bits.ofNat k ∈ used) ∧
    (Bits.ofNat (nextFree used fuel n) ∈ used → nextFree used fuel n = n + fuel) := by
  induction fuel generalizing n with
  | zero => exact ⟨Nat.le_refl n, fun k hk hlt => by simp [nextFree] at hlt; omega, fun _ => rfl⟩
  | succ fuel ih =>
    by_cases hn : Bits.ofNat n ∈ used
    · obtain ⟨hle, hused, hend⟩ := ih (n + 1)
      simp only [nextFree, hn, if_true]
      refine ⟨by omega, fun k hk hlt => ?_, fun h => by rw [hend h]; omega⟩
      rcases Nat.eq_or_lt_of_le hk with rfl | hk
      · exact hn
      · exact hused k hk hlt
    · simp only [nextFree, hn, if_false]
      exact ⟨Nat.le_refl n, fun k hk hlt => by omega, fun h => h.elim⟩

/-- Different numbers have different numerals, so a row of numerals takes up as many places as it has
members. -/
theorem le_length_of_ofNat_mem {used : List (List Bool)} {n size : Nat}
    (h : ∀ k < size, Bits.ofNat (n + k) ∈ used) : size ≤ used.length := by
  let row := (List.range size).map fun k => Bits.ofNat (n + k)
  have hnodup : row.Nodup :=
    List.nodup_range.map fun a b hab => by have := Bits.ofNat_injective hab; omega
  have hsubset : row ⊆ used := by
    intro bits hbits
    obtain ⟨k, hk, rfl⟩ := List.mem_map.1 hbits
    exact h k (List.mem_range.1 hk)
  simpa [row] using hnodup.length_le_of_subset hsubset

/-- One more numeral than are taken cannot all be taken. -/
theorem nextFree_not_mem (used : List (List Bool)) (n : Nat) :
    Bits.ofNat (nextFree used used.length n) ∉ used := by
  intro hmem
  obtain ⟨-, hused, hend⟩ := nextFree_spec used used.length n
  have hlast := hend hmem
  have hle : used.length + 1 ≤ used.length := by
    refine le_length_of_ofNat_mem (n := n) fun k hk => ?_
    rcases Nat.lt_or_ge k used.length with hlt | hge
    · exact hused (n + k) (by omega) (by omega)
    · have hk : n + k = nextFree used used.length n := by omega
      rwa [hk]
  omega

namespace Assignment

/-- The digits that are taken are those of the names, and different names have different digits. -/
structure Sound (a : Assignment) : Prop where
  used : ∀ bits, bits ∈ a.used ↔ ∃ name, a.labels.get? name = some bits
  injective : ∀ {m n bits}, a.labels.get? m = some bits → a.labels.get? n = some bits → m = n

variable {a : Assignment}

/-- A name that has digits changes nothing, any other gets digits that are free. -/
theorem number_cases (a : Assignment) (name : String) :
    (∃ bits, a.labels.get? name = some bits ∧ a.number name = a) ∨
    (a.labels.get? name = none ∧ ∃ n, Bits.ofNat n ∉ a.used ∧
      a.number name = ⟨a.labels.insert name (Bits.ofNat n), Bits.ofNat n :: a.used, n⟩) := by
  cases hname : a.labels.get? name with
  | some bits => exact .inl ⟨bits, rfl, by simp [number, Table.contains, hname]⟩
  | none =>
    refine .inr ⟨rfl, _, nextFree_not_mem a.used a.counter, ?_⟩
    simp [number, Table.contains, hname]

theorem Sound.number (h : a.Sound) (name : String) : (a.number name).Sound := by
  rcases a.number_cases name with ⟨bits, -, heq⟩ | ⟨hname, n, hfree, heq⟩
  · rwa [heq]
  · rw [heq]
    have hother : ∀ m, a.labels.get? m ≠ some (Bits.ofNat n) := fun m hm =>
      hfree ((h.used _).2 ⟨m, hm⟩)
    constructor
    · intro bits
      rw [List.mem_cons, h.used]
      constructor
      · rintro (rfl | ⟨m, hm⟩)
        · exact ⟨name, by simp⟩
        · refine ⟨m, ?_⟩
          have : m ≠ name := by
            rintro rfl
            simp [hname] at hm
          simpa [this] using hm
      · rintro ⟨m, hm⟩
        by_cases hmn : m = name
        · left
          simpa [hmn, eq_comm] using hm
        · exact .inr ⟨m, by simpa [hmn] using hm⟩
    · intro m k bits hm hk
      simp only [Table.get?_insert] at hm hk
      split at hm <;> split at hk
      · simp [*]
      · cases hm
        exact absurd hk (hother k)
      · cases hk
        exact absurd hm (hother m)
      · exact h.injective hm hk

theorem get?_number_of_some {m name : String} {bits : List Bool}
    (h : a.labels.get? m = some bits) : (a.number name).labels.get? m = some bits := by
  rcases a.number_cases name with ⟨_, -, heq⟩ | ⟨hname, n, -, heq⟩
  · rwa [heq]
  · have hm : m ≠ name := by
      rintro rfl
      simp [hname] at h
    simpa [heq, hm] using h

theorem isSome_get?_number (a : Assignment) (name m : String) :
    ((a.number name).labels.get? m).isSome ↔ m = name ∨ (a.labels.get? m).isSome := by
  rcases a.number_cases name with ⟨bits, hname, heq⟩ | ⟨hname, n, -, heq⟩
  · rw [heq]
    refine ⟨.inr, ?_⟩
    rintro (rfl | h)
    · simp [hname]
    · exact h
  · by_cases hm : m = name <;> simp [heq, hm]

/-- The numerals below the counter are taken, and names that do not spell digits have numerals up to
it. -/
structure Dense (a : Assignment) : Prop where
  below : ∀ k < a.counter, Bits.ofNat k ∈ a.used
  numeral : ∀ {m bits}, a.labels.get? m = some bits → Label.ofName? m = none →
    ∃ n ≤ a.counter, bits = Bits.ofNat n

theorem Dense.number (h : a.Dense) (name : String) : (a.number name).Dense := by
  obtain ⟨hle, hpassed, -⟩ := nextFree_spec a.used a.used.length a.counter
  unfold Assignment.number
  split
  · exact h
  · constructor
    · intro k hk
      rcases Nat.lt_or_ge k a.counter with hlt | hge
      · exact List.mem_cons_of_mem _ (h.below k hlt)
      · exact List.mem_cons_of_mem _ (hpassed k hge hk)
    · intro m bits hm hspells
      rw [Table.get?_insert] at hm
      split at hm
      · cases hm
        exact ⟨_, Nat.le_refl _, rfl⟩
      · obtain ⟨n, hn, rfl⟩ := h.numeral hm hspells
        exact ⟨n, Nat.le_trans hn hle, rfl⟩

end Assignment

/-! ## All names -/

theorem foldl_number (names : List String) {a : Assignment} (ha : a.Sound) :
    (names.foldl Assignment.number a).Sound ∧
    (∀ m bits, a.labels.get? m = some bits →
      (names.foldl Assignment.number a).labels.get? m = some bits) ∧
    ∀ m, ((names.foldl Assignment.number a).labels.get? m).isSome ↔
      m ∈ names ∨ (a.labels.get? m).isSome := by
  induction names generalizing a with
  | nil => exact ⟨ha, fun _ _ h => h, fun m => by simp⟩
  | cons name names ih =>
    obtain ⟨hsound, hkeep, hsome⟩ := ih (ha.number name)
    refine ⟨hsound, fun m bits h => hkeep m bits (Assignment.get?_number_of_some h), fun m => ?_⟩
    rw [List.foldl_cons, hsome m, Assignment.isSome_get?_number, List.mem_cons]
    grind

/-- The first pass takes over the names that spell their digits. -/
theorem foldl_reserve (names : List String) (t : Table String (List Bool)) (ht : t.Functional) :
    (names.foldl reserve t).Functional ∧
    ∀ m bits, (names.foldl reserve t).get? m = some bits ↔
      (m ∈ names ∧ Label.ofName? m = some bits) ∨
      ((m ∈ names → Label.ofName? m = none) ∧ t.get? m = some bits) := by
  induction names generalizing t with
  | nil => exact ⟨ht, by simp⟩
  | cons name names ih =>
    have hstep : (reserve t name).Functional ∧ ∀ m bits, (reserve t name).get? m = some bits ↔
        (m = name ∧ Label.ofName? m = some bits) ∨
        ((m = name → Label.ofName? m = none) ∧ t.get? m = some bits) := by
      unfold reserve
      cases hname : Label.ofName? name with
      | none => exact ⟨ht, fun m bits => by grind⟩
      | some digits =>
        refine ⟨ht.insert name digits, fun m bits => ?_⟩
        rw [Table.get?_insert]
        grind
    obtain ⟨hfunctional, hget⟩ := ih (reserve t name) hstep.1
    refine ⟨hfunctional, fun m bits => ?_⟩
    rw [List.foldl_cons, hget m bits, hstep.2 m bits, List.mem_cons]
    grind

/-- Where the numbering of names starts. -/
def reserved (names : List String) : Assignment :=
  ⟨names.foldl reserve {}, (names.foldl reserve {}).entries.map (·.2), 0⟩

theorem get?_reserved (names : List String) (m : String) (bits : List Bool) :
    (reserved names).labels.get? m = some bits ↔ m ∈ names ∧ Label.ofName? m = some bits := by
  have h := (foldl_reserve names {} Table.functional_empty).2 m bits
  have hempty : ({} : Table String (List Bool)).get? m = none := rfl
  simpa [reserved, hempty] using h

theorem sound_reserved (names : List String) : (reserved names).Sound := by
  constructor
  · intro bits
    have hfunctional := (foldl_reserve names {} Table.functional_empty).1
    have hmem : bits ∈ (reserved names).used ↔
        ∃ name, (name, bits) ∈ (names.foldl reserve {}).entries := by
      simp [reserved]
    rw [hmem]
    exact exists_congr fun name => Table.mem_entries_iff hfunctional name bits
  · intro m n bits hm hn
    obtain ⟨-, hm⟩ := (get?_reserved names m bits).1 hm
    obtain ⟨-, hn⟩ := (get?_reserved names n bits).1 hn
    rw [Label.ofName?_eq_some_iff.1 hm, Label.ofName?_eq_some_iff.1 hn]

theorem allocate_eq (names : List String) :
    allocate names = (names.foldl Assignment.number (reserved names)).labels := rfl

/-- The names that get digits are those of the list. -/
theorem allocate_isSome_iff (names : List String) (m : String) :
    ((allocate names).get? m).isSome ↔ m ∈ names := by
  rw [allocate_eq, (foldl_number names (sound_reserved names)).2.2 m]
  refine ⟨?_, .inl⟩
  rintro (hm | hm)
  · exact hm
  · obtain ⟨bits, hbits⟩ := Option.isSome_iff_exists.1 hm
    exact ((get?_reserved names m bits).1 hbits).1

/-- Different names get different digits. -/
theorem allocate_injective {names : List String} {m n : String} {bits : List Bool}
    (hm : (allocate names).get? m = some bits) (hn : (allocate names).get? n = some bits) :
    m = n :=
  (foldl_number names (sound_reserved names)).1.injective hm hn

/-- A name that spells digits keeps them. -/
theorem allocate_reserved {names : List String} {m : String} {bits : List Bool} (hm : m ∈ names)
    (hbits : Label.ofName? m = some bits) : (allocate names).get? m = some bits :=
  (foldl_number names (sound_reserved names)).2.1 m bits
    ((get?_reserved names m bits).2 ⟨hm, hbits⟩)

theorem dense_reserved (names : List String) : (reserved names).Dense := by
  constructor
  · intro k hk
    simp [reserved] at hk
  · intro m bits hm hspells
    obtain ⟨-, hbits⟩ := (get?_reserved names m bits).1 hm
    rw [hspells] at hbits
    cases hbits

theorem dense_foldl_number (names : List String) {a : Assignment} (ha : a.Dense) :
    (names.foldl Assignment.number a).Dense := by
  induction names generalizing a with
  | nil => exact ha
  | cons name names ih => exact ih (ha.number name)

/-- A name that does not spell digits gets the numeral of a number less than there are names. -/
theorem allocate_numeral {names : List String} {m : String} {bits : List Bool}
    (hm : (allocate names).get? m = some bits) (hspells : Label.ofName? m = none) :
    ∃ n < names.length, bits = Bits.ofNat n := by
  obtain ⟨hsound, -, -⟩ := foldl_number names (sound_reserved names)
  have hdense := dense_foldl_number names (dense_reserved names)
  obtain ⟨n, hn, rfl⟩ := hdense.numeral hm hspells
  refine ⟨n, ?_, rfl⟩
  -- all numerals up to this one are taken by names of the list
  let used := names.filterMap (allocate names).get?
  have hused (k : Nat) (hk : k < n + 1) : Bits.ofNat (0 + k) ∈ used := by
    rw [Nat.zero_add]
    obtain ⟨name, hname⟩ : ∃ name, (allocate names).get? name = some (Bits.ofNat k) := by
      rcases Nat.lt_or_eq_of_le (Nat.le_of_lt_succ hk) with hlt | rfl
      · exact (hsound.used _).1 (hdense.below k (Nat.lt_of_lt_of_le hlt hn))
      · exact ⟨m, hm⟩
    refine List.mem_filterMap.2 ⟨name, ?_, hname⟩
    exact (allocate_isSome_iff names name).1 (by rw [hname]; rfl)
  have hle : n + 1 ≤ used.length := le_length_of_ofNat_mem hused
  have hlength : used.length ≤ names.length := List.length_filterMap_le _ _
  omega

end Whitespace.Assembly
