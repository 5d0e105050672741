import Mathlib.Data.List.Forall2
import Mathlib.Data.List.Induction
import Mathlib.Tactic.ByContra
import Whitespace.Program
import Whitespace.Proofs.Table

/-!
# Programs and their label tables

A program is built by adding instructions at its end. Whatever the instructions are, its label table
holds for each label that is marked the place of its last mark, and nothing else.

## Main definitions

* `Instruction.Fits` — the operand, if there is one, can be written in decimal.
* `Program.ofInstructions` — the program made of given instructions.
* `LastIndex` — the last place of an element in a list.
* `Program.join` — one program behind another.

## Main statements

* `Program.ofInstructions?_eq_some` — a program can be built unless a mark lacks its label.
* `Program.get?_labels` — the label table is the table of last marks.
* `Program.ofInstructions_append` — building a program in two parts.
-/

namespace Whitespace

namespace Instruction

/-- The operand, if there is one, is within the limit of decimal text. -/
def Fits (i : Instruction) : Prop := ∀ v, i.operand = some v → Decimal.Fits v

instance (i : Instruction) : Decidable i.Fits :=
  match h : i.operand with
  | none => .isTrue (by simp [Fits, h])
  | some v => decidable_of_iff (Decimal.Fits v) (by simp [Fits, h])

/-- An operand that fits can be shown, any other is the digit limit's failure. -/
theorem exists_text_eq_ok {i : Instruction} (h : i.Fits) : ∃ t, i.text = .ok t := by
  obtain ⟨op, _ | v⟩ := i
  · exact ⟨_, rfl⟩
  · have hv := Decimal.write_of_fits (h v rfl)
    exact ⟨op.name ++ " " ++ Decimal.text v, by simp [text, hv, Except.map]⟩

theorem text_eq_error {i : Instruction} (h : ¬ i.Fits) : i.text = .error .writing := by
  obtain ⟨op, _ | v⟩ := i
  · exact absurd (by simp [Fits]) h
  · have hv : ¬ Decimal.Fits v := fun hv => h (by simpa [Fits] using hv)
    simp [text, (Decimal.write_eq_error_iff v).2 hv, Except.map]

theorem fits_of_text_eq_ok {i : Instruction} {t : String} (h : i.text = .ok t) : i.Fits := by
  by_contra hi
  rw [text_eq_error hi] at h
  cases h

end Instruction

/-- The last place where `a` stands in a list is `k`. -/
def LastIndex {α : Type} (xs : List α) (a : α) (k : Nat) : Prop :=
  xs[k]? = some a ∧ ∀ j, k < j → xs[j]? ≠ some a

namespace LastIndex

variable {α β : Type}

theorem concat_self (xs : List α) (a : α) (k : Nat) :
    LastIndex (xs ++ [a]) a k ↔ k = xs.length := by
  constructor
  · rintro ⟨hk, hlast⟩
    have hlt := (List.getElem?_eq_some_iff.1 hk).1
    rw [List.length_append, List.length_singleton] at hlt
    by_contra hne
    exact hlast xs.length (by omega) (by simp)
  · rintro rfl
    refine ⟨by simp, fun j hj => ?_⟩
    rw [List.getElem?_eq_none (by simp; omega)]
    simp

theorem concat_of_ne (xs : List α) {a b : α} (hab : b ≠ a) (k : Nat) :
    LastIndex (xs ++ [b]) a k ↔ LastIndex xs a k := by
  have hget : ∀ j : Nat, (xs ++ [b])[j]? = some a ↔ xs[j]? = some a := by
    intro j
    rcases Nat.lt_trichotomy j xs.length with hj | rfl | hj
    · rw [List.getElem?_append_left hj]
    · simp [hab]
    · rw [List.getElem?_eq_none (by simp; omega), List.getElem?_eq_none (by omega)]
  simp only [LastIndex, ne_eq, hget]

/-- A map that takes only `a` to the image of `a` keeps the last place. -/
theorem map_iff {f : α → β} {xs : List α} {a : α} (hf : ∀ x ∈ xs, f x = f a → x = a) (k : Nat) :
    LastIndex (xs.map f) (f a) k ↔ LastIndex xs a k := by
  have hget : ∀ j : Nat, (xs.map f)[j]? = some (f a) ↔ xs[j]? = some a := by
    intro j
    rw [List.getElem?_map, Option.map_eq_some_iff]
    constructor
    · rintro ⟨x, hx, hfx⟩
      rw [hx, hf x (List.mem_of_getElem? hx) hfx]
    · intro h
      exact ⟨a, h, rfl⟩
  simp only [LastIndex, ne_eq, hget]

theorem exists_of_mem {xs : List α} {a : α} (h : a ∈ xs) :
    ∃ k, LastIndex xs a k := by
  classical
  induction xs using List.reverseRecOn with
  | nil => cases h
  | append_singleton xs b ih =>
    by_cases hb : b = a
    · subst hb
      exact ⟨xs.length, (concat_self xs b _).2 rfl⟩
    · have hmem : a ∈ xs := by simpa [Ne.symm hb] using h
      obtain ⟨k, hk⟩ := ih hmem
      exact ⟨k, (concat_of_ne xs hb k).2 hk⟩

/-- Lists that match place by place have `a` and `b` at the same places, if these match only each
other. -/
theorem iff_of_forall₂ {R : α → β → Prop} {xs : List α} {ys : List β}
    (h : List.Forall₂ R xs ys) {a : α} {b : β} (hab : ∀ x ∈ xs, ∀ y, R x y → (x = a ↔ y = b))
    (k : Nat) : LastIndex xs a k ↔ LastIndex ys b k := by
  have hget : ∀ j : Nat, xs[j]? = some a ↔ ys[j]? = some b := by
    intro j
    by_cases hj : j < xs.length
    · have hj' : j < ys.length := h.length_eq ▸ hj
      have hrel := hab _ (List.getElem_mem hj) _ (h.get hj hj')
      simpa [List.getElem?_eq_getElem hj, List.getElem?_eq_getElem hj'] using hrel
    · have hj' : ¬ j < ys.length := h.length_eq ▸ hj
      simp [hj, hj']
  simp only [LastIndex, ne_eq, hget]

end LastIndex

namespace Program

/-- The program made of the given instructions. -/
def ofInstructions (is : List Instruction) : Program := is.foldl append {}

@[simp] theorem ofInstructions_nil : ofInstructions [] = {} := rfl

@[simp] theorem ofInstructions_concat (is : List Instruction) (i : Instruction) :
    ofInstructions (is ++ [i]) = (ofInstructions is).append i := by
  simp [ofInstructions]

@[simp] theorem toList_ofInstructions (is : List Instruction) :
    (ofInstructions is).instructions.toList = is := by
  induction is using List.reverseRecOn with
  | nil => rfl
  | append_singleton is i ih => rw [ofInstructions_concat, toList_append, ih]

@[simp] theorem size_ofInstructions (is : List Instruction) :
    (ofInstructions is).size = is.length := by
  rw [size, ← Array.length_toList, toList_ofInstructions]

/-- Only a mark without its label is refused. -/
theorem ofInstructions?_eq_some {is : List Instruction}
    (h : ∀ i ∈ is, i.opcode = .mark → i.operand ≠ none) :
    ofInstructions? is = some (ofInstructions is) := by
  have key : ∀ p : Program, is.foldlM append? p = some (is.foldl append p) := by
    induction is with
    | nil => exact fun p => rfl
    | cons i is ih =>
      intro p
      have hi : append? p i = some (p.append i) := by
        have := h i List.mem_cons_self
        by_cases hm : i.opcode = .mark <;> simp_all [append?]
      rw [List.foldlM_cons, hi]
      exact ih (fun j hj => h j (List.mem_cons_of_mem i hj)) (p.append i)
  exact key {}

theorem append?_eq_some {p q : Program} {i : Instruction} (h : append? p i = some q) :
    q = p.append i := by
  unfold append? at h
  split at h
  · cases h
  · exact (Option.some.inj h).symm

/-- A program that can be built is the one made of its instructions. -/
theorem eq_ofInstructions {is : List Instruction} {p : Program} (h : ofInstructions? is = some p) :
    p = ofInstructions is := by
  unfold ofInstructions? at h
  unfold ofInstructions
  generalize ({} : Program) = r at h ⊢
  induction is generalizing r with
  | nil => exact (Option.some.inj h).symm
  | cons i is ih =>
    rw [List.foldlM_cons] at h
    obtain ⟨r', hr', hrest⟩ := Option.bind_eq_some_iff.1 h
    obtain rfl := append?_eq_some hr'
    exact ih _ hrest

/-- The label table holds the last mark of every label that is marked. -/
theorem get?_labels (is : List Instruction) (l : Int) (k : Nat) :
    (ofInstructions is).labels.get? l = some k ↔ LastIndex is ⟨.mark, some l⟩ k := by
  induction is using List.reverseRecOn with
  | nil => simp [LastIndex, show ({} : Table Int Nat) = Table.empty from rfl]
  | append_singleton is i ih =>
    rw [ofInstructions_concat, append]
    by_cases hi : i = ⟨.mark, some l⟩
    · subst hi
      have hsize := size_ofInstructions is
      simp only [size] at hsize
      simp [LastIndex.concat_self, hsize, eq_comm]
    · rw [LastIndex.concat_of_ne is hi, ← ih]
      dsimp only
      split
      · next l' hop hoperand =>
        have hl : l ≠ l' := by
          rintro rfl
          exact hi (by cases i; simp_all)
        simp [hl]
      · rfl

/-! ## One program behind another -/

/-- The instructions of `p`, then those of `q`. The labels of `q` stand that much further on, and
hide those of `p`. -/
def join (p q : Program) : Program where
  instructions := p.instructions ++ q.instructions
  labels := p.labels.override (q.labels.mapValues (p.size + ·))

theorem functional_labels (is : List Instruction) : (ofInstructions is).labels.Functional := by
  induction is using List.reverseRecOn with
  | nil => exact Table.functional_empty
  | append_singleton is i ih =>
    rw [ofInstructions_concat, append]
    dsimp only
    split
    · exact ih.insert ..
    · exact ih

theorem append_join (p : Program) {q : Program} (hq : q.labels.Functional) (i : Instruction) :
    (p.join q).append i = p.join (q.append i) := by
  unfold join append
  congr 1
  · simp
  · dsimp only
    split
    · rw [Table.mapValues_insert, Table.override_insert _ (hq.mapValues _), Array.size_append]
      rfl
    · rfl

theorem ofInstructions_append (is js : List Instruction) :
    ofInstructions (is ++ js) = (ofInstructions is).join (ofInstructions js) := by
  induction js using List.reverseRecOn with
  | nil => simp [join, Table.override, Table.mapValues, show ({} : Table Int Nat) = ⟨[]⟩ from rfl]
  | append_singleton js i ih =>
    rw [← List.append_assoc, ofInstructions_concat, ih, append_join _ (functional_labels js),
      ofInstructions_concat]

/-- A label of a joined program stands where the second part marks it, and else where the first one
does. -/
theorem get?_labels_join (p : Program) {q : Program} (hq : q.labels.Functional) (l : Int) :
    (p.join q).labels.get? l =
      ((q.labels.get? l).map (p.size + ·)).or (p.labels.get? l) := by
  rw [join, Table.get?_override _ (hq.mapValues _), Table.get?_mapValues]

end Program

end Whitespace
