import Mathlib.Data.List.Pairwise
import Whitespace.Proofs.Decoder.Session
import Whitespace.Proofs.Listing

/-!
# Tables of marks

The label table of a program is what a jump goes by and what a listing ends with. It holds exactly
the labels that are marked, each with the place of its last mark, however the program came about: by
instructions that were added one after the other, refused ones included, or by a session with a
decoder in which calls have failed.

## Main definitions

* `Program.labelLine` — the line of a label in a listing.
* `Program.Indexed` — what a label table says of its program.

## Main statements

* `Program.add_eq` — adding step by step is adding at once.
* `Program.indexed_ofInstructions` — the table of every program that instructions build.
* `Program.labels_hold_last_marks` — the table after any additions and after any session.
-/

namespace Whitespace.Program

/-! ## Adding step by step -/

theorem append?_of_unlabelled {i : Instruction} (h : Unlabelled i) (p : Program) :
    p.append? i = none := by
  simp [append?, h.1, h.2]

theorem append?_of_labelled {i : Instruction} (h : ¬ Unlabelled i) (p : Program) :
    p.append? i = some (p.append i) := by
  rw [append?, if_neg]
  simpa [Unlabelled] using h

/-- Adding step by step is adding at once, and a refusal leaves the program as it was. -/
theorem add_eq (i : Instruction) (p : Program) :
    add i p =
      match p.append? i with
      | some q => .ok () q
      | none => .error () p := by
  obtain ⟨op, operand⟩ := i
  by_cases hop : op = .mark
  · subst hop
    cases operand <;> rfl
  · rw [append?_of_labelled fun h => hop h.1]
    cases op <;> first | rfl | exact absurd rfl hop

theorem afterAdd_eq (p : Program) (i : Instruction) : p.afterAdd i = (p.append? i).getD p := by
  rw [afterAdd, add_eq]
  cases p.append? i <;> rfl

/-- What was not refused has been added. -/
theorem addAll_eq (is : List Instruction) :
    addAll {} is = ofInstructions (is.filter fun i => ¬ Unlabelled i) := by
  induction is using List.reverseRecOn with
  | nil => rfl
  | append_singleton is i ih =>
    have hstep : addAll {} (is ++ [i]) = (addAll {} is).afterAdd i := by
      simp [addAll]
    rw [hstep, ih, afterAdd_eq]
    by_cases h : Unlabelled i
    · simp [append?_of_unlabelled h, h]
    · simp [append?_of_labelled h, h]

/-! ## What a table says -/

/-- The line of a label and its place in a listing. -/
def labelLine (e : Int × Nat) : String := "// " ++ Label.name e.1 ++ " -> #" ++ e.2.repr

/-- What the label table of a program says of it: a label is in the table if it is marked, with the
place of its last mark. So the places are inside the program and tell the labels apart, and the
listing of the table has one line for each label, in the order of the places. Labels from one on
have different names there. -/
structure Indexed (p : Program) : Prop where
  marked : ∀ l, p.labels.contains l ↔ ⟨.mark, some l⟩ ∈ p.instructions.toList
  last : ∀ l k, p.labels.get? l = some k ↔ LastIndex p.instructions.toList ⟨.mark, some l⟩ k
  inside : ∀ l k, p.labels.get? l = some k → k < p.size
  distinct : ∀ l m k, p.labels.get? l = some k → p.labels.get? m = some k → l = m
  listed : ∃ rows : List (Int × Nat),
    p.labelListing = "\n".intercalate (rows.map labelLine) ∧
    (∀ e ∈ rows, '\n' ∉ (labelLine e).toList) ∧
    (∀ l k, (l, k) ∈ rows ↔ LastIndex p.instructions.toList ⟨.mark, some l⟩ k) ∧
    (rows.map Prod.fst).Nodup ∧
    rows.Pairwise (fun e e' => e.2 < e'.2) ∧
    ∀ e ∈ rows, ∀ e' ∈ rows, 1 ≤ e.1 → 1 ≤ e'.1 → e.1 ≠ e'.1 → Label.name e.1 ≠ Label.name e'.1

theorem feed_not_mem_labelLine (e : Int × Nat) : '\n' ∉ (labelLine e).toList := by
  have htext : (labelLine e).toList = ("// ".toList ++ (Label.name e.1).toList) ++
      (" -> #".toList ++ Nat.toDigits 10 e.2) := by
    simp [labelLine]
  rw [htext, List.mem_append, List.mem_append, List.mem_append]
  rintro ((h | h) | (h | h))
  · exact absurd h (by decide)
  · simpa [Assembly.isNameChar] using (Label.isName_name e.1).2 _ h
  · exact absurd h (by decide)
  · simpa [Decimal.isDigit] using Decimal.isDigit_of_mem_toDigits h

/-- A place has one instruction, so it is the last mark of one label only. -/
theorem eq_of_lastIndex {is : List Instruction} {l m : Int} {k : Nat}
    (hl : LastIndex is ⟨.mark, some l⟩ k) (hm : LastIndex is ⟨.mark, some m⟩ k) : l = m := by
  have h := hl.1.symm.trans hm.1
  simpa using h

theorem contains_labels_iff (is : List Instruction) (l : Int) :
    (ofInstructions is).labels.contains l ↔ ⟨.mark, some l⟩ ∈ is := by
  rw [Table.contains, Option.isSome_iff_exists]
  constructor
  · rintro ⟨k, hk⟩
    exact List.mem_of_getElem? ((get?_labels is l k).1 hk).1
  · intro h
    obtain ⟨k, hk⟩ := LastIndex.exists_of_mem h
    exact ⟨k, (get?_labels is l k).2 hk⟩

/-- Sorting entries by places that are all different gives strictly increasing places. -/
theorem pairwise_mergeSort_lt {entries : List (Int × Nat)} (hnodup : entries.Nodup)
    (hplaces : ∀ e ∈ entries, ∀ e' ∈ entries, e.2 = e'.2 → e = e') :
    (entries.mergeSort fun a b => a.2 ≤ b.2).Pairwise (fun e e' => e.2 < e'.2) := by
  have hperm := List.mergeSort_perm entries (fun a b => decide (a.2 ≤ b.2))
  have hle : (entries.mergeSort fun a b => a.2 ≤ b.2).Pairwise fun a b => a.2 ≤ b.2 := by
    refine (List.pairwise_mergeSort ?_ ?_ entries).imp of_decide_eq_true
    · intro a b c hab hbc
      exact decide_eq_true (Nat.le_trans (of_decide_eq_true hab) (of_decide_eq_true hbc))
    · intro a b
      simpa using Nat.le_total a.2 b.2
  have hne : (entries.mergeSort fun a b => a.2 ≤ b.2).Pairwise (· ≠ ·) := hperm.nodup_iff.2 hnodup
  refine (hle.and hne).imp_of_mem fun {e e'} he he' h => ?_
  refine Nat.lt_of_le_of_ne h.1 fun heq => h.2 ?_
  exact hplaces e (hperm.mem_iff.1 he) e' (hperm.mem_iff.1 he') heq

/-- The table of a program that instructions build. -/
theorem indexed_ofInstructions (is : List Instruction) : (ofInstructions is).Indexed := by
  have hfunctional := functional_labels is
  have hentry (l : Int) (k : Nat) : (l, k) ∈ (ofInstructions is).labels.entries ↔
      LastIndex is ⟨.mark, some l⟩ k := by
    rw [Table.mem_entries_iff hfunctional, get?_labels]
  have hperm := List.mergeSort_perm (ofInstructions is).labels.entries
    (fun a b => decide (a.2 ≤ b.2))
  constructor
  · intro l
    rw [toList_ofInstructions, contains_labels_iff]
  · intro l k
    rw [toList_ofInstructions, get?_labels]
  · intro l k h
    rw [size_ofInstructions]
    exact (List.getElem?_eq_some_iff.1 ((get?_labels is l k).1 h).1).1
  · intro l m k hl hm
    exact eq_of_lastIndex ((get?_labels is l k).1 hl) ((get?_labels is m k).1 hm)
  · refine ⟨_, rfl, fun e _ => feed_not_mem_labelLine e, fun l k => ?_, ?_, ?_, ?_⟩
    · rw [hperm.mem_iff, hentry, toList_ofInstructions]
    · exact (hperm.map Prod.fst).nodup_iff.2 hfunctional
    · refine pairwise_mergeSort_lt (List.Nodup.of_map Prod.fst hfunctional) ?_
      rintro ⟨l, k⟩ hl ⟨m, _⟩ hm rfl
      rw [eq_of_lastIndex ((hentry l k).1 hl) ((hentry m k).1 hm)]
    · intro e _ e' _ he he' hne hname
      exact hne (Label.name_injective he he' hname)

/-- The label table is the table of last marks after any row of additions and after any session with
a decoder. Additions leave exactly the instructions that were not refused, and a refusal changes
nothing. -/
theorem labels_hold_last_marks :
    (∀ is : List Instruction, (addAll {} is).Indexed ∧
      (addAll {} is).instructions.toList = is.filter fun i => ¬ Unlabelled i) ∧
    (∀ (split : Bool) (calls : List Decoder.Call),
      (({} : Decoder).session split calls).program.Indexed) ∧
    ∀ (p : Program) (i : Instruction), add i p =
      match p.append? i with
      | some q => .ok () q
      | none => .error () p := by
  refine ⟨fun is => ?_, fun split calls => ?_, fun p i => add_eq i p⟩
  · rw [addAll_eq, toList_ofInstructions]
    exact ⟨indexed_ofInstructions _, rfl⟩
  · rw [(Decoder.orderly_initial.session split calls).built]
    exact indexed_ofInstructions _

end Whitespace.Program
