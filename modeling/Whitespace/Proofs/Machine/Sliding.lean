import Whitespace.Proofs.Machine.Failure
import Whitespace.Proofs.Machine.Playback

/-!
# Sliding

Sliding takes items away from below the top of the stack. A swap and a discard do the same for one
item: the swap brings the second item to the top, and the discard takes it away. So a slide can be
replaced by as many swaps and discards as it takes items away, as long as there are enough items;
otherwise it fails and leaves the stack alone.

## Main definitions

* `swapDiscards` — a number of swaps, each with a discard behind it.

## Main statements

* `Machine.performs_swapDiscards` — what they leave of a stack.
* `Machine.exec_slide`, `Machine.exec_slide_eq_error` — when a slide succeeds, and when it fails.
* `Machine.performs_copy_slide` — a copy that replaces what lies above the original.
* `Machine.slide_agrees` — a slide and the swaps and discards that can stand for it.
-/

namespace Whitespace

/-- Swap the two top items and discard the one that is then on top, a number of times. -/
def swapDiscards : (count : Nat) → List Instruction
  | 0 => []
  | count + 1 => ⟨.swap, none⟩ :: ⟨.discard, none⟩ :: swapDiscards count

theorem Action.raise_reported {α : Type} (f : Fault) (s : State) :
    ∃ r, r.Reported ∧ (raise f : Action α) s = .error r s := by
  unfold raise
  split
  · exact ⟨.fault f none, trivial, rfl⟩
  · next e _ => exact ⟨.tooLong e, trivial, rfl⟩

namespace Machine

open Whitespace.Action

variable {s : State} {top : Item} {rest : List Item} {n : Int}

/-- The second item is swapped to the top and discarded, one item after the other. -/
theorem performs_swapDiscards (m : Machine) {count : Nat} (hs : s.stack = top :: rest)
    (hcount : count ≤ rest.length) :
    Performs m (swapDiscards count) s
      { s with pc := s.pc + 2 * count, stack := top :: rest.drop count } := by
  induction count generalizing s rest with
  | zero =>
    rw [List.drop_zero, ← hs]
    exact .done s
  | succ count ih =>
    obtain ⟨second, rest, rfl⟩ := List.exists_cons_of_length_pos (Nat.zero_lt_of_lt hcount)
    have hswap : m.exec ⟨.swap, none⟩ { s with pc := s.pc + 1 } =
        .ok () { s with pc := s.pc + 1, stack := second :: top :: rest } := by
      simp only [exec, exchange, hs]
    have hothers := ih (s := { s with pc := s.pc + 2, stack := top :: rest }) rfl
      (Nat.le_of_succ_le_succ hcount)
    rw [show s.pc + 2 * (count + 1) = s.pc + 2 + 2 * count by omega, List.drop_succ_cons]
    exact .next hswap rfl (.next rfl rfl hothers)

theorem exec_slide (m : Machine) (count : Nat) (hs : s.stack = top :: rest)
    (hcount : count ≤ rest.length) :
    m.exec ⟨.slide, some count⟩ s = .ok () { s with stack := top :: rest.drop count } := by
  have hnonneg : ¬ (count : Int) < 0 := by omega
  simp only [exec, withCount, slide, hnonneg, if_false, hs, Int.toNat_natCast, hcount, if_true]

/-- Without enough items, and with a negative number of them, there is no slide. -/
theorem exec_slide_eq_error (m : Machine) (h : n < 0 ∨ s.stack.length ≤ n) :
    ∃ r, r.Reported ∧ m.exec ⟨.slide, some n⟩ s = .error r s := by
  simp only [exec, withCount, slide]
  by_cases hneg : n < 0
  · simp only [hneg, if_true]
    exact raise_reported _ s
  · simp only [hneg, if_false]
    cases hs : s.stack with
    | nil => exact raise_reported _ s
    | cons top rest =>
      have hdeep : ¬ n.toNat ≤ rest.length := by
        simp only [hs, List.length_cons] at h
        omega
      simp only [hdeep, if_false]
      exact raise_reported _ s

/-- An item is copied to the top, and everything from there to the original is slid away. -/
theorem performs_copy_slide (m : Machine) {count : Nat} {x : Item} (hx : s.stack[count]? = some x) :
    Performs m [⟨.copy, some count⟩, ⟨.slide, some (count + 1)⟩] s
      { s with pc := s.pc + 2, stack := x :: s.stack.drop (count + 1) } := by
  obtain ⟨hlt, -⟩ := List.getElem?_eq_some_iff.1 hx
  have hnonneg : ¬ (count : Int) < 0 := by omega
  have hcopy : m.exec ⟨.copy, some count⟩ { s with pc := s.pc + 1 } =
      .ok () { s with pc := s.pc + 1, stack := x :: s.stack } := by
    simp only [exec, withCount, bind_apply, peek, hnonneg, if_false, Int.toNat_natCast, hx, push]
  have hslide := exec_slide m (s := { s with pc := s.pc + 2, stack := x :: s.stack }) (count + 1)
    rfl hlt
  exact .next hcopy rfl (.next hslide rfl (.done _))

/-- A slide succeeds exactly if its number is not negative and there are more items than that. It
then leaves the stack without the items right below the top, and so do as many swaps and discards,
all of which succeed. Otherwise it fails and leaves everything as it is. A copy of an item with a
slide behind it leaves that item in place of everything down to the original. -/
theorem slide_agrees (m : Machine) (s : State) (n : Int) :
    ((∃ s', m.exec ⟨.slide, some n⟩ s = .ok () s') ↔ 0 ≤ n ∧ n < s.stack.length) ∧
    (0 ≤ n ∧ n < s.stack.length →
      ∃ stack, stack = s.stack.take 1 ++ s.stack.drop (n.toNat + 1) ∧
        m.exec ⟨.slide, some n⟩ s = .ok () { s with stack := stack } ∧
        Performs m (swapDiscards n.toNat) s { s with pc := s.pc + 2 * n.toNat, stack := stack }) ∧
    (¬ (0 ≤ n ∧ n < s.stack.length) →
      ∃ r, r.Reported ∧ m.exec ⟨.slide, some n⟩ s = .error r s) ∧
    (0 ≤ n ∧ n < s.stack.length →
      ∃ x, s.stack[n.toNat]? = some x ∧
        Performs m [⟨.copy, some n⟩, ⟨.slide, some (n + 1)⟩] s
          { s with pc := s.pc + 2, stack := x :: s.stack.drop (n.toNat + 1) }) := by
  by_cases h : 0 ≤ n ∧ n < s.stack.length
  · obtain ⟨count, rfl⟩ := Int.eq_ofNat_of_zero_le h.1
    have hlt : count < s.stack.length := by omega
    obtain ⟨top, rest, hs⟩ := List.exists_cons_of_length_pos (Nat.zero_lt_of_lt hlt)
    have hle : count ≤ rest.length := by
      simp only [hs, List.length_cons] at hlt
      omega
    have hstack : top :: rest.drop count = s.stack.take 1 ++ s.stack.drop (count + 1) := by
      simp [hs]
    have hslide := exec_slide m count hs hle
    have hswaps := performs_swapDiscards m hs hle
    have hcopy := performs_copy_slide m (List.getElem?_eq_getElem hlt)
    exact ⟨iff_of_true ⟨_, hslide⟩ h, fun _ => ⟨_, hstack, hslide, hswaps⟩,
      fun hnot => absurd h hnot, fun _ => ⟨_, List.getElem?_eq_getElem hlt, hcopy⟩⟩
  · obtain ⟨r, hr, hfails⟩ := exec_slide_eq_error m (n := n) (s := s) (by omega)
    refine ⟨iff_of_false ?_ h, fun hin => absurd hin h, fun _ => ⟨r, hr, hfails⟩,
      fun hin => absurd hin h⟩
    rintro ⟨s', hs'⟩
    cases hs'.symm.trans hfails

/-- All items but the top one are slid away, and one more cannot be. -/
theorem slide_agrees_bottom :
    ∃ m : Machine, ∃ s : State, s.stack = [.number 7, .nothing, .number 5] ∧
      m.exec ⟨.slide, some 2⟩ s = .ok () { s with stack := [.number 7] } ∧
      Performs m (swapDiscards 2) s { s with pc := 4, stack := [.number 7] } ∧
      (∃ r, r.Reported ∧ m.exec ⟨.slide, some 3⟩ s = .error r s) ∧
      Performs m [⟨.copy, some 2⟩, ⟨.slide, some 3⟩] s
        { s with pc := 2, stack := [.number 5] } := by
  let m : Machine := { program := ⟨#[], {}⟩ }
  let s : State := { stack := [.number 7, .nothing, .number 5] }
  obtain ⟨-, hslides, -, hcopies⟩ := slide_agrees m s 2
  obtain ⟨-, -, hfails, -⟩ := slide_agrees m s 3
  obtain ⟨_, rfl, hslide, hswaps⟩ := hslides (by decide)
  obtain ⟨x, hx, hcopy⟩ := hcopies (by decide)
  cases hx
  exact ⟨m, s, rfl, hslide, hswaps, hfails (by decide), hcopy⟩

end Machine

end Whitespace
