import Whitespace.Proofs.Machine.Memory
import Whitespace.Proofs.Machine.Tracing

/-!
# The default of heap cells

A machine may have a default value for heap cells that were never written. A strict machine has
none and fails where it retrieves such a cell. Up to there the default is not looked at, so that the
strict machine and one with a default go the same way. The one with a default then goes on with the
default on its stack, and the cell is still not written.

## Main definitions

* `Machine.withDefault` — the same machine with another default, or none.
* `Machine.read?` — the address of the cell that the next round retrieves.
* `Machine.Strays` — the next round retrieves a cell that was never written.

## Main statements

* `Machine.exec_withDefault`, `Machine.tick_withDefault`, `Machine.walk_withDefault` — where the
  default makes no difference.
* `Machine.exec_retrieve_of_unwritten` — what the default is for.
* `Machine.default_matters_when_strict_fails` — the default matters only where the strict machine
  fails.
-/

namespace Whitespace

namespace Action

/-- The fault names the address, so a long address gets in its way. -/
theorem raise_unwritten {α : Type} (address : Item) (s : State) :
    (raise (.unwritten address) : Action α) s =
      .error (if address.Fits then .fault (.unwritten address) none else .tooLong .writing) s := by
  have htext := address.writes_text
  simp only [raise, Fault.text]
  cases h : address.text with
  | ok text =>
    rw [h] at htext
    cases htext with
    | ok _ hfits => rw [if_pos hfits]; rfl
  | error e =>
    rw [h] at htext
    cases htext with
    | tooLong hfits => rw [if_neg hfits]; rfl

end Action

namespace Machine

open Whitespace.Action

/-- The same machine with another default for cells never written, or with none. -/
def withDefault (m : Machine) (default? : Option Int) : Machine :=
  { m with settings := { m.settings with heapDefault := default? } }

/-- The address of the cell that the next round retrieves. -/
def read? (m : Machine) (s : State) : Option Item :=
  m.program.instructions[s.pc]?.bind fun i =>
    if i.opcode = .retrieve then s.stack.head? else none

/-- After `k` rounds, in the state `s`, the next round retrieves a cell that was never written. -/
structure Strays (m : Machine) (input : List Char) (k : Nat) (s : State) (address : Item) :
    Prop where
  going : m.walk (start input) k = .going s
  reads : m.read? s = some address
  unwritten : ∀ value, (address, value) ∉ m.writes (start input) k

variable {m : Machine} {i : Instruction} {s : State} {address : Item}

/-! ## Where the default makes no difference -/

/-- The default is looked at only where a cell is retrieved that was never written. -/
theorem exec_withDefault (h : i.opcode = .retrieve → ∀ address, s.stack.head? = some address →
      s.heap.get? address ≠ none) (default? : Option Int) :
    (m.withDefault default?).exec i s = m.exec i s := by
  by_cases hop : i.opcode = .retrieve
  · cases hs : s.stack with
    | nil =>
      obtain ⟨r, hr⟩ := pop_of_nil hs
      simp only [exec, hop, bind_apply, hr]
    | cons address rest =>
      obtain ⟨value, hvalue⟩ := Option.ne_none_iff_exists'.1 (h hop address (by rw [hs]; rfl))
      simp only [exec, hop, bind_apply, pop_of_cons hs, cell, hvalue]
  · refine congrFun (exec_congr ?_ ?_ ?_) s
    · exact fun h => absurd h hop
    · exact fun _ => rfl
    · exact fun _ => rfl

theorem tick_withDefault (h : ∀ address, m.read? s = some address → s.heap.get? address ≠ none)
    (default? : Option Int) : (m.withDefault default?).tick s = m.tick s := by
  cases hi : m.program.instructions[s.pc]? with
  | none => rw [tick_of_getElem?_none hi, tick_of_getElem?_none (m := m.withDefault default?) hi]
  | some i =>
    have hread (hop : i.opcode = .retrieve) : m.read? s = s.stack.head? := by
      rw [read?, hi, Option.bind_some, if_pos hop]
    rw [tick_of_getElem? hi, tick_of_getElem? (m := m.withDefault default?) hi, exec_withDefault]
    · rfl
    · exact fun hop address haddress => h address ((hread hop).trans haddress)

theorem walk_withDefault {input : List Char} {k : Nat}
    (h : ∀ j < k, ∀ s address, ¬ m.Strays input j s address) (default? : Option Int) :
    (m.withDefault default?).walk (start input) k = m.walk (start input) k := by
  induction k with
  | zero => rfl
  | succ k ih =>
    rw [walk_succ, walk_succ, ih fun j hj => h j (Nat.lt_succ_of_lt hj)]
    cases hk : m.walk (start input) k with
    | ended ending s => rfl
    | going s =>
      refine tick_withDefault (fun address hread hcell => ?_) default?
      exact h k (Nat.lt_succ_self k) s address
        ⟨hk, hread, (get?_heap_eq_none_iff hk address).1 hcell⟩

theorem writes_withDefault {input : List Char} {k : Nat}
    (h : ∀ j < k, ∀ s address, ¬ m.Strays input j s address) (default? : Option Int) :
    (m.withDefault default?).writes (start input) k = m.writes (start input) k := by
  induction k with
  | zero => rfl
  | succ k ih =>
    have hbefore := fun j hj => h j (Nat.lt_succ_of_lt hj)
    rw [writes, writes, walk_withDefault hbefore, ih hbefore]
    rfl

/-! ## Where it makes a difference -/

/-- A cell that was never written has the default, and without one there is a fault. -/
theorem exec_retrieve_of_unwritten {rest : List Item} (hop : i.opcode = .retrieve)
    (hs : s.stack = address :: rest) (hcell : s.heap.get? address = none) :
    m.exec i s =
      match m.settings.heapDefault with
      | some v => .ok () { s with stack := .number v :: rest }
      | none => .error
          (if address.Fits then .fault (.unwritten address) none else .tooLong .writing)
          { s with stack := rest } := by
  simp only [exec, hop, bind_apply, pop_of_cons hs, cell, hcell]
  cases m.settings.heapDefault with
  | some v => rfl
  | none => rw [raise_unwritten]

theorem exists_of_read? (h : m.read? s = some address) :
    ∃ i, m.program.instructions[s.pc]? = some i ∧ i.opcode = .retrieve ∧
      s.stack = address :: s.stack.tail := by
  obtain ⟨i, hi, hread⟩ := Option.bind_eq_some_iff.1 h
  obtain ⟨hop, hhead⟩ := (Option.ite_none_right_eq_some).1 hread
  exact ⟨i, hi, hop, List.eq_cons_of_mem_head? hhead⟩

/-- Retrieving a cell writes none. -/
theorem write?_of_read? (h : m.read? s = some address) : m.write? s = none := by
  obtain ⟨i, hi, hop, -⟩ := exists_of_read? h
  rw [write?, hi, Option.bind_some, written?, hop]

/-- The round in which a machine retrieves a cell that was never written. -/
theorem Strays.walk_succ {input : List Char} {k : Nat} (h : m.Strays input k s address)
    (hm : m.settings.trace = false) :
    ∃ i, m.program.instructions[s.pc]? = some i ∧ m.walk (start input) (k + 1) =
      match m.settings.heapDefault with
      | some v => .going { s with pc := s.pc + 1, stack := .number v :: s.stack.tail }
      | none => .ended
          (.stopped (if address.Fits then .fault (.unwritten address) (some (s.pc, i))
            else .tooLong .writing))
          { s with pc := s.pc + 1, stack := s.stack.tail } := by
  obtain ⟨i, hi, hop, hstack⟩ := exists_of_read? h.reads
  have hcell := (get?_heap_eq_none_iff h.going address).2 h.unwritten
  refine ⟨i, hi, ?_⟩
  rw [Machine.walk_succ, h.going, Progress.andThen, tick_of_getElem? hi,
    exec_retrieve_of_unwritten (s := { s with pc := s.pc + 1 }) hop hstack hcell]
  cases m.settings.heapDefault with
  | some v =>
    simp only [conclude, hm]
    rfl
  | none => by_cases hfits : address.Fits <;> simp only [hfits] <;> rfl

/-- Retrieving a cell that was never written does not write it. -/
theorem Strays.unwritten_succ {input : List Char} {k : Nat} (h : m.Strays input k s address)
    (value : Item) : (address, value) ∉ m.writes (start input) (k + 1) := by
  rw [writes, h.going]
  dsimp only
  rw [write?_of_read? h.reads, Option.toList_none, List.append_nil]
  exact h.unwritten value

theorem Strays.withDefault {input : List Char} {k : Nat}
    (hbefore : ∀ j < k, ∀ s address, ¬ m.Strays input j s address)
    (h : m.Strays input k s address) (default? : Option Int) :
    (m.withDefault default?).Strays input k s address where
  going := (walk_withDefault hbefore default?).trans h.going
  reads := h.reads
  unwritten := by
    rw [writes_withDefault hbefore]
    exact h.unwritten

/-- The default matters only where the strict machine fails. Without a trace, take any number of
rounds in which the machine, whatever its own default is, retrieves no cell that was never written.
After them the strict machine and the one with the default `v` have come to the same state with the
same output and the same unread input, or to the same end. If the next round retrieves a cell that
was never written, the strict machine ends there with the fault that says so, or with a number too
long to be written if the address is one; the other machine goes on with `v` in the place of the
address and the same heap, and the cell still counts as never written. -/
theorem default_matters_when_strict_fails (hm : m.settings.trace = false) (v : Int)
    (input : List Char) (k : Nat) (hbefore : ∀ j < k, ∀ s address, ¬ m.Strays input j s address) :
    (m.withDefault (some v)).walk (start input) k = (m.withDefault none).walk (start input) k ∧
    ((m.withDefault (some v)).run input k).map Run.outcome =
      ((m.withDefault none).run input k).map Run.outcome ∧
    ∀ s address, m.Strays input k s address →
      (m.withDefault none).walk (start input) k = .going s ∧
      (∃ i, m.program.instructions[s.pc]? = some i ∧
        (m.withDefault none).walk (start input) (k + 1) =
          .ended (.stopped (if address.Fits then .fault (.unwritten address) (some (s.pc, i))
            else .tooLong .writing)) { s with pc := s.pc + 1, stack := s.stack.tail }) ∧
      (m.withDefault (some v)).walk (start input) (k + 1) =
        .going { s with pc := s.pc + 1, stack := .number v :: s.stack.tail } ∧
      ∀ value, (address, value) ∉ (m.withDefault (some v)).writes (start input) (k + 1) := by
  have hwalk : (m.withDefault (some v)).walk (start input) k =
      (m.withDefault none).walk (start input) k :=
    (walk_withDefault hbefore _).trans (walk_withDefault hbefore _).symm
  refine ⟨hwalk, ?_, fun s address hstray => ?_⟩
  · rw [outcome_run, outcome_run, hwalk]
  · have hstrict := hstray.withDefault hbefore none
    have hlenient := hstray.withDefault hbefore (some v)
    obtain ⟨_, -, hnext⟩ := hlenient.walk_succ hm
    exact ⟨hstrict.going, hstrict.walk_succ hm, hnext, hlenient.unwritten_succ⟩

/-- A cell is written and retrieved, and then another one is retrieved. -/
theorem default_matters_when_strict_fails_second :
    ∃ m : Machine,
      (m.withDefault none).walk (start []) 7 = .ended
        (.stopped (.fault (.unwritten (.number (-2))) (some (6, ⟨.retrieve, none⟩))))
        { pc := 7, stack := [.number 5], heap := ⟨[(.number 1, .number 5)]⟩ } ∧
      (m.withDefault (some 0)).walk (start []) 7 = .going
        { pc := 7, stack := [.number 0, .number 5], heap := ⟨[(.number 1, .number 5)]⟩ } := by
  let m : Machine := { program := ⟨#[⟨.push, some 1⟩, ⟨.push, some 5⟩, ⟨.store, none⟩,
    ⟨.push, some 1⟩, ⟨.retrieve, none⟩, ⟨.push, some (-2)⟩, ⟨.retrieve, none⟩], {}⟩ }
  have hwritten : ∀ j < 6, ∀ address ∈ m.read? (m.walk (start []) j).state,
      address ∈ (m.writes (start []) j).map Prod.fst := by decide +kernel
  have hbefore : ∀ j < 6, ∀ s address, ¬ m.Strays [] j s address := by
    rintro j hj s address ⟨hgoing, hreads, hunwritten⟩
    have haddress := hwritten j hj address (by rw [hgoing]; exact hreads)
    obtain ⟨⟨_, value⟩, hmem, rfl⟩ := List.mem_map.1 haddress
    exact hunwritten value hmem
  have hwrites : m.writes (start []) 6 = [(.number 1, .number 5)] := by decide +kernel
  obtain ⟨-, -, hstray⟩ := default_matters_when_strict_fails (m := m) rfl 0 [] 6 hbefore
  obtain ⟨-, ⟨i, hi, hstrict⟩, hlenient, -⟩ := hstray
    { pc := 6, stack := [.number (-2), .number 5], heap := ⟨[(.number 1, .number 5)]⟩ }
    (.number (-2)) ⟨by decide +kernel, by decide +kernel, by simp [hwrites]⟩
  cases hi
  rw [if_pos (by decide +kernel)] at hstrict
  exact ⟨m, hstrict, hlenient⟩

end Machine

end Whitespace
