import Whitespace.Proofs.Decimal
import Whitespace.Proofs.Machine.Walk
import Whitespace.Proofs.Program

/-!
# Tracing

A machine that traces its steps takes the same steps as one that does not. After each step that
leads to a next state it writes down the instruction and the whole state, and that can fail: a trace
shows every item of the stack and the heap in decimal. So the two machines go the same way up to the
first state that holds a number beyond the limit of decimal text, and there the tracing one stops.

## Main definitions

* `State.Writable` — every number on the stack and in the heap can be written in decimal.
* `Machine.withTrace` — the same machine, tracing or not.
* `Machine.inspect` — what tracing makes of a state.

## Main statements

* `State.writes_dump` — a state can be shown exactly when it is writable.
* `Machine.tick_withTrace` — a traced round is a round without trace and an inspection.
* `Machine.trace_observes` — tracing only observes, up to the limit of decimal text.
-/

namespace Whitespace

/-! ## What traces show -/

open Decimal (Writes)

/-- The item can be written in decimal. -/
def Item.Fits : Item → Prop
  | number v => Decimal.Fits v
  | nothing => True

instance (x : Item) : Decidable x.Fits :=
  match x with
  | .number v => inferInstanceAs (Decidable (Decimal.Fits v))
  | .nothing => inferInstanceAs (Decidable True)

theorem Item.writes_text (x : Item) : Writes x.Fits x.text := by
  cases x with
  | number v => exact Decimal.writes_write v
  | nothing => exact .ok _ trivial

namespace State

/-- Every item of the stack and every address and value of the heap can be written in decimal. -/
structure Writable (s : State) : Prop where
  stack : ∀ x ∈ s.stack, x.Fits
  heap : ∀ cell ∈ s.heap.entries, cell.1.Fits ∧ cell.2.Fits

theorem writable_iff (s : State) :
    s.Writable ↔ (∀ x ∈ s.stack, x.Fits) ∧ ∀ cell ∈ s.heap.entries, cell.1.Fits ∧ cell.2.Fits :=
  ⟨fun h => ⟨h.stack, h.heap⟩, fun h => ⟨h.1, h.2⟩⟩

instance (s : State) : Decidable s.Writable := decidable_of_iff' _ s.writable_iff

theorem writes_heapText (heap : Table Item Item) :
    Writes (∀ cell ∈ heap.entries, cell.1.Fits ∧ cell.2.Fits) (heapText heap) := by
  refine Writes.map (Writes.mapM (fun cell => ?_) heap.entries) _
  exact cell.1.writes_text.bind fun address => cell.2.writes_text.map _

/-- A state can be shown exactly when it is writable. -/
theorem writes_dump (s : State) : Writes s.Writable s.dump := by
  have hstack : Writes (∀ x ∈ s.stack.reverse, x.Fits) (itemTexts s.stack.reverse) :=
    Writes.mapM Item.writes_text _
  have hdump := hstack.bind fun texts => (writes_heapText s.heap).map fun heap =>
    "PC:" ++ s.pc.repr ++ " S:" ++ Text.bracketed texts ++ " C:" ++
      Text.bracketed (s.calls.reverse.map Nat.repr) ++ " H:" ++ heap
  exact hdump.congr (by simp [writable_iff])

end State

/-! ## Steps -/

namespace Machine

/-- The same machine, tracing its steps or not. -/
def withTrace (m : Machine) (trace : Bool) : Machine :=
  { m with settings := { m.settings with trace := trace } }

/-- What tracing makes of the state that a step has led to. -/
def inspect (s : State) : Progress :=
  if s.Writable then .going s else .ended (.stopped (.tooLong .writing)) s

theorem ofResult_trace {i : Instruction} (hi : i.Fits) (pc : Nat) (s : State) :
    .ofResult (trace pc i s).result = inspect s := by
  obtain ⟨shown, hshown⟩ := Instruction.exists_text_eq_ok hi
  have hdump := s.writes_dump
  simp only [trace, hshown, inspect]
  cases h : s.dump with
  | ok text =>
    rw [h] at hdump
    cases hdump with
    | ok _ hs =>
      rw [if_pos hs]
      rfl
  | error e =>
    rw [h] at hdump
    cases hdump with
    | tooLong hs =>
      rw [if_neg hs]
      rfl

variable {m : Machine} {s s' : State}

/-- Tracing leaves the instructions alone. -/
theorem exec_withTrace (m : Machine) (trace : Bool) : (m.withTrace trace).exec = m.exec := rfl

/-- A traced round is a round without trace, and then an inspection of the state. -/
theorem tick_withTrace (hm : ∀ i ∈ m.program.instructions, i.Fits) (s : State) :
    (m.withTrace true).tick s = ((m.withTrace false).tick s).andThen inspect := by
  have hsame : (m.withTrace true).running s = (m.withTrace false).running s := rfl
  cases hrunning : (m.withTrace false).running s with
  | false =>
    rw [tick_of_not_running (hsame.trans hrunning), tick_of_not_running hrunning]
    rfl
  | true =>
    rw [tick_of_running (hsame.trans hrunning), tick_of_running hrunning]
    have hlt : s.pc < m.program.instructions.size := of_decide_eq_true hrunning
    have hi := Array.getElem?_eq_getElem hlt
    rw [step_result (m := m.withTrace true) hi, step_result (m := m.withTrace false) hi,
      exec_withTrace, exec_withTrace]
    cases m.exec m.program.instructions[s.pc] { s with pc := s.pc + 1 } with
    | error reason s' => rfl
    | ok _ s' => exact ofResult_trace (hm _ (Array.getElem_mem hlt)) s.pc s'

/-! ## Walks -/

/-- As long as every state on the way is writable, a traced walk is the walk without trace. -/
theorem walk_withTrace (hm : ∀ i ∈ m.program.instructions, i.Fits) {k : Nat}
    (hs : ∀ j ≤ k, ∀ t, (m.withTrace false).walk s j = .going t → t.Writable) :
    (m.withTrace true).walk s k = (m.withTrace false).walk s k := by
  induction k with
  | zero => rfl
  | succ k ih =>
    have hwalk := ih fun j hj => hs j (Nat.le_succ_of_le hj)
    have hlast := hs (k + 1) (Nat.le_refl _)
    rw [walk_succ] at hlast
    rw [walk_succ, walk_succ, hwalk]
    cases hk : (m.withTrace false).walk s k with
    | ended ending t => rfl
    | going t =>
      rw [hk] at hlast
      simp only [Progress.andThen, tick_withTrace hm] at hlast ⊢
      cases htick : (m.withTrace false).tick t with
      | ended ending t' => rfl
      | going t' => exact if_pos (hlast t' htick)

/-- At the first state that is not writable, a traced walk ends. -/
theorem walk_withTrace_of_not_writable (hm : ∀ i ∈ m.program.instructions, i.Fits) {k : Nat}
    (hs : ∀ j ≤ k, ∀ t, (m.withTrace false).walk s j = .going t → t.Writable)
    (hgoing : (m.withTrace false).walk s (k + 1) = .going s') (hs' : ¬ s'.Writable) :
    (m.withTrace true).walk s (k + 1) = .ended (.stopped (.tooLong .writing)) s' := by
  rw [walk_succ] at hgoing ⊢
  rw [walk_withTrace hm hs]
  obtain ⟨t, ht, htick⟩ := Progress.andThen_eq_going_iff.1 hgoing
  rw [ht, Progress.andThen, tick_withTrace hm, htick]
  exact if_neg hs'

/-- Tracing only observes. Take any number of rounds, and let every state that the machine comes to
in them without a trace be writable. Then the machine comes to the same states, with the same output
and the same unread input, when it traces, and if it ends there it ends in the same way. If the next
round leads to a state that is not writable, the tracing machine has ended there, in that state,
with a number too long to be written. -/
theorem trace_observes (hm : ∀ i ∈ m.program.instructions, i.Fits) (input : List Char) (k : Nat)
    (hs : ∀ j ≤ k, ∀ s, (m.withTrace false).walk (start input) j = .going s → s.Writable) :
    (∀ j ≤ k,
      (m.withTrace true).walk (start input) j = (m.withTrace false).walk (start input) j ∧
      ((m.withTrace true).run input j).map Run.outcome =
        ((m.withTrace false).run input j).map Run.outcome) ∧
    ∀ s, (m.withTrace false).walk (start input) (k + 1) = .going s → ¬ s.Writable →
      ∀ n, k < n →
        (m.withTrace true).walk (start input) n = .ended (.stopped (.tooLong .writing)) s ∧
        ((m.withTrace true).run input n).map Run.outcome =
          some (.stopped (.tooLong .writing), s) := by
  constructor
  · intro j hj
    have hwalk := walk_withTrace hm fun n hn => hs n (Nat.le_trans hn hj)
    refine ⟨hwalk, ?_⟩
    rw [outcome_run, outcome_run, hwalk]
  · intro s hgoing hlong n hn
    have hwalk := walk_of_ended (walk_withTrace_of_not_writable hm hs hgoing hlong) hn
    refine ⟨hwalk, ?_⟩
    rw [outcome_run, hwalk]
    rfl

/-- The greatest number that can be written is pushed, and one is added to it: without a trace the
machine goes on with the sum, and the trace of the addition fails. -/
theorem trace_observes_bound :
    ∃ m : Machine, (∀ i ∈ m.program.instructions, i.Fits) ∧
      (m.withTrace false).walk (start []) 3 =
        .going { pc := 3, stack := [.number Decimal.bound] } ∧
      (m.withTrace true).walk (start []) 2 =
        .going { pc := 2, stack := [.number 1, .number (Decimal.bound - 1)] } ∧
      (m.withTrace true).walk (start []) 3 =
        .ended (.stopped (.tooLong .writing)) { pc := 3, stack := [.number Decimal.bound] } := by
  let m : Machine := { program := ⟨#[⟨.push, some (Decimal.bound - 1)⟩, ⟨.push, some 1⟩,
    ⟨.add, none⟩], {}⟩ }
  have hm : ∀ i ∈ m.program.instructions, i.Fits := by decide +kernel
  have hwritable : ∀ j ≤ 2, ((m.withTrace false).walk (start []) j).state.Writable := by
    decide +kernel
  have hsum : (m.withTrace false).walk (start []) 3 =
      .going { pc := 3, stack := [.number Decimal.bound] } := by decide +kernel
  have hlong : ¬ State.Writable { pc := 3, stack := [.number Decimal.bound] } := by decide +kernel
  obtain ⟨hsame, hend⟩ := trace_observes hm [] 2 fun j hj s hgoing => by
    have hs := hwritable j hj
    rwa [hgoing] at hs
  refine ⟨m, hm, hsum, ?_, (hend _ hsum hlong 3 (by decide)).1⟩
  rw [(hsame 2 (by decide)).1]
  decide +kernel

end Machine

end Whitespace
