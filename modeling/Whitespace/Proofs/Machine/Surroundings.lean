import Whitespace.Proofs.Machine.Safety
import Whitespace.Proofs.Machine.Walk

/-!
# What a run depends on

Of its settings a machine looks at two only, the trace and the default of heap cells. What comes
after the input is looked at where the input is exhausted: there the user may interrupt a program
that waits for more. Up to the interruption the machine goes the same way as with an input that is
closed.

## Main definitions

* `Machine.close` — the same machine with an input that ends.
* `Action.Interrupts` — an action that is another one unless it is interrupted.

## Main statements

* `Machine.run_congr` — a run depends on the trace and the default, and on no other setting.
* `Machine.exec_close`, `Machine.tick_close`, `Machine.walk_close` — an interrupted machine goes as
  far as it can.
* `Machine.safe_or_interrupted` — how a run ends that can be interrupted.
-/

namespace Whitespace

/-! ## Settings -/

namespace Machine

open Whitespace.Action

theorem runFrom_congr {m m' : Machine} (hrunning : m'.running = m.running)
    (hstep : m'.step = m.step) (log : Log) (s : State) (fuel : Nat) :
    m'.runFrom log s fuel = m.runFrom log s fuel := by
  induction fuel generalizing log s with
  | zero => rfl
  | succ fuel ih => simp only [runFrom, hrunning, hstep, ih]

/-- A run depends on the trace and the default of heap cells, and on no other setting. -/
theorem run_congr (p : Program) (ending : Input.Ending) {s s' : Settings}
    (htrace : s'.trace = s.trace) (hdefault : s'.heapDefault = s.heapDefault) :
    Machine.run { program := p, settings := s', ending } =
      Machine.run { program := p, settings := s, ending } := by
  obtain ⟨verbose, trace, dump, splitCrlf, heapDefault⟩ := s
  obtain ⟨verbose', _, dump', splitCrlf', _⟩ := s'
  cases htrace
  cases hdefault
  funext input fuel
  refine runFrom_congr ?_ ?_ #[] (start input) fuel
  · rfl
  · rfl

end Machine

/-! ## Interruptions -/

namespace Action

variable {α β : Type}

/-- The action `a` does what `b` does, unless it is interrupted. -/
def Interrupts (a b : Action α) : Prop := ∀ s, a s = b s ∨ ∃ s', a s = .error .interrupted s'

theorem Interrupts.refl (a : Action α) : Interrupts a a := fun _ => .inl rfl

theorem Interrupts.bind {a b : Action α} {g h : α → Action β} (hab : Interrupts a b)
    (hgh : ∀ x, Interrupts (g x) (h x)) : Interrupts (a >>= g) (b >>= h) := by
  intro s
  rw [bind_apply, bind_apply]
  obtain hs | ⟨s', hs⟩ := hab s
  · rw [hs]
    cases b s with
    | ok x t => exact hgh x t
    | error r t => exact .inl rfl
  · exact .inr ⟨s', by rw [hs]⟩

end Action

namespace Machine

open Whitespace.Action

/-- The same machine with an input that ends. -/
def close (m : Machine) : Machine := { m with ending := .closed }

variable {m : Machine}

theorem interrupts_readCharacter (hm : m.ending = .interrupted) :
    Interrupts m.readCharacter m.close.readCharacter := by
  intro s
  unfold readCharacter
  split
  · exact .inr ⟨s, by rw [exhausted, hm]; rfl⟩
  · exact .inl rfl

theorem interrupts_readLine (hm : m.ending = .interrupted) :
    Interrupts m.readLine m.close.readLine := by
  intro s
  unfold readLine
  split
  · exact .inl rfl
  · refine .inr ⟨s, ?_⟩
    rw [hm, exhausted, hm]
    simp [stop]

theorem interrupts_readNumber (hm : m.ending = .interrupted) :
    Interrupts m.readNumber m.close.readNumber :=
  (interrupts_readLine hm).bind fun _ => .refl _

end Machine

section Instructions

open Whitespace.Action

variable {i : Instruction} {V : Item → Prop} {c d : Spent} {m : Machine}

theorem Leads.interrupts {α : Type} {Q : α → Prop} {a : Machine → Action α}
    (h : Leads i V c d Q a) (hm : m.ending = .interrupted) : Interrupts (a m) (a m.close) := by
  cases h with
  | readCharacter => exact Machine.interrupts_readCharacter hm
  | readNumber => exact Machine.interrupts_readNumber hm
  | _ => exact .refl _

theorem Handles.interrupts {a : Machine → Action Unit} (h : Handles i (fun _ => True) c a)
    (hm : m.ending = .interrupted) : Interrupts (a m) (a m.close) := by
  induction h with
  | @last c a h =>
    have hclose : a m.close = a m := by
      refine h.congr ?_
      exact fun _ => rfl
    rw [hclose]
    exact .refl _
  | next h hg ih => exact (h.interrupts hm).bind fun x => ih x (h.trivial x)

end Instructions

namespace Machine

open Whitespace.Action

variable {m : Machine}

/-- An instruction does what it does with an input that ends, unless it is interrupted. -/
theorem exec_close (hm : m.ending = .interrupted) (i : Instruction) :
    Interrupts (m.exec i) (m.close.exec i) :=
  (exec_handles_any i).interrupts hm

theorem tick_close (hm : m.ending = .interrupted) (s : State) :
    m.tick s = m.close.tick s ∨ ∃ s', m.tick s = .ended (.stopped .interrupted) s' := by
  cases hi : m.program.instructions[s.pc]? with
  | none =>
    left
    rw [tick_of_getElem?_none hi, tick_of_getElem?_none (m := m.close) hi]
  | some i =>
    rw [tick_of_getElem? hi, tick_of_getElem? (m := m.close) hi]
    obtain hs | ⟨s', hs⟩ := exec_close hm i { s with pc := s.pc + 1 }
    · rw [hs]
      exact .inl rfl
    · rw [hs]
      exact .inr ⟨s', rfl⟩

theorem walk_close (hm : m.ending = .interrupted) (s : State) (k : Nat) :
    m.walk s k = m.close.walk s k ∨ ∃ s', m.walk s k = .ended (.stopped .interrupted) s' := by
  induction k generalizing s with
  | zero => exact .inl rfl
  | succ k ih =>
    rw [walk, walk]
    obtain hs | ⟨s', hs⟩ := tick_close hm s
    · rw [hs]
      cases m.close.tick s with
      | going t => exact ih t
      | ended ending t => exact .inl rfl
    · rw [hs]
      exact .inr ⟨s', rfl⟩

/-- A run of a proper program on a text ends in one of the safe ways, unless it is interrupted. -/
theorem safe_or_interrupted (hp : m.program.Proper) (hm : ∀ e, m.ending ≠ .undecodable e)
    {input : List Char} {fuel : Nat} {r : Run} (h : m.run input fuel = some r) :
    r.ending.Safe m.program ∨ r.ending = .stopped .interrupted := by
  cases hending : m.ending with
  | closed => exact .inl (run_safe hp hending h).2
  | undecodable e => exact absurd hending (hm e)
  | interrupted =>
    have hwalk := m.outcome_run input fuel
    rw [h] at hwalk
    obtain hs | ⟨s', hs⟩ := walk_close hending (start input) fuel
    · have hclosed := m.close.outcome_run input fuel
      rw [← hs, ← hwalk] at hclosed
      obtain ⟨r', hr', houtcome⟩ := Option.map_eq_some_iff.1 hclosed
      rw [← show r'.ending = r.ending from congrArg Prod.fst houtcome]
      exact .inl (run_safe (m := m.close) hp rfl hr').2
    · rw [hs] at hwalk
      exact .inr (congrArg Prod.fst (Option.some.inj hwalk))

end Machine

end Whitespace
