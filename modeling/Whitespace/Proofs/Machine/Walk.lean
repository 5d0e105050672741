import Whitespace.Machine.Run
import Whitespace.Proofs.Machine.Frame

/-!
# Walks

A walk is a run that is looked at after a number of steps. It is either still going or has ended
before, and then it stays where it ended. A run of bounded length is a walk together with the
records that were logged on the way.

## Main definitions

* `Progress` — how far a walk has come.
* `Machine.conclude` — what a step makes of what its instruction did.
* `Machine.tick` — one round of a run: leave if the program counter is behind the program, and take
  a step otherwise.
* `Machine.walk` — a number of rounds.

## Main statements

* `Machine.step_result` — a step executes an instruction and concludes.
* `Machine.walk_succ` — the last round of a walk.
* `Machine.walk_of_ended` — a walk that has ended stays where it ended.
* `Machine.outcome_run` — how a run ends is how the walk ends.
-/

namespace Whitespace

/-- The way in which a run ends when a step stops. -/
def Run.Ending.ofStop : Stop → Run.Ending
  | .halted => .halted
  | reason => .stopped reason

/-- How a run ended, and the state that it left. -/
def Run.outcome (r : Run) : Run.Ending × State := (r.ending, r.state)

/-- How far a walk has come. -/
inductive Progress where
  /-- Every step so far has led to a next state. -/
  | going (s : State)
  /-- The walk has come to an end. -/
  | ended (ending : Run.Ending) (s : State)
  deriving DecidableEq, Repr

namespace Progress

/-- The state that a walk has come to. -/
def state : Progress → State
  | going s => s
  | ended _ s => s

/-- Go on with a walk that has not ended. -/
def andThen : Progress → (State → Progress) → Progress
  | going s, f => f s
  | ended ending s, _ => ended ending s

/-- Change the state that a walk has come to. -/
def map (f : State → State) : Progress → Progress
  | going s => going (f s)
  | ended ending s => ended ending (f s)

/-- What is known of a walk that has ended. -/
def outcome? : Progress → Option (Run.Ending × State)
  | going _ => none
  | ended ending s => some (ending, s)

/-- Where a step leads. -/
def ofResult : EStateM.Result Stop State Unit → Progress
  | .ok _ s => going s
  | .error reason s => ended (.ofStop reason) s

theorem andThen_assoc (p : Progress) (f g : State → Progress) :
    (p.andThen f).andThen g = p.andThen fun s => (f s).andThen g := by
  cases p <;> rfl

@[simp] theorem state_ofResult (result : EStateM.Result Stop State Unit) :
    (ofResult result).state = Action.after result := by
  cases result <;> rfl

/-- A walk that goes on after a part of it went on after that part. -/
theorem andThen_eq_going_iff {p : Progress} {f : State → Progress} {s : State} :
    p.andThen f = going s ↔ ∃ t, p = going t ∧ f t = going s := by
  cases p <;> simp [andThen]

end Progress

namespace Machine

open Whitespace.Action

variable (m : Machine)

/-- What a step makes of what its instruction did: it traces a success if it is asked to, and says
where a fault happened. -/
def conclude (pc : Nat) (i : Instruction) :
    EStateM.Result Stop State Unit → EStateM.Result Stop State Unit
  | .ok _ s => if m.settings.trace then (trace pc i s).result else .ok () s
  | .error reason s => .error (locate pc i reason) s

/-- One round of a run. -/
def tick (s : State) : Progress :=
  if m.running s then .ofResult (m.step s).result else .ended .ranOff s

/-- The first rounds of a run. -/
def walk (s : State) : (rounds : Nat) → Progress
  | 0 => .going s
  | rounds + 1 => (m.tick s).andThen fun s' => walk s' rounds

variable {m} {s s' : State}

theorem step_result {i : Instruction} (hi : m.program.instructions[s.pc]? = some i) :
    (m.step s).result = m.conclude s.pc i (m.exec i { s with pc := s.pc + 1 }) := by
  simp only [step, advance, hi]
  cases m.exec i { s with pc := s.pc + 1 } with
  | error reason s' => rfl
  | ok _ s' =>
    simp only [conclude]
    split <;> rfl

/-- Neither a trace nor the place of a fault changes the state. -/
@[simp] theorem after_conclude (m : Machine) (pc : Nat) (i : Instruction)
    (result : EStateM.Result Stop State Unit) : after (m.conclude pc i result) = after result := by
  cases result with
  | error reason s => rfl
  | ok _ s =>
    simp only [conclude]
    split
    · unfold trace
      split
      · rfl
      · split <;> rfl
    · rfl

theorem tick_of_running (h : m.running s = true) :
    m.tick s = .ofResult (m.step s).result := if_pos h

theorem tick_of_not_running (h : m.running s = false) : m.tick s = .ended .ranOff s := by
  rw [tick, h]
  rfl

/-- Behind the program, a round ends the run. -/
theorem tick_of_getElem?_none (hi : m.program.instructions[s.pc]? = none) :
    m.tick s = .ended .ranOff s :=
  tick_of_not_running (decide_eq_false (Nat.not_lt.2 (Array.getElem?_eq_none_iff.1 hi)))

/-- In the program, a round executes an instruction and concludes. -/
theorem tick_of_getElem? {i : Instruction} (hi : m.program.instructions[s.pc]? = some i) :
    m.tick s = .ofResult (m.conclude s.pc i (m.exec i { s with pc := s.pc + 1 })) := by
  obtain ⟨hlt, -⟩ := Array.getElem?_eq_some_iff.1 hi
  rw [tick_of_running (decide_eq_true hlt), step_result hi]

/-- Without a trace, a round goes on where its instruction leads. -/
theorem tick_eq_going_iff {i : Instruction} (hm : m.settings.trace = false)
    (hi : m.program.instructions[s.pc]? = some i) :
    m.tick s = .going s' ↔ m.exec i { s with pc := s.pc + 1 } = .ok () s' := by
  rw [tick_of_getElem? hi]
  cases m.exec i { s with pc := s.pc + 1 } with
  | ok _ t => simp [conclude, hm, Progress.ofResult]
  | error r t => simp [conclude, Progress.ofResult]

/-- The last round of a walk. -/
theorem walk_succ (m : Machine) (s : State) (k : Nat) :
    m.walk s (k + 1) = (m.walk s k).andThen m.tick := by
  induction k generalizing s with
  | zero =>
    rw [walk, walk, Progress.andThen]
    cases m.tick s <;> rfl
  | succ k ih =>
    rw [walk, walk, Progress.andThen_assoc]
    congr 1
    funext t
    exact ih t

/-- A walk that has ended stays where it ended. -/
theorem walk_of_ended {ending : Run.Ending} {k n : Nat} (h : m.walk s k = .ended ending s')
    (hle : k ≤ n) : m.walk s n = .ended ending s' := by
  induction hle with
  | refl => exact h
  | step _ ih =>
    rw [walk_succ, ih]
    rfl

/-- A run of bounded length ends as the walk of that length does, and in the same state. -/
theorem outcome_runFrom (m : Machine) (log : Log) (s : State) (fuel : Nat) :
    (m.runFrom log s fuel).map Run.outcome = (m.walk s fuel).outcome? := by
  induction fuel generalizing log s with
  | zero => rfl
  | succ fuel ih =>
    rw [runFrom, walk]
    split
    · next hrunning =>
      rw [tick_of_running hrunning]
      dsimp only
      split
      · next s' hstep =>
        rw [hstep]
        exact ih _ s'
      · next s' hstep =>
        rw [hstep]
        rfl
      · next reason s' hreason hstep =>
        rw [hstep]
        cases reason with
        | halted => exact absurd rfl hreason
        | _ => rfl
    · next hrunning =>
      rw [tick_of_not_running (by simpa using hrunning)]
      rfl

theorem outcome_run (m : Machine) (input : List Char) (fuel : Nat) :
    (m.run input fuel).map Run.outcome = (m.walk (start input) fuel).outcome? :=
  m.outcome_runFrom #[] (start input) fuel

end Machine

end Whitespace
