import Whitespace.Machine.Step

/-!
# Runs

A run repeats steps until the program counter leaves the program or a step stops. It need not end,
so it is given a number of steps it may take.

## Main definitions

* `Run.Ending`, `Run` — how a run ended and what it left.
* `Machine.runFrom`, `Machine.run` — runs of bounded length.
-/

namespace Whitespace

/-- How a run ended. -/
inductive Run.Ending where
  /-- The program counter left the program. -/
  | ranOff
  /-- The program halted itself. -/
  | halted
  /-- A step stopped for another reason. -/
  | stopped (reason : Stop)
  deriving DecidableEq, Repr

/-- A run that ended: how, in which state, and what it logged. -/
structure Run where
  ending : Run.Ending
  state : State
  log : Log

namespace Machine

/-- Run from a state for at most `fuel` steps; `none` when they do not suffice. -/
def runFrom (m : Machine) (log : Log) (s : State) : (fuel : Nat) → Option Run
  | 0 => none
  | fuel + 1 =>
    if m.running s then
      let t := m.step s
      match t.result with
      | .ok () s' => m.runFrom (log ++ t.log) s' fuel
      | .error .halted s' =>
        let line := "Execution halted at #" ++ (s'.pc - 1).repr
        some ⟨.halted, s', (log ++ t.log).debug line⟩
      | .error reason s' => some ⟨.stopped reason, s', log ++ t.log⟩
    else some ⟨.ranOff, s, log.debug "Execution ran off the end of the program"⟩

/-- The state in which a machine starts to read `input`. -/
def start (input : List Char) : State := { unread := input }

/-- Run a program on an input for at most `fuel` steps. -/
def run (m : Machine) (input : List Char) (fuel : Nat) : Option Run :=
  m.runFrom #[] (start input) fuel

end Machine

end Whitespace
