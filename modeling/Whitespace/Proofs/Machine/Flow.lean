import Mathlib.Logic.Relation
import Whitespace.Machine.Run
import Whitespace.Proofs.Machine.Frame

/-!
# The flow of control

Where a machine goes on is decided by the program counter and the return addresses. Only the flow
instructions touch them, each in one way, and an instruction that stops leaves them as they were.
A run follows from single steps, so whatever steps preserve holds wherever a run comes.

## Main definitions

* `State.control` — the program counter and the return addresses.
* `Flow` — what an instruction may do to them.
* `Machine.Next` — one step of a run.
* `Machine.stepped` — the state that a step leaves.

## Main statements

* `Machine.exec_flow` — what every instruction does to the flow of control.
* `Machine.step_cases`, `Machine.step_flow` — how one step ends, and where it leads.
* `Machine.runFrom_cases` — how a run ends.
-/

namespace Whitespace

/-- What decides where a machine goes on: the program counter and the return addresses. -/
def State.control (s : State) : Nat × List Nat := (s.pc, s.calls)

/-- What an instruction may do to the flow of control: nothing, go to a label, remember the next
instruction and go to a label, or go back. -/
inductive Flow (p : Program) (i : Instruction) : Nat × List Nat → Nat × List Nat → Prop where
  | on (control : Nat × List Nat) : Flow p i control control
  | jump {l : Int} {k pc : Nat} {calls : List Nat}
      (hop : i.opcode ∈ [.jump, .jumpZero, .jumpNegative]) (hl : i.operand = some l)
      (hk : p.labels.get? l = some k) : Flow p i (pc, calls) (k, calls)
  | call {l : Int} {k pc : Nat} {calls : List Nat} (hop : i.opcode = .call)
      (hl : i.operand = some l) (hk : p.labels.get? l = some k) :
      Flow p i (pc, calls) (k, pc :: calls)
  | ret {r pc : Nat} {calls : List Nat} (hop : i.opcode = .ret) :
      Flow p i (pc, r :: calls) (r, calls)

namespace Machine

open Whitespace.Action

variable (m : Machine)

/-- A target is the place of a label, or there is no way to go. -/
theorem target_cases (label : Option Int) (s : State) :
    (∃ l k, label = some l ∧ m.program.labels.get? l = some k ∧ m.target label s = .ok k s) ∨
    ∃ r, m.target label s = .error r s := by
  cases label with
  | none => exact .inr ⟨_, rfl⟩
  | some l =>
    unfold target
    dsimp only
    cases hk : m.program.labels.get? l with
    | some k => exact .inl ⟨l, k, rfl, hk, rfl⟩
    | none =>
      refine .inr ?_
      unfold raise
      dsimp only
      split
      · exact ⟨_, rfl⟩
      · exact ⟨_, rfl⟩

variable {m} {i : Instruction}

theorem jump_flow (hop : i.opcode ∈ [Opcode.jump, .jumpZero, .jumpNegative]) (s : State) :
    Flow m.program i s.control (after (m.jump i.operand s)).control := by
  rw [jump, bind_apply]
  obtain ⟨l, k, hl, hk, htarget⟩ | ⟨r, htarget⟩ := m.target_cases i.operand s
  · rw [htarget]
    exact .jump hop hl hk
  · rw [htarget]
    exact .on _

theorem call_flow (hop : i.opcode = .call) (s : State) :
    Flow m.program i s.control (after ((m.target i.operand >>= enter) s)).control := by
  rw [bind_apply]
  obtain ⟨l, k, hl, hk, htarget⟩ | ⟨r, htarget⟩ := m.target_cases i.operand s
  · rw [htarget]
    exact .call hop hl hk
  · rw [htarget]
    exact .on _

theorem leave_flow (hop : i.opcode = .ret) (s : State) :
    Flow m.program i s.control (after (leave s)).control := by
  unfold leave
  split
  · rw [keeps_raise (f := State.control)]
    exact .on _
  · next pc rest hcalls =>
    rw [State.control, hcalls]
    exact .ret hop

/-- An action in front that leaves the flow of control alone makes no difference to it. -/
theorem flow_bind {α : Type} {p : Program} {a : Action α} {g : α → Action Unit}
    (ha : Keeps State.control a) (hg : ∀ x s, Flow p i s.control (after (g x s)).control)
    (s : State) : Flow p i s.control (after ((a >>= g) s)).control := by
  have hs := ha s
  rw [bind_apply]
  cases h : a s with
  | ok x s' =>
    rw [h] at hs
    rw [← hs]
    exact hg x s'
  | error r s' =>
    rw [h] at hs
    rw [← hs]
    exact .on _

theorem flow_of_keeps {a : Action Unit} (ha : Keeps State.control a) (s : State) :
    Flow m.program i s.control (after (a s)).control := by
  rw [ha s]
  exact .on _

end Machine

section Instructions

open Machine Whitespace.Action

variable {i : Instruction} {V : Item → Prop} {c d : Spent}

/-- No action that gives a value touches the flow of control. -/
theorem Leads.keeps_control {α : Type} {Q : α → Prop} {a : Machine → Action α}
    (h : Leads i V c d Q a) (m : Machine) : Keeps State.control (a m) :=
  h.keeps (fun _ _ => rfl) (fun _ _ _ _ => rfl) m

theorem Ends.flow {a : Machine → Action Unit} (h : Ends i V c a) (m : Machine) (s : State) :
    Flow m.program i s.control (after (a m s)).control := by
  cases h with
  | jump hop => exact jump_flow hop s
  | call hop => exact call_flow hop s
  | leave hop => exact leave_flow hop s
  | pure | halt | uncounted => exact .on _
  | push => exact flow_of_keeps (keeps_push (fun _ _ => rfl) _) s
  | combine _ op => exact flow_of_keeps (keeps_combine (fun _ _ => rfl) op _ _) s
  | poke _ _ address => exact flow_of_keeps (keeps_poke (fun _ _ => rfl) address _) s
  | write _ _ text => exact flow_of_keeps (keeps_write (fun _ _ => rfl) text) s
  | duplicate => exact flow_of_keeps (keeps_duplicate fun _ _ => rfl) s
  | exchange => exact flow_of_keeps (keeps_exchange fun _ _ => rfl) s
  | slide n => exact flow_of_keeps (keeps_slide (fun _ _ => rfl) n) s

theorem Handles.flow {a : Machine → Action Unit} (h : Handles i (fun _ => True) c a) (m : Machine)
    (s : State) : Flow m.program i s.control (after (a m s)).control := by
  induction h generalizing s with
  | last h => exact h.flow m s
  | next h hg ih => exact flow_bind (h.keeps_control m) (fun x s => ih x (h.trivial x) s) s

end Instructions

namespace Machine

open Whitespace.Action

/-- What every instruction does to the flow of control, whether it stops or not. -/
theorem exec_flow (m : Machine) (i : Instruction) (s : State) :
    Flow m.program i s.control (after (m.exec i s)).control :=
  (exec_handles_any i).flow m s

variable {m : Machine}

/-! ## Steps and runs -/

/-- One step of a run leads from `s` to `s'`. -/
def Next (m : Machine) (s s' : State) : Prop :=
  m.running s = true ∧ (m.step s).result = .ok () s'

/-- While the machine runs, a step executes the instruction at the program counter; when that
succeeds, tracing it may still fail. -/
theorem step_cases {s : State} (h : m.running s = true) :
    ∃ i, m.program.instructions[s.pc]? = some i ∧
      ((∃ s', m.exec i { s with pc := s.pc + 1 } = .ok () s' ∧ (m.step s).result = .ok () s') ∨
      (∃ e s', m.exec i { s with pc := s.pc + 1 } = .ok () s' ∧
        (m.step s).result = .error (.tooLong e) s') ∨
      ∃ r s', m.exec i { s with pc := s.pc + 1 } = .error r s' ∧
        (m.step s).result = .error (locate s.pc i r) s') := by
  have hlt : s.pc < m.program.instructions.size := of_decide_eq_true h
  refine ⟨m.program.instructions[s.pc], Array.getElem?_eq_getElem hlt, ?_⟩
  generalize hi : m.program.instructions[s.pc] = i
  have hget : m.program.instructions[s.pc]? = some i := by
    rw [Array.getElem?_eq_getElem hlt, hi]
  cases hexec : m.exec i { s with pc := s.pc + 1 } with
  | error r s' =>
    refine .inr (.inr ⟨r, s', rfl, ?_⟩)
    simp only [step, advance, hget, hexec]
  | ok u s' =>
    have hadvance : m.advance s = .ok () s' := by simp only [advance, hget, hexec]
    simp only [step, hadvance, hget]
    split
    · unfold trace
      split
      · exact .inr (.inl ⟨_, s', rfl, rfl⟩)
      · split
        · exact .inr (.inl ⟨_, s', rfl, rfl⟩)
        · exact .inl ⟨s', rfl, rfl⟩
    · exact .inl ⟨s', rfl, rfl⟩

/-- The state that a step leaves, whether it succeeds or not. -/
def stepped (m : Machine) (s : State) : State := after (m.step s).result

theorem stepped_of_next {s s' : State} (h : m.Next s s') : m.stepped s = s' := by
  rw [stepped, h.2]
  rfl

/-- What a step does to the flow of control, whether it succeeds or not. -/
theorem step_flow {s : State} (h : m.running s = true) :
    ∃ i, m.program.instructions[s.pc]? = some i ∧
      Flow m.program i (s.pc + 1, s.calls) (m.stepped s).control := by
  obtain ⟨i, hi, hstep⟩ := step_cases h
  have hflow := exec_flow m i { s with pc := s.pc + 1 }
  refine ⟨i, hi, ?_⟩
  obtain ⟨s', hs', hresult⟩ | ⟨e, s', hs', hresult⟩ | ⟨reason, s', hs', hresult⟩ := hstep
  all_goals
    rw [hs'] at hflow
    rw [stepped, hresult]
    exact hflow

/-- How a run that ends comes to its end: it reaches a state behind the program, or a state in which
the next step stops. -/
theorem runFrom_cases {log : Log} {s : State} {fuel : Nat} {r : Run}
    (h : m.runFrom log s fuel = some r) :
    ∃ s', Relation.ReflTransGen m.Next s s' ∧
      ((m.running s' = false ∧ r.ending = .ranOff ∧ r.state = s') ∨
      (m.running s' = true ∧ r.ending = .halted ∧ (m.step s').result = .error .halted r.state) ∨
      ∃ reason, m.running s' = true ∧ r.ending = .stopped reason ∧ reason ≠ .halted ∧
        (m.step s').result = .error reason r.state) := by
  induction fuel generalizing log s with
  | zero => cases h
  | succ fuel ih =>
    rw [runFrom] at h
    split at h
    · next hrunning =>
      dsimp only at h
      split at h
      · next s₁ hstep =>
        obtain ⟨s', hreach, hend⟩ := ih h
        exact ⟨s', .head ⟨hrunning, hstep⟩ hreach, hend⟩
      · next s₁ hstep =>
        cases h
        exact ⟨s, .refl, .inr (.inl ⟨hrunning, rfl, hstep⟩)⟩
      · next reason s₁ hreason hstep =>
        cases h
        exact ⟨s, .refl, .inr (.inr ⟨reason, hrunning, rfl, hreason, hstep⟩)⟩
    · next hrunning =>
      cases h
      exact ⟨s, .refl, .inl ⟨by simpa using hrunning, rfl, rfl⟩⟩

end Machine

end Whitespace
