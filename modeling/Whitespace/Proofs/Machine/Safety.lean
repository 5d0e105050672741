import Whitespace.Proofs.Decoder.Soundness
import Whitespace.Proofs.Machine.Flow
import Whitespace.Proofs.Machine.Soundness

/-!
# Safety

A machine that runs a decoded program stays within it. The program counter never passes the end, a
return address always stands behind a call, and a step that does not lead to a next one is a halt
that the program asked for, a fault that says where it happened, or a number beyond the limit of
decimal text.

## Main definitions

* `Program.Proper` — instructions are well-formed and labels stand inside the program.
* `Program.BehindCall` — where return addresses stand.
* `State.InBounds` — the program counter and the return addresses are within a program.
* `Machine.SafeStep`, `Run.Ending.Safe` — how a step, and a run, may end.

## Main statements

* `Machine.inBounds_step` — a step keeps within the bounds, also when it stops.
* `Machine.safeStep_of_numeric` — a step of a machine that holds only numbers is safe.
* `Machine.inBounds_of_reaches`, `Machine.run_safe` — so is every run.
* `Machine.safe_of_decode` — the machine is safe on every decoded program.
-/

namespace Whitespace

/-- Every instruction is well-formed and every label stands inside the program. -/
structure Program.Proper (p : Program) : Prop where
  wellFormed : ∀ (k : Nat) i, p.instructions[k]? = some i → i.WellFormed
  labels : ∀ l k, p.labels.get? l = some k → k < p.size

theorem proper_of_decode {split : Bool} {source : List UInt8} {p : Program}
    (h : decode split source = .ok p) : p.Proper := by
  obtain ⟨is, rfl, his⟩ := decode_sound h
  refine ⟨fun k i hi => ?_, fun l k hk => ?_⟩
  · rw [← Array.getElem?_toList, Program.toList_ofInstructions] at hi
    exact (his i (List.mem_of_getElem? hi)).1
  · have hlast := ((Program.get?_labels is l k).1 hk).1
    rw [Program.size_ofInstructions]
    exact (List.getElem?_eq_some_iff.1 hlast).1

/-- The address stands right behind a call of the program. -/
def Program.BehindCall (p : Program) (r : Nat) : Prop :=
  1 ≤ r ∧ r ≤ p.size ∧ ∃ i, p.instructions[r - 1]? = some i ∧ i.opcode = .call

/-- The program counter is not past the end of the program, and every return address stands right
behind a call. -/
structure State.InBounds (p : Program) (s : State) : Prop where
  pc_le : s.pc ≤ p.size
  calls : ∀ r ∈ s.calls, p.BehindCall r

/-- How the step that executes `i` at `pc` may end: it leads to a next state, the instruction is a
halt, a fault names the instruction and its place, or a number is beyond the limit of decimal
text. -/
inductive Machine.SafeStep (pc : Nat) (i : Instruction) :
    EStateM.Result Stop State Unit → Prop where
  | next (s : State) : SafeStep pc i (.ok () s)
  | halted (s : State) (h : i.opcode = .halt) : SafeStep pc i (.error .halted s)
  | fault (f : Fault) (s : State) : SafeStep pc i (.error (.fault f (some (pc, i))) s)
  | tooLong (e : Decimal.TooLong) (s : State) : SafeStep pc i (.error (.tooLong e) s)

/-- How a run of a program may end: behind the last instruction, at a halt, with a fault that names
an instruction of the program and its place, or at a number beyond the limit of decimal text. -/
inductive Run.Ending.Safe (p : Program) : Run.Ending → Prop where
  | ranOff : Safe p .ranOff
  | halted : Safe p .halted
  | fault (f : Fault) {pc : Nat} {i : Instruction} (h : p.instructions[pc]? = some i) :
      Safe p (.stopped (.fault f (some (pc, i))))
  | tooLong (e : Decimal.TooLong) : Safe p (.stopped (.tooLong e))

/-! ## Bounds -/

namespace State.InBounds

variable {p : Program} {s s' : State} {i : Instruction}

theorem start (p : Program) (input : List Char) : (Machine.start input).InBounds p :=
  ⟨Nat.zero_le _, nofun⟩

/-- An instruction of the program that starts behind its own place keeps within the bounds. -/
theorem flow (hp : p.Proper) {k : Nat} (hi : p.instructions[k]? = some i) (hpc : s.pc = k + 1)
    (hs : s.InBounds p) (hflow : Flow p i s.control s'.control) : s'.InBounds p := by
  obtain ⟨pc, stack, calls, heap, unread, output⟩ := s
  obtain ⟨pc', stack', calls', heap', unread', output'⟩ := s'
  obtain ⟨hle, hcalls⟩ := hs
  simp only [control] at hflow hle hcalls hpc
  subst hpc
  cases hflow with
  | on => exact ⟨hle, hcalls⟩
  | jump hop hl hk => exact ⟨Nat.le_of_lt (hp.labels _ _ hk), hcalls⟩
  | call hop hl hk =>
    have hbehind : p.BehindCall (k + 1) := ⟨by omega, hle, i, hi, hop⟩
    exact ⟨Nat.le_of_lt (hp.labels _ _ hk), List.forall_mem_cons.2 ⟨hbehind, hcalls⟩⟩
  | ret hop =>
    rw [List.forall_mem_cons] at hcalls
    exact ⟨hcalls.1.2.1, hcalls.2⟩

end State.InBounds

namespace Machine

open Whitespace.Action

variable {m : Machine} {s s' : State} {input : List Char}

/-- The state that a step leaves is the one that the instruction leaves. -/
theorem inBounds_step (hp : m.program.Proper) (hs : s.InBounds m.program)
    (h : m.running s = true) : (after (m.step s).result).InBounds m.program := by
  have hlt : s.pc < m.program.size := of_decide_eq_true h
  obtain ⟨i, hi, hflow⟩ := step_flow h
  have hfetched : State.InBounds m.program { s with pc := s.pc + 1 } := ⟨hlt, hs.calls⟩
  exact hfetched.flow hp hi rfl hflow

/-! ## Steps and runs -/

/-- While the machine holds only numbers, a step ends in one of the safe ways, and a step that leads
to a next state leaves numbers again. -/
theorem safeStep_of_numeric (hp : m.program.Proper) (hm : m.ending = .closed) (hs : s.Numeric)
    (h : m.running s = true) :
    ∃ i, m.program.instructions[s.pc]? = some i ∧ SafeStep s.pc i (m.step s).result ∧
      ∀ s', (m.step s).result = .ok () s' → s'.Numeric := by
  obtain ⟨i, hi, hstep⟩ := step_cases h
  refine ⟨i, hi, ?_⟩
  by_cases hop : i.opcode = .halt
  · have hexec : m.exec i { s with pc := s.pc + 1 } = .error .halted { s with pc := s.pc + 1 } := by
      simp only [exec, hop, stop]
    obtain ⟨s', hs', -⟩ | ⟨e, s', hs', -⟩ | ⟨r, s', hs', hresult⟩ := hstep
    · simp [hexec] at hs'
    · simp [hexec] at hs'
    · rw [hexec] at hs'
      cases hs'
      rw [hresult]
      exact ⟨.halted _ hop, nofun⟩
  · have hfetched : State.Numeric { s with pc := s.pc + 1 } := ⟨hs.stack, hs.heap⟩
    have hexec := exec_sound hm (hp.wellFormed _ _ hi) hop _ hfetched
    obtain ⟨s', hs', hresult⟩ | ⟨e, s', hs', hresult⟩ | ⟨r, s', hs', hresult⟩ := hstep
    · rw [hs'] at hexec
      rw [hresult]
      cases hexec with
      | ok _ hnumeric =>
        refine ⟨.next s', fun t ht => ?_⟩
        cases ht
        exact hnumeric
    · rw [hresult]
      exact ⟨.tooLong e s', nofun⟩
    · rw [hs'] at hexec
      rw [hresult]
      cases hexec with
      | error hr =>
        cases hr with
        | fault f => exact ⟨.fault f s', nofun⟩
        | tooLong e => exact ⟨.tooLong e s', nofun⟩

/-- A division by zero is not carried out. -/
theorem step_divisorZero {i : Instruction} (hi : m.program.instructions[s.pc]? = some i)
    (hop : i.opcode = .div ∨ i.opcode = .mod) (hzero : s.stack.head? = some (.number 0)) :
    (m.step s).result =
      .error (.fault .divisorZero (some (s.pc, i))) { s with pc := s.pc + 1 } := by
  obtain ⟨rest, hstack⟩ : ∃ rest, s.stack = .number 0 :: rest := List.head?_eq_some_iff.1 hzero
  have hdivision : ∀ op, division op { s with pc := s.pc + 1 } =
      .error (.fault .divisorZero none) { s with pc := s.pc + 1 } := by
    intro op
    rw [division, bind_apply]
    simp only [divisor, hstack, if_true, raise, Fault.text]
  have hexec : m.exec i { s with pc := s.pc + 1 } =
      .error (.fault .divisorZero none) { s with pc := s.pc + 1 } := by
    rcases hop with hop | hop
    · simp only [exec, hop, hdivision]
    · simp only [exec, hop, hdivision]
  simp only [step, advance, hi, hexec, locate]

/-- Wherever a run comes, the machine is within the program and holds only numbers. -/
theorem inBounds_of_reaches (hp : m.program.Proper) (hm : m.ending = .closed)
    (h : Relation.ReflTransGen m.Next (start input) s) : s.InBounds m.program ∧ s.Numeric := by
  induction h with
  | refl => exact ⟨.start _ input, nofun, nofun⟩
  | tail _ hnext ih =>
    obtain ⟨hrunning, hresult⟩ := hnext
    have hbounds := inBounds_step hp ih.1 hrunning
    rw [hresult] at hbounds
    obtain ⟨i, -, -, hnumeric⟩ := safeStep_of_numeric hp hm ih.2 hrunning
    exact ⟨hbounds, hnumeric _ hresult⟩

/-- A run that ends leaves a state within the program, and ends in one of the safe ways. -/
theorem run_safe (hp : m.program.Proper) (hm : m.ending = .closed) {fuel : Nat} {r : Run}
    (h : m.run input fuel = some r) : r.state.InBounds m.program ∧ r.ending.Safe m.program := by
  obtain ⟨s, hreach, hend⟩ := runFrom_cases h
  obtain ⟨hbounds, hnumeric⟩ := inBounds_of_reaches hp hm hreach
  obtain ⟨-, hending, hstate⟩ | ⟨hrunning, hending, hresult⟩ |
    ⟨reason, hrunning, hending, hreason, hresult⟩ := hend
  · rw [hending, hstate]
    exact ⟨hbounds, .ranOff⟩
  · have hleft := inBounds_step hp hbounds hrunning
    rw [hresult] at hleft
    rw [hending]
    exact ⟨hleft, .halted⟩
  · have hleft := inBounds_step hp hbounds hrunning
    obtain ⟨i, hi, hsafe, -⟩ := safeStep_of_numeric hp hm hnumeric hrunning
    rw [hresult] at hleft hsafe
    rw [hending]
    refine ⟨hleft, ?_⟩
    cases hsafe with
    | halted => exact absurd rfl hreason
    | fault f => exact .fault f hi
    | tooLong e => exact .tooLong e

/-- A machine is safe on every decoded program, whatever its settings and its input. Wherever a run
comes, the program counter and the return addresses are within the program; while the machine runs,
the next step ends in one of the safe ways, within the program again, and it does not divide by
zero; and a run that ends does so in one of the safe ways. -/
theorem safe_of_decode {split : Bool} {source : List UInt8} {m : Machine}
    (hp : decode split source = .ok m.program) (hm : m.ending = .closed) (input : List Char) :
    (∀ s, Relation.ReflTransGen m.Next (start input) s →
      s.InBounds m.program ∧
      (m.running s = true → ∃ i, m.program.instructions[s.pc]? = some i ∧
        SafeStep s.pc i (m.step s).result ∧
        (after (m.step s).result).InBounds m.program ∧
        (i.opcode = .div ∨ i.opcode = .mod → s.stack.head? = some (.number 0) →
          ∃ s', (m.step s).result = .error (.fault .divisorZero (some (s.pc, i))) s'))) ∧
    ∀ fuel r, m.run input fuel = some r →
      r.state.InBounds m.program ∧ r.ending.Safe m.program := by
  have hproper := proper_of_decode hp
  refine ⟨fun s hreach => ?_, fun fuel r hrun => run_safe hproper hm hrun⟩
  obtain ⟨hbounds, hnumeric⟩ := inBounds_of_reaches hproper hm hreach
  refine ⟨hbounds, fun hrunning => ?_⟩
  obtain ⟨i, hi, hsafe, -⟩ := safeStep_of_numeric hproper hm hnumeric hrunning
  refine ⟨i, hi, hsafe, inBounds_step hproper hbounds hrunning, fun hop hzero => ?_⟩
  exact ⟨_, step_divisorZero hi hop hzero⟩

/-- A subroutine that returns at once: its first step comes to the mark behind the halt, with the
place of the halt as the return address. -/
theorem safe_of_decode_subroutine :
    ∃ m : Machine, decode false [10, 32, 9, 10, 10, 10, 10, 10, 32, 32, 10, 10, 9, 10] =
        .ok m.program ∧
      ∃ s, Relation.ReflTransGen m.Next (start []) s ∧ s.calls = [1] ∧ s.InBounds m.program := by
  let m : Machine := { program := ⟨#[⟨.call, some 1⟩, ⟨.halt, none⟩, ⟨.mark, some 1⟩, ⟨.ret, none⟩],
    ⟨[(1, 2)]⟩⟩ }
  have hdecode : decode false [10, 32, 9, 10, 10, 10, 10, 10, 32, 32, 10, 10, 9, 10] =
      .ok m.program := by decide +kernel
  have hreach : Relation.ReflTransGen m.Next (start []) { pc := 2, calls := [1] } :=
    .single ⟨by decide, rfl⟩
  exact ⟨m, hdecode, _, hreach, rfl, ((safe_of_decode hdecode rfl []).1 _ hreach).1⟩

end Machine

end Whitespace
