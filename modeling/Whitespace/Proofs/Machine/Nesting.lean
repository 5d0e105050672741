import Whitespace.Proofs.Machine.Flow

/-!
# Calls and returns nest

A call puts the place behind it on top of the return addresses. No instruction reaches below the top
address, and only a return takes one off. So while there are more return addresses than the call
found, those that it found lie at the bottom, with the place behind the call on them, and the step
that takes that place off is the return to it. What runs in between, calls included, makes no
difference.

## Main definitions

* `Machine.Within` — the machine goes on with more than a given number of return addresses.

## Main statements

* `Flow.suffix_or_return` — one instruction.
* `Machine.suffix_of_within` — a run inside a call.
* `Machine.calls_nest` — a call, the run inside it, and the return from it.
-/

namespace Whitespace

/-- Addresses at the bottom stay there, unless the top one of them is on top of all and the
instruction returns to it. -/
theorem Flow.suffix_or_return {p : Program} {i : Instruction} {pc pc' r : Nat}
    {calls calls' rest : List Nat} (h : Flow p i (pc, calls) (pc', calls'))
    (hsuffix : r :: rest <:+ calls) :
    r :: rest <:+ calls' ∨ (i.opcode = .ret ∧ calls' = rest ∧ pc' = r) := by
  cases h with
  | on => exact .inl hsuffix
  | jump => exact .inl hsuffix
  | call => exact .inl (hsuffix.trans (List.suffix_cons pc calls))
  | ret hop =>
    rcases List.suffix_cons_iff.1 hsuffix with heq | hbelow
    · cases heq
      exact .inr ⟨hop, rfl, rfl⟩
    · exact .inl hbelow

namespace Machine

open Whitespace.Action

variable {m : Machine} {s s' t : State} {i : Instruction} {r : Nat} {rest : List Nat}

/-- A call that succeeds puts the place behind it on top of the return addresses. -/
theorem exec_call (hop : i.opcode = .call) (h : m.exec i s = .ok () s') :
    s'.calls = s.pc :: s.calls := by
  simp only [exec, hop] at h
  rw [bind_apply] at h
  obtain ⟨l, k, -, -, htarget⟩ | ⟨reason, htarget⟩ := m.target_cases i.operand s
  · rw [htarget] at h
    cases h
    rfl
  · rw [htarget] at h
    cases h

theorem next_call (hi : m.program.instructions[s.pc]? = some i) (hop : i.opcode = .call)
    (h : m.Next s s') : s'.calls = (s.pc + 1) :: s.calls := by
  obtain ⟨hrunning, hresult⟩ := h
  obtain ⟨j, hj, hstep⟩ := step_cases hrunning
  cases hi.symm.trans hj
  obtain ⟨t, hexec, ht⟩ | ⟨e, t, -, ht⟩ | ⟨reason, t, -, ht⟩ := hstep
  · cases ht.symm.trans hresult
    exact exec_call hop hexec
  · cases ht.symm.trans hresult
  · cases ht.symm.trans hresult

/-- A run goes on from one state to another, and every step of it leaves more than `depth` return
addresses. -/
def Within (m : Machine) (depth : Nat) : State → State → Prop :=
  Relation.ReflTransGen fun s s' => m.Next s s' ∧ depth < s'.calls.length

/-- While more addresses are left than lie below `r`, the address `r` and those below it stay. -/
theorem suffix_of_within (h : m.Within rest.length s t) (hs : r :: rest <:+ s.calls) :
    r :: rest <:+ t.calls := by
  induction h with
  | refl => exact hs
  | tail _ hstep ih =>
    obtain ⟨hnext, hdepth⟩ := hstep
    obtain ⟨i, -, hflow⟩ := step_flow hnext.1
    rw [stepped_of_next hnext] at hflow
    rcases hflow.suffix_or_return ih with hsuffix | ⟨-, hcalls, -⟩
    · exact hsuffix
    · rw [hcalls] at hdepth
      exact absurd hdepth (Nat.lt_irrefl _)

/-- Calls and returns nest. Take a call that succeeds, and any state that a run comes to from there
with more return addresses all the time than the call found. Then the addresses that the call found
are at the bottom, with the place behind the call on them. The next step, whether it succeeds or
not, either leaves them there, or it is a return, and the machine is back behind the call with just
the addresses that the call found. -/
theorem calls_nest {s₁ : State} (hi : m.program.instructions[s.pc]? = some i)
    (hop : i.opcode = .call) (hcall : m.Next s s₁) :
    s.calls.length < s₁.calls.length ∧
    ∀ t, m.Within s.calls.length s₁ t →
      (s.pc + 1) :: s.calls <:+ t.calls ∧
      (m.running t = true →
        ∃ j, m.program.instructions[t.pc]? = some j ∧
          (s.calls.length < (m.stepped t).calls.length →
            (s.pc + 1) :: s.calls <:+ (m.stepped t).calls) ∧
          ((m.stepped t).calls.length ≤ s.calls.length →
            j.opcode = .ret ∧ (m.stepped t).calls = s.calls ∧
              (m.stepped t).pc = s.pc + 1)) := by
  have hfirst := next_call hi hop hcall
  refine ⟨by simp [hfirst], fun t hwithin => ?_⟩
  have hbegin : (s.pc + 1) :: s.calls <:+ s₁.calls := hfirst ▸ List.suffix_refl _
  have hsuffix := suffix_of_within hwithin hbegin
  refine ⟨hsuffix, fun hrunning => ?_⟩
  obtain ⟨j, hj, hflow⟩ := step_flow hrunning
  refine ⟨j, hj, ?_⟩
  rcases hflow.suffix_or_return hsuffix with hstays | ⟨hret, hcalls, hpc⟩
  · have hlength := hstays.length_le
    rw [List.length_cons] at hlength
    exact ⟨fun _ => hstays, fun hle => by omega⟩
  · exact ⟨fun hlt => absurd hlt (by simp [hcalls]), fun _ => ⟨hret, hcalls, hpc⟩⟩

/-- The program calls a subroutine, which calls another one. The inner return, at index 3, leads back
into the outer subroutine, and the return at index 7 leads behind the first call. -/
theorem calls_nest_twice :
    ∃ (m : Machine) (s₁ t : State), m.Next (start []) s₁ ∧ m.Within 0 s₁ t ∧ t.pc = 7 ∧
      (m.stepped t).calls = [] ∧ (m.stepped t).pc = 1 := by
  let m : Machine := { program := ⟨#[⟨.call, some 2⟩, ⟨.halt, none⟩, ⟨.mark, some 1⟩,
    ⟨.ret, none⟩, ⟨.halt, none⟩, ⟨.mark, some 2⟩, ⟨.call, some 1⟩, ⟨.ret, none⟩],
    ⟨[(1, 2), (2, 5)]⟩⟩ }
  have hcall : m.Next (start []) { pc := 5, calls := [1] } := ⟨by decide, rfl⟩
  have houter : m.Within 0 { pc := 5, calls := [1] } { pc := 6, calls := [1] } :=
    .single ⟨⟨by decide, rfl⟩, by decide⟩
  have hinner : m.Within 0 { pc := 6, calls := [1] } { pc := 3, calls := [7, 1] } :=
    .tail (.single ⟨⟨by decide, rfl⟩, by decide⟩) ⟨⟨by decide, rfl⟩, by decide⟩
  have hback : m.Within 0 { pc := 3, calls := [7, 1] } { pc := 7, calls := [1] } :=
    .single ⟨⟨by decide, rfl⟩, by decide⟩
  have hwithin := (houter.trans hinner).trans hback
  obtain ⟨-, hnest⟩ := calls_nest (i := ⟨.call, some 2⟩) rfl rfl hcall
  obtain ⟨-, hstep⟩ := hnest _ hwithin
  obtain ⟨j, -, -, hreturn⟩ := hstep (by decide)
  obtain ⟨-, hcalls, hpc⟩ := hreturn (by decide)
  exact ⟨m, _, _, hcall, hwithin, rfl, hcalls, hpc⟩

end Machine

end Whitespace
