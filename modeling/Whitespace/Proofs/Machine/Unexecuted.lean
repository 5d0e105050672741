import Whitespace.Proofs.Machine.Memory
import Whitespace.Proofs.Machine.Renaming

/-!
# Code that is not executed

A machine looks at its program in two ways only: it fetches the instruction at the program counter,
and an instruction that takes its jump looks up its label. So two programs are the same to a run
when they have the same instructions where the run comes by, and the same places for the labels that
the run looks up. The end of a program is a third thing to look at, but a run that halts or stops
never comes there.

## Main definitions

* `Machine.Executes` — the next round executes an instruction.
* `Machine.LooksUp` — a run looks up a label.
* `Machine.RunsLike` — two machines have the same runs on an input.

## Main statements

* `Machine.exec_withProgram`, `Machine.step_withProgram` — what an instruction and a step look at.
* `Machine.runsLike_of_steps` — machines that take the same steps have the same runs.
* `Machine.runsLike_withProgram` — what a run looks at.
* `Machine.unexecuted_harmless` — code that is not executed is harmless.
-/

namespace Whitespace.Machine

open Whitespace.Action

/-- After `k` rounds, in the state `s`, the next round executes the instruction `i`. -/
structure Executes (m : Machine) (input : List Char) (k : Nat) (s : State) (i : Instruction) :
    Prop where
  going : m.walk (start input) k = .going s
  fetched : m.program.instructions[s.pc]? = some i

/-- The run looks up the label `l`: it executes an instruction that takes its jump there. -/
def LooksUp (m : Machine) (input : List Char) (l : Int) : Prop :=
  ∃ k s i, m.Executes input k s i ∧ i.operand = some l ∧ i.opcode.Taken s.stack

/-- The machine `m'` goes through the states of `m`, ends as `m` does and logs the same records. -/
structure RunsLike (m' m : Machine) (input : List Char) : Prop where
  walk : ∀ k, m'.walk (start input) k = m.walk (start input) k
  run : ∀ fuel, m'.run input fuel = m.run input fuel

variable {m m' : Machine} {q : Program} {i : Instruction} {s s' : State} {input : List Char}

/-! ## What an instruction looks at -/

theorem target_withProgram {operand : Option Int}
    (h : ∀ l, operand = some l → q.labels.get? l = m.program.labels.get? l) :
    (m.withProgram q).target operand = m.target operand := by
  cases operand with
  | none => rfl
  | some l =>
    funext s
    simp only [target, withProgram, h l rfl]

theorem jump_withProgram {operand : Option Int}
    (h : ∀ l, operand = some l → q.labels.get? l = m.program.labels.get? l) :
    (m.withProgram q).jump operand = m.jump operand := by
  rw [jump, jump, target_withProgram h]

theorem exec_withProgram_of_target (h : i.opcode ∈ [.call, .jump, .jumpZero, .jumpNegative] →
      (m.withProgram q).target i.operand = m.target i.operand) :
    (m.withProgram q).exec i s = m.exec i s := by
  refine congrFun (exec_congr ?_ ?_ h) s
  · exact fun _ => rfl
  · exact fun _ => rfl

/-- An instruction looks at the program only if it takes a jump, and then at its label only. -/
theorem exec_withProgram (h : ∀ l, i.operand = some l → i.opcode.Taken s.stack →
      q.labels.get? l = m.program.labels.get? l) :
    (m.withProgram q).exec i s = m.exec i s := by
  obtain ⟨op, operand⟩ := i
  cases op with
  | jumpZero =>
    cases hs : s.stack with
    | nil =>
      obtain ⟨r, hr⟩ := pop_of_nil hs
      simp only [exec, bind_apply, hr]
    | cons x rest =>
      simp only [exec, bind_apply, pop_of_cons hs]
      split
      · next hx =>
        subst hx
        rw [jump_withProgram fun l hl => h l hl (hs ▸ .zero rest)]
      · rfl
  | jumpNegative =>
    cases hs : s.stack with
    | nil =>
      obtain ⟨r, hr⟩ := pop_of_nil hs
      simp only [exec, bind_apply, hr]
    | cons x rest =>
      cases x with
      | nothing => simp only [exec, bind_apply, pop_of_cons hs, isNegative, stop]
      | number v =>
        by_cases hv : v < 0
        · have hjump := jump_withProgram (m := m) fun l hl => h l hl (hs ▸ .negative hv rest)
          simp only [exec, hjump]
        · simp only [exec, bind_apply, pop_of_cons hs, isNegative, hv, decide_false]
          rfl
  | call =>
    exact exec_withProgram_of_target fun _ => target_withProgram fun l hl => h l hl (.call _)
  | jump =>
    exact exec_withProgram_of_target fun _ => target_withProgram fun l hl => h l hl (.jump _)
  | _ => exact exec_withProgram_of_target fun hop => by simp at hop

/-- A step looks at the instruction that it fetches and at the label that this one looks up. -/
theorem step_withProgram (hi : m.program.instructions[s.pc]? = some i)
    (hq : q.instructions[s.pc]? = some i)
    (h : ∀ l, i.operand = some l → i.opcode.Taken s.stack →
      q.labels.get? l = m.program.labels.get? l) :
    (m.withProgram q).step s = m.step s := by
  have hexec : (m.withProgram q).exec i { s with pc := s.pc + 1 } =
      m.exec i { s with pc := s.pc + 1 } := exec_withProgram h
  have hq' : (m.withProgram q).program.instructions[s.pc]? = some i := hq
  have htrace : (m.withProgram q).settings = m.settings := rfl
  simp only [step, advance, hi, hq', hexec, htrace]

/-! ## Runs -/

/-- Machines that go on together and take the same steps come to the same states. -/
theorem walk_of_steps (h : ∀ k t, m.walk s k = .going t →
      m'.running t = m.running t ∧ m'.step t = m.step t) (k : Nat) :
    m'.walk s k = m.walk s k := by
  induction k with
  | zero => rfl
  | succ k ih =>
    rw [walk_succ, walk_succ, ih]
    cases hk : m.walk s k with
    | ended ending t => rfl
    | going t =>
      obtain ⟨hrunning, hstep⟩ := h k t hk
      simp only [Progress.andThen, tick, hrunning, hstep]

/-- What holds at every state of a walk holds at every state behind its first step. -/
theorem forall_going_succ {P : State → Prop} (h : ∀ k t, m.walk s k = .going t → P t)
    (hs : m.running s = true) (hstep : (m.step s).result = .ok () s') (k : Nat) (t : State)
    (ht : m.walk s' k = .going t) : P t := by
  refine h (k + 1) t ?_
  rw [walk, tick_of_running hs, hstep]
  exact ht

theorem runFrom_of_steps (h : ∀ k t, m.walk s k = .going t →
      m'.running t = m.running t ∧ m'.step t = m.step t) (log : Log) (fuel : Nat) :
    m'.runFrom log s fuel = m.runFrom log s fuel := by
  induction fuel generalizing log s with
  | zero => rfl
  | succ fuel ih =>
    obtain ⟨hrunning, hstep⟩ := h 0 s rfl
    simp only [runFrom, hrunning, hstep]
    split
    · next hs =>
      cases hresult : (m.step s).result with
      | ok u s' => exact ih (forall_going_succ h hs hresult) _
      | error r s' => cases r <;> rfl
    · rfl

theorem runsLike_of_steps (h : ∀ k t, m.walk (start input) k = .going t →
      m'.running t = m.running t ∧ m'.step t = m.step t) : m'.RunsLike m input :=
  ⟨walk_of_steps h, runFrom_of_steps h #[]⟩

/-- A run that ends otherwise than behind the program executes an instruction in every round. -/
theorem exists_executes {n : Nat} {ending : Run.Ending}
    (hend : m.walk (start input) n = .ended ending s') (hending : ending ≠ .ranOff) {k : Nat}
    (hk : m.walk (start input) k = .going s) : k < n ∧ ∃ i, m.Executes input k s i := by
  have hlt : k < n := by
    by_contra hle
    have := walk_of_ended hend (Nat.not_lt.1 hle)
    rw [hk] at this
    cases this
  refine ⟨hlt, ?_⟩
  cases hi : m.program.instructions[s.pc]? with
  | some i => exact ⟨i, hk, hi⟩
  | none =>
    have hlast : m.walk (start input) (k + 1) = .ended .ranOff s := by
      rw [walk_succ, hk]
      exact tick_of_getElem?_none hi
    have := walk_of_ended hlast hlt
    rw [hend] at this
    cases this
    exact absurd rfl hending

/-- The program of a run that halts or stops can be exchanged for one that has the same instructions
and labels where the run looks at them. -/
theorem runsLike_withProgram {n : Nat} {ending : Run.Ending}
    (hend : m.walk (start input) n = .ended ending s') (hending : ending ≠ .ranOff)
    (hcode : ∀ k s i, m.Executes input k s i → q.instructions[s.pc]? = some i)
    (hlabels : ∀ l, m.LooksUp input l → q.labels.get? l = m.program.labels.get? l) :
    (m.withProgram q).RunsLike m input := by
  apply runsLike_of_steps
  intro k s hk
  obtain ⟨-, i, hi⟩ := exists_executes hend hending hk
  have hq := hcode k s i hi
  -- neither program is at its end here, so both machines are running
  obtain ⟨hlt, -⟩ := Array.getElem?_eq_some_iff.1 hi.fetched
  obtain ⟨hlt', -⟩ := Array.getElem?_eq_some_iff.1 hq
  refine ⟨(decide_eq_true hlt').trans (decide_eq_true hlt).symm, ?_⟩
  exact step_withProgram hi.fetched hq fun l hl htaken => hlabels l ⟨k, s, i, hi, hl, htaken⟩

/-- Marks of a label in the same places give it the same place in the label table. -/
theorem get?_labels_congr {is js : List Instruction} {l : Int}
    (h : ∀ k : Nat, js[k]? = some ⟨.mark, some l⟩ ↔ is[k]? = some ⟨.mark, some l⟩) :
    (Program.ofInstructions js).labels.get? l = (Program.ofInstructions is).labels.get? l := by
  apply Option.ext
  intro k
  simp only [Program.get?_labels, LastIndex, ne_eq, h]

/-- Code that is not executed is harmless. Take a run that halts or stops, and another program that
has the same instruction wherever the run executes one, and the same place, or none, for every label
that the run looks up. Then the other program has the same run: it comes to the same states with the
same output, ends in the same way and logs the same records. Among programs that are built from
instructions this holds of all that differ only where the run executes nothing, in whatever they
have there or behind the end, as long as no mark of a label that is looked up comes or goes. -/
theorem unexecuted_harmless {n : Nat} {ending : Run.Ending}
    (hend : m.walk (start input) n = .ended ending s') (hending : ending ≠ .ranOff) :
    (∀ q : Program,
      (∀ k s i, m.Executes input k s i → q.instructions[s.pc]? = some i) →
      (∀ l, m.LooksUp input l → q.labels.get? l = m.program.labels.get? l) →
      (m.withProgram q).RunsLike m input) ∧
    ∀ (is js : List Instruction) (q : Program),
      Program.ofInstructions? is = some m.program → Program.ofInstructions? js = some q →
      (∀ k s i, m.Executes input k s i → js[s.pc]? = some i) →
      (∀ l, m.LooksUp input l → ∀ k : Nat,
        js[k]? = some ⟨.mark, some l⟩ ↔ is[k]? = some ⟨.mark, some l⟩) →
      (m.withProgram q).RunsLike m input := by
  refine ⟨fun q hcode hlabels => runsLike_withProgram hend hending hcode hlabels, ?_⟩
  intro is js q hp hq hcode hmarks
  have hp' := Program.eq_ofInstructions hp
  obtain rfl := Program.eq_ofInstructions hq
  apply runsLike_withProgram hend hending
  · intro k s i hi
    rw [← Array.getElem?_toList, Program.toList_ofInstructions]
    exact hcode k s i hi
  · intro l hl
    rw [hp']
    exact get?_labels_congr (hmarks l hl)

/-- A call of a label that is not marked is jumped over. In its place there may be an instruction
without its operand, and behind the end another mark. -/
theorem unexecuted_harmless_dead :
    ∃ p q, Program.ofInstructions? [⟨.jump, some 5⟩, ⟨.call, some 9⟩, ⟨.mark, some 5⟩,
        ⟨.halt, none⟩] = some p ∧
      Program.ofInstructions? [⟨.jump, some 5⟩, ⟨.slide, none⟩, ⟨.mark, some 5⟩, ⟨.halt, none⟩,
        ⟨.mark, some 7⟩, ⟨.jump, some 3⟩] = some q ∧
      Machine.walk { program := p } (start []) 3 = .ended .halted { pc := 4 } ∧
      Machine.walk { program := q } (start []) 3 = .ended .halted { pc := 4 } := by
  let is : List Instruction := [⟨.jump, some 5⟩, ⟨.call, some 9⟩, ⟨.mark, some 5⟩, ⟨.halt, none⟩]
  let js : List Instruction := [⟨.jump, some 5⟩, ⟨.slide, none⟩, ⟨.mark, some 5⟩, ⟨.halt, none⟩,
    ⟨.mark, some 7⟩, ⟨.jump, some 3⟩]
  let m : Machine := { program := .ofInstructions is }
  have hend : m.walk (start []) 3 = .ended .halted { pc := 4 } := by decide +kernel
  have hcode : ∀ k < 3, js[(m.walk (start []) k).state.pc]? =
      m.program.instructions[(m.walk (start []) k).state.pc]? := by decide +kernel
  have hlabel : ∀ k < 3, ∀ l ∈ m.program.instructions[(m.walk (start []) k).state.pc]?.bind
      Instruction.operand, l = 5 := by decide +kernel
  have hlike : (m.withProgram (.ofInstructions js)).RunsLike m [] := by
    refine (unexecuted_harmless hend (by simp)).2 is js _ rfl rfl ?_ ?_
    · intro k s i hi
      obtain ⟨hk, -⟩ := exists_executes hend (by simp) hi.going
      have hpc := hcode k hk
      rw [hi.going] at hpc
      exact hpc.trans hi.fetched
    · rintro l ⟨k, s, i, hi, hl, -⟩ j
      obtain ⟨hk, -⟩ := exists_executes hend (by simp) hi.going
      have hfive := hlabel k hk l
      rw [hi.going] at hfive
      obtain rfl : l = 5 := hfive (Option.bind_eq_some_iff.2 ⟨i, hi.fetched, hl⟩)
      rcases j with _ | _ | _ | _ | _ | _ | j <;> simp [is, js]
  exact ⟨_, _, rfl, rfl, hend, (hlike.walk 3).trans hend⟩

end Whitespace.Machine
