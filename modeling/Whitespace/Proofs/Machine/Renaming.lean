import Mathlib.Data.Set.Function
import Whitespace.Proofs.Machine.Targets
import Whitespace.Proofs.Machine.Walk
import Whitespace.Proofs.Program

/-!
# Renaming labels

A label is looked up in the label table and used for nothing else. When the labels of a program are
renamed and different labels stay different, the last mark of a label becomes the last mark of its
new name, and a label that is not marked stays so. The machine then goes the same way. Only the
fault that a label is not marked tells the two programs apart, by the label that it names.

## Main definitions

* `Instruction.label?`, `Program.labelsOf` — the labels that instructions mark or go to.
* `Instruction.rename` — an instruction with its label renamed.
* `Program.Renames` — one program is the other one with its labels renamed.
* `Stop.rename`, `Run.Ending.rename`, `Progress.rename` — the same for what names an instruction.

## Main statements

* `Program.renames_ofInstructions` — renaming the instructions renames the program.
* `Machine.exec_renamed`, `Machine.tick_renamed`, `Machine.walk_renamed` — what an instruction, a
  round and a walk make of renamed labels.
* `Machine.runs_rename` — runs depend on labels only up to renaming.
-/

namespace Whitespace

namespace Instruction

/-- The label that an instruction marks or goes to. -/
def label? (i : Instruction) : Option Int :=
  if i.opcode.operandKind = .label then i.operand else none

/-- The instruction with its label renamed. -/
def rename (f : Int → Int) (i : Instruction) : Instruction :=
  if i.opcode.operandKind = .label then { i with operand := i.operand.map f } else i

variable {f : Int → Int} {i : Instruction}

@[simp] theorem opcode_rename (f : Int → Int) (i : Instruction) :
    (i.rename f).opcode = i.opcode := by
  unfold rename
  split <;> rfl

theorem rename_eq_mark_iff (f : Int → Int) (i : Instruction) (l : Int) :
    i.rename f = ⟨.mark, some l⟩ ↔ ∃ l', i = ⟨.mark, some l'⟩ ∧ f l' = l := by
  obtain ⟨op, operand⟩ := i
  constructor
  · intro h
    obtain rfl : op = .mark := (opcode_rename f ⟨op, operand⟩).symm.trans (congrArg opcode h)
    obtain ⟨l', rfl, hl'⟩ := Option.map_eq_some_iff.1 (congrArg Instruction.operand h)
    exact ⟨l', rfl, hl'⟩
  · rintro ⟨l', hmark, rfl⟩
    cases hmark
    rfl

end Instruction

/-! ## Programs -/

namespace Program

/-- The labels that instructions mark or go to. -/
def labelsOf (is : List Instruction) : Set Int := {l | ∃ i ∈ is, i.label? = some l}

/-- The program `q` is `p` with its labels renamed by `f`: the instructions are renamed one by one,
and every label of `p` stands in `q`, under its new name, where it stands in `p`. -/
structure Renames (f : Int → Int) (p q : Program) : Prop where
  instructions : ∀ k : Nat, q.instructions[k]? = p.instructions[k]?.map (Instruction.rename f)
  labels : ∀ (k : Nat) i l, p.instructions[k]? = some i → i.label? = some l →
    q.labels.get? (f l) = p.labels.get? l

/-- The last mark of a label is the last mark of its new name, if no other label has that name. -/
theorem get?_labels_rename {f : Int → Int} {is : List Instruction}
    (hf : Set.InjOn f (labelsOf is)) {l : Int} (hl : l ∈ labelsOf is) :
    (ofInstructions (is.map (Instruction.rename f))).labels.get? (f l) =
      (ofInstructions is).labels.get? l := by
  apply Option.ext
  intro k
  have hmark : Instruction.rename f ⟨.mark, some l⟩ = ⟨.mark, some (f l)⟩ := rfl
  rw [get?_labels, get?_labels, ← hmark]
  refine LastIndex.map_iff (fun i hi heq => ?_) k
  rw [hmark] at heq
  obtain ⟨l', rfl, hl'⟩ := (Instruction.rename_eq_mark_iff f i (f l)).1 heq
  rw [hf ⟨_, hi, rfl⟩ hl hl']

theorem renames_ofInstructions {f : Int → Int} {is : List Instruction}
    (hf : Set.InjOn f (labelsOf is)) :
    Renames f (ofInstructions is) (ofInstructions (is.map (Instruction.rename f))) := by
  refine ⟨fun k => ?_, fun k i l hi hl => ?_⟩
  · rw [← Array.getElem?_toList, ← Array.getElem?_toList, toList_ofInstructions,
      toList_ofInstructions, List.getElem?_map]
  · rw [← Array.getElem?_toList, toList_ofInstructions] at hi
    exact get?_labels_rename hf ⟨i, List.mem_of_getElem? hi, hl⟩

end Program

/-! ## What names a label -/

/-- The fault with the label that it names renamed. -/
def Fault.rename (f : Int → Int) : Fault → Fault
  | unmarked l => unmarked (f l)
  | other => other

@[simp] theorem Fault.kind_rename (f : Int → Int) (fault : Fault) :
    (fault.rename f).kind = fault.kind := by
  cases fault <;> rfl

theorem Fault.rename_of_ne (f : Int → Int) {fault : Fault} (h : ∀ l, fault ≠ .unmarked l) :
    fault.rename f = fault := by
  cases fault with
  | unmarked l => exact absurd rfl (h l)
  | _ => rfl

/-- The stop with the label of its fault renamed. -/
def Stop.renameFault (f : Int → Int) : Stop → Stop
  | fault x place => fault (x.rename f) place
  | reason => reason

/-- The stop with the label of its fault and of the instruction at fault renamed. -/
def Stop.rename (f : Int → Int) : Stop → Stop
  | fault x place => fault (x.rename f) (place.map fun (pc, i) => (pc, i.rename f))
  | reason => reason

theorem Stop.locate_renameFault (f : Int → Int) (pc : Nat) (i : Instruction) (r : Stop) :
    Machine.locate pc (i.rename f) (r.renameFault f) = (Machine.locate pc i r).rename f := by
  cases r <;> rfl

/-- The ending with the labels of the stop renamed. -/
def Run.Ending.rename (f : Int → Int) : Run.Ending → Run.Ending
  | stopped reason => stopped (reason.rename f)
  | ending => ending

theorem Run.Ending.ofStop_rename (f : Int → Int) (r : Stop) :
    ofStop (r.rename f) = (ofStop r).rename f := by
  cases r <;> rfl

/-- What is known of a walk, with the labels of the stop renamed. -/
def Progress.rename (f : Int → Int) : Progress → Progress
  | going s => going s
  | ended ending s => ended (ending.rename f) s

theorem Progress.rename_andThen (f : Int → Int) (p : Progress) (g : State → Progress) :
    (p.andThen g).rename f = (p.rename f).andThen fun s => (g s).rename f := by
  cases p <;> rfl

theorem Progress.outcome?_rename (f : Int → Int) (p : Progress) :
    (p.rename f).outcome? = p.outcome?.map fun (ending, s) => (ending.rename f, s) := by
  cases p <;> rfl

/-! ## Actions -/

namespace Action

variable {α β : Type} {f : Int → Int}

/-- The result with the label of its fault renamed. -/
def renameFault (f : Int → Int) : EStateM.Result Stop State α → EStateM.Result Stop State α
  | .ok x s => .ok x s
  | .error r s => .error (r.renameFault f) s

/-- The action `b` is `a` with the labels of its faults renamed. -/
def Renamed (f : Int → Int) (a b : Action α) : Prop := ∀ s, b s = renameFault f (a s)

theorem Renamed.bind {a b : Action α} {g h : α → Action β} (hab : Renamed f a b)
    (hgh : ∀ x, Renamed f (g x) (h x)) : Renamed f (a >>= g) (b >>= h) := by
  intro s
  rw [bind_apply, bind_apply, hab s]
  cases a s with
  | ok x s' => exact hgh x s'
  | error r s' => rfl

/-- An action that names no label in its faults is not changed. -/
theorem renamed_self {a : Action α} (ha : Raises (fun fault => ∀ l, fault ≠ .unmarked l) a) :
    Renamed f a a := by
  intro s
  cases h : a s with
  | ok x s' => rfl
  | error r s' =>
    cases r with
    | fault fault place =>
      rw [renameFault, Stop.renameFault, Fault.rename_of_ne f (ha s fault place s' h)]
    | _ => rfl

theorem renamed_pop : Renamed f pop pop := renamed_self (raises_pop nofun)

theorem renamed_pure (x : α) : Renamed f (pure x : Action α) (pure x) := fun _ => rfl

end Action

/-! ## Instructions, rounds and walks -/

namespace Machine

open Whitespace.Action

/-- The same machine with another program. -/
def withProgram (m : Machine) (p : Program) : Machine := { m with program := p }

variable {m : Machine} {f : Int → Int} {i : Instruction} {q : Program}

/-- Only an instruction that goes to a label names one in its faults. -/
theorem exec_not_unmarked (hop : i.opcode ∉ [.call, .jump, .jumpZero, .jumpNegative]) :
    Raises (fun fault => ∀ l, fault ≠ .unmarked l) (m.exec i) := by
  rintro s fault place s' h l rfl
  exact hop (exec_unmarked m i s _ place s' h l rfl).1

/-- A label that is renamed is found where it was, or not found as before. -/
theorem target_renamed {operand : Option Int}
    (h : ∀ l, operand = some l → q.labels.get? (f l) = m.program.labels.get? l) :
    Renamed f (m.target operand) ((m.withProgram q).target (operand.map f)) := by
  intro s
  cases operand with
  | none => rfl
  | some l =>
    simp only [Option.map_some, target, withProgram, h l rfl]
    cases m.program.labels.get? l <;> rfl

theorem jump_renamed {operand : Option Int}
    (h : ∀ l, operand = some l → q.labels.get? (f l) = m.program.labels.get? l) :
    Renamed f (m.jump operand) ((m.withProgram q).jump (operand.map f)) :=
  (target_renamed h).bind fun _ _ => rfl

/-- An instruction does the same with renamed labels. -/
theorem exec_renamed (h : ∀ l, i.label? = some l → q.labels.get? (f l) = m.program.labels.get? l) :
    Renamed f (m.exec i) ((m.withProgram q).exec (i.rename f)) := by
  obtain ⟨op, operand⟩ := i
  have hself (hop : op ∉ [.call, .jump, .jumpZero, .jumpNegative]) :
      Renamed f (m.exec ⟨op, operand⟩) (m.exec ⟨op, operand⟩) :=
    renamed_self (exec_not_unmarked hop)
  cases op with
  | call => exact (target_renamed h).bind fun _ _ => rfl
  | jump => exact jump_renamed h
  | jumpZero =>
    refine renamed_pop.bind fun x => ?_
    split
    · exact jump_renamed h
    · exact renamed_pure _
  | jumpNegative =>
    refine renamed_pop.bind fun x => (renamed_self (raises_isNegative x)).bind fun negative => ?_
    split
    · exact jump_renamed h
    · exact renamed_pure _
  | _ => exact hself (by simp)

theorem conclude_renamed (hm : m.settings.trace = false) (pc : Nat)
    (result : EStateM.Result Stop State Unit) :
    Progress.ofResult ((m.withProgram q).conclude pc (i.rename f) (renameFault f result)) =
      (Progress.ofResult (m.conclude pc i result)).rename f := by
  cases result with
  | ok _ s =>
    simp only [renameFault, conclude, withProgram, hm]
    rfl
  | error r s =>
    simp only [renameFault, conclude, Progress.ofResult, Stop.locate_renameFault,
      Run.Ending.ofStop_rename, Progress.rename]

theorem tick_renamed (hm : m.settings.trace = false) (hq : Program.Renames f m.program q)
    (s : State) : (m.withProgram q).tick s = (m.tick s).rename f := by
  have hpc : (m.withProgram q).program.instructions[s.pc]? =
      m.program.instructions[s.pc]?.map (Instruction.rename f) := hq.instructions s.pc
  cases hi : m.program.instructions[s.pc]? with
  | none =>
    rw [hi] at hpc
    rw [tick_of_getElem?_none hpc, tick_of_getElem?_none hi]
    rfl
  | some i =>
    rw [hi] at hpc
    rw [tick_of_getElem? hpc, tick_of_getElem? hi, exec_renamed fun l => hq.labels _ _ l hi,
      conclude_renamed hm]

theorem walk_renamed (hm : m.settings.trace = false) (hq : Program.Renames f m.program q)
    (s : State) (k : Nat) : (m.withProgram q).walk s k = (m.walk s k).rename f := by
  induction k generalizing s with
  | zero => rfl
  | succ k ih => simp only [walk, tick_renamed hm hq, ih, Progress.rename_andThen]

/-- Runs depend on labels only up to renaming. Let instructions be such that every mark has its
label, and let `f` keep the labels in them apart. They make a program, and so they do with the
labels renamed. Without a trace, on any input, both programs come to the same state after every
number of steps and end after the same number of them, in the same way: only the labels that a
fault and its instruction name are renamed, so that its kind and its place are the same. -/
theorem runs_rename {is : List Instruction} (his : ∀ i ∈ is, i.opcode = .mark → i.operand ≠ none)
    {f : Int → Int} (hf : Set.InjOn f (Program.labelsOf is)) :
    ∃ p q, Program.ofInstructions? is = some p ∧
      Program.ofInstructions? (is.map (Instruction.rename f)) = some q ∧
      ∀ m : Machine, m.settings.trace = false → ∀ (input : List Char) (k : Nat),
        (m.withProgram q).walk (start input) k =
          ((m.withProgram p).walk (start input) k).rename f ∧
        ((m.withProgram q).run input k).map Run.outcome =
          ((m.withProgram p).run input k).map (fun r => (r.ending.rename f, r.state)) ∧
        ∀ fault pc i s,
          (m.withProgram p).walk (start input) k =
            .ended (.stopped (.fault fault (some (pc, i)))) s →
          ∃ fault', fault'.kind = fault.kind ∧
            (m.withProgram q).walk (start input) k =
              .ended (.stopped (.fault fault' (some (pc, i.rename f)))) s := by
  have his' : ∀ i ∈ is.map (Instruction.rename f), i.opcode = .mark → i.operand ≠ none := by
    intro i hi hop
    obtain ⟨j, hj, rfl⟩ := List.mem_map.1 hi
    rw [Instruction.opcode_rename] at hop
    have hlabel : j.opcode.operandKind = .label := by rw [hop]; rfl
    simpa [Instruction.rename, hlabel] using his j hj hop
  refine ⟨_, _, Program.ofInstructions?_eq_some his, Program.ofInstructions?_eq_some his',
    fun m hm input k => ?_⟩
  have hwalk := walk_renamed (m := m.withProgram (.ofInstructions is)) hm
    (Program.renames_ofInstructions hf) (start input) k
  refine ⟨hwalk, ?_, fun fault pc i s hs => ⟨fault.rename f, fault.kind_rename f, ?_⟩⟩
  · rw [outcome_run]
    refine (congrArg Progress.outcome? hwalk).trans ?_
    rw [Progress.outcome?_rename, ← outcome_run, Option.map_map]
    rfl
  · rw [hs] at hwalk
    exact hwalk

/-- Squaring keeps two labels apart, of which one is marked and one is not. -/
theorem runs_rename_square :
    ∃ q, Program.ofInstructions? [⟨.push, some 0⟩, ⟨.jumpZero, some 25⟩, ⟨.halt, none⟩,
        ⟨.mark, some 25⟩, ⟨.jump, some 49⟩] = some q ∧
      ({ program := q } : Machine).walk (start []) 4 =
        .ended (.stopped (.fault (.unmarked 49) (some (4, ⟨.jump, some 49⟩)))) { pc := 5 } := by
  have hf : Set.InjOn (fun l : Int => l * l) (Program.labelsOf [⟨.push, some 0⟩,
      ⟨.jumpZero, some 5⟩, ⟨.halt, none⟩, ⟨.mark, some 5⟩, ⟨.jump, some 7⟩]) := by
    have hlabels : ∀ l ∈ Program.labelsOf [⟨.push, some 0⟩, ⟨.jumpZero, some 5⟩, ⟨.halt, none⟩,
        ⟨.mark, some 5⟩, ⟨.jump, some 7⟩], l = 5 ∨ l = 7 := by
      simp [Program.labelsOf, Instruction.label?, Opcode.operandKind, eq_comm]
    intro a ha b hb hab
    rcases hlabels a ha with rfl | rfl <;> rcases hlabels b hb with rfl | rfl <;> simp_all
  obtain ⟨p, q, hp, hq, hruns⟩ := runs_rename (by decide) hf
  refine ⟨q, hq, ?_⟩
  cases hp
  exact (hruns { program := {} } rfl [] 4).1

end Machine

end Whitespace
