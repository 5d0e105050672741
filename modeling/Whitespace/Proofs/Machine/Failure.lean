import Whitespace.Proofs.Machine.Input
import Whitespace.Proofs.Machine.Targets

/-!
# What a failing step leaves behind

An action that stops leaves the state alone, so an instruction that fails has done just what came
before the action that failed. That is never more than one thing: it has taken one item off the
stack, or read one character or one line. The heap, the return addresses and the output are as they
were, and the program counter stands behind the instruction.

## Main definitions

* `Stop.Reported` — a fault, or a number beyond the limit of decimal text.
* `Action.Atomic`, `Action.Silent` — an action that changes nothing when it fails, and one that does
  not fail.
* `Remains` — what an instruction that fails leaves of the state.
* `Since` — what an instruction has made of the state so far.
* `Machine.FailedStep` — what a step that fails leaves behind.

## Main statements

* `Action.Atomic.bind` — an action that changes nothing, and one behind it that does not fail.
* `Handles.remains`, `Machine.exec_remains` — every instruction.
* `Machine.failedStep_of_error` — every step.
-/

namespace Whitespace

/-- The stop is a fault, or a number beyond the limit of decimal text. -/
def Stop.Reported : Stop → Prop
  | .fault .. => True
  | .tooLong _ => True
  | _ => False

theorem Stop.reported_locate {pc : Nat} {i : Instruction} {r : Stop}
    (h : (Machine.locate pc i r).Reported) : r.Reported := by
  cases r <;> exact h

theorem Fault.eq_divisorZero_of_kind {f : Fault} (h : f.kind = "DivisionByZero") :
    f = .divisorZero := by
  cases f <;> simp [kind] at h ⊢

namespace Action

variable {α β : Type} {s s' : State}

/-- An action that fails leaves the state alone. -/
def Atomic (a : Action α) : Prop := ∀ s r s', a s = .error r s' → r.Reported → s' = s

/-- The action does not fail. -/
def Silent (a : Action α) : Prop := ∀ s r s', a s = .error r s' → ¬ r.Reported

theorem Atomic.bind {a : Action α} {g : α → Action β} (ha : Atomic a) (hg : ∀ x, Silent (g x)) :
    Atomic (a >>= g) := by
  intro s r s' h hr
  rcases bind_eq_error h with hs | ⟨x, s₁, -, hs₁⟩
  · exact ha s r s' hs hr
  · exact absurd hr (hg x s₁ r s' hs₁)

/-! ## Actions that do not fail -/

theorem silent_of_ok {a : Action α} (h : ∀ s, ∃ x s', a s = .ok x s') : Silent a := by
  intro s r s' herror
  obtain ⟨x, s₁, hok⟩ := h s
  cases hok.symm.trans herror

theorem silent_pure (x : α) : Silent (pure x : Action α) := silent_of_ok fun s => ⟨x, s, rfl⟩

theorem silent_push (x : Item) : Silent (push x) := silent_of_ok fun _ => ⟨_, _, rfl⟩

theorem silent_poke (address value : Item) : Silent (poke address value) :=
  silent_of_ok fun _ => ⟨_, _, rfl⟩

theorem silent_write (text : String) : Silent (write text) := silent_of_ok fun _ => ⟨_, _, rfl⟩

theorem silent_jumpTo (pc : Nat) : Silent (jumpTo pc) := silent_of_ok fun _ => ⟨_, _, rfl⟩

theorem silent_enter (pc : Nat) : Silent (enter pc) := silent_of_ok fun _ => ⟨_, _, rfl⟩

theorem silent_combine (op : Operator) (x y : Item) : Silent (combine op x y) := by
  intro s r s' h
  rw [combine] at h
  cases hresult : op.combine x y with
  | ok z =>
    rw [hresult] at h
    exact silent_push z s r s' h
  | error misuse =>
    rw [hresult] at h
    cases h
    exact id

theorem silent_isNegative (x : Item) : Silent (isNegative x) := by
  cases x with
  | number v => exact silent_pure _
  | nothing =>
    intro s r s' h
    cases h
    exact id

/-! ## Actions that change nothing when they fail -/

/-- An action that never changes the state does not when it fails. -/
theorem Keeps.atomic {a : Action α} (ha : Keeps id a) : Atomic a := by
  intro s r s' h _
  have hs := ha s
  rw [h] at hs
  exact hs

/-- What an action that never changes the state leaves behind another one. -/
theorem after_bind_of_keeps {a : Action α} {g : α → Action β} {x : α} (h : a s = .ok x s')
    (hg : Keeps id (g x)) : after ((a >>= g) s) = s' := by
  rw [bind_apply, h]
  exact hg s'

/-- The action either gives a value or stops where it has changed nothing. -/
theorem atomic_of_cases {a : Action α}
    (h : ∀ s, (∃ x s', a s = .ok x s') ∨ ∃ r, a s = .error r s) : Atomic a := by
  intro s r s' herror _
  obtain ⟨x, s₁, hok⟩ | ⟨r₁, hstop⟩ := h s
  · cases hok.symm.trans herror
  · cases hstop.symm.trans herror
    rfl

theorem atomic_duplicate : Atomic duplicate := by
  refine atomic_of_cases fun s => ?_
  unfold duplicate
  split
  · exact .inr (raise_eq_error _ s)
  · exact .inl ⟨_, _, rfl⟩

theorem atomic_exchange : Atomic exchange := by
  refine atomic_of_cases fun s => ?_
  unfold exchange
  split
  · exact .inl ⟨_, _, rfl⟩
  · exact .inr (raise_eq_error _ s)

theorem atomic_slide (count : Int) : Atomic (slide count) := by
  refine atomic_of_cases fun s => ?_
  unfold slide
  split
  · exact .inr (raise_eq_error _ s)
  · split
    · split
      · exact .inl ⟨_, _, rfl⟩
      · exact .inr (raise_eq_error _ s)
    · exact .inr (raise_eq_error _ s)

theorem atomic_leave : Atomic leave := by
  refine atomic_of_cases fun s => ?_
  unfold leave
  split
  · exact .inr (raise_eq_error _ s)
  · exact .inl ⟨_, _, rfl⟩

theorem atomic_jump (m : Machine) (label : Option Int) : Atomic (m.jump label) :=
  (keeps_target m label).atomic.bind silent_jumpTo

theorem atomic_readCharacter (m : Machine) : Atomic m.readCharacter := by
  refine atomic_of_cases fun s => ?_
  unfold Machine.readCharacter
  split
  · exact .inr (exhausted_eq_error m _ s)
  · exact .inl ⟨_, _, rfl⟩

/-- Reading a number takes a line, and what follows changes nothing. -/
theorem readNumber_cases (m : Machine) (s : State) :
    (∃ line rest, FirstLine s.unread line rest ∧
      after (m.readNumber s) = { s with unread := rest }) ∨
    ∃ r, m.readNumber s = .error r s := by
  obtain ⟨line, rest, hline, hs⟩ | ⟨r, hs⟩ := m.readLine_cases s
  · refine .inl ⟨line, rest, hline, ?_⟩
    refine after_bind_of_keeps hs ?_
    split
    · exact keeps_lift _
    · exact keeps_raise _
  · refine .inr ⟨r, ?_⟩
    rw [Machine.readNumber, bind_apply, hs]

/-! ## Taking an item -/

/-- The action takes the top item off the stack, or it stops and leaves the state alone. -/
def Takes (a : Action Item) : Prop :=
  ∀ s, (∃ x rest, s.stack = x :: rest ∧ a s = .ok x { s with stack := rest }) ∨
    ∃ r, a s = .error r s

theorem Takes.atomic {a : Action Item} (ha : Takes a) : Atomic a := by
  refine atomic_of_cases fun s => ?_
  obtain ⟨x, rest, -, hok⟩ | hstop := ha s
  · exact .inl ⟨x, _, hok⟩
  · exact .inr hstop

theorem takes_pop : Takes pop := by
  intro s
  unfold pop
  split
  · exact .inr (raise_eq_error _ s)
  · next x rest hs => exact .inl ⟨x, rest, hs, rfl⟩

theorem takes_divisor : Takes divisor := by
  intro s
  unfold divisor
  split
  · exact .inr (raise_eq_error _ s)
  · next x rest hs =>
    split
    · exact .inr (raise_eq_error _ s)
    · exact .inl ⟨x, rest, hs, rfl⟩

end Action

/-! ## Instructions -/

/-- What an instruction that fails leaves of the state `s`: all of it, or all but one item, or all
but one character or one line of the input. -/
inductive Remains (i : Instruction) (r : Stop) (s : State) : State → Prop where
  | all : Remains i r s s
  | item {x : Item} {rest : List Item} (hs : s.stack = x :: rest)
      (hop : i.opcode ∉ [.dup, .copy, .swap, .slide, .call, .jump, .ret])
      (hr : ∀ place, r ≠ .fault .divisorZero place) : Remains i r s { s with stack := rest }
  | character {c : Char} {rest : List Char} (hs : s.unread = c :: rest)
      (hop : i.opcode = .readChar) : Remains i r s { s with unread := rest }
  | line {line rest : List Char} (hs : FirstLine s.unread line rest)
      (hop : i.opcode = .readNumber) : Remains i r s { s with unread := rest }

/-- What an instruction has made of the state `s` when it has used up so much of it. -/
inductive Since (i : Instruction) (s : State) : Spent → State → Prop where
  | nothing : Since i s .nothing s
  | item {x : Item} {rest : List Item} (hs : s.stack = x :: rest)
      (hop : i.opcode ∉ [.dup, .copy, .swap, .slide, .call, .jump, .ret]) :
      Since i s .item { s with stack := rest }
  | character {c : Char} {rest : List Char} (hs : s.unread = c :: rest)
      (hop : i.opcode = .readChar) : Since i s .input { s with unread := rest }
  | line {line rest : List Char} (hs : FirstLine s.unread line rest)
      (hop : i.opcode = .readNumber) : Since i s .input { s with unread := rest }
  | more (t : State) : Since i s .more t

section Instructions

open Whitespace.Action

variable {i : Instruction} {V : Item → Prop} {c d : Spent} {m : Machine} {s t t' : State} {r : Stop}

/-- An action that takes an item uses up one more. -/
theorem Since.pop {a : Action Item} {x : Item} (h : Since i s c t)
    (hop : i.opcode ∉ [.dup, .copy, .swap, .slide, .call, .jump, .ret]) (ha : Takes a)
    (hok : a t = .ok x t') : Since i s c.pop t' := by
  cases h with
  | nothing =>
    obtain ⟨y, rest, hs, hy⟩ | ⟨r, hstop⟩ := ha s
    · cases hy.symm.trans hok
      exact .item hs hop
    · cases hstop.symm.trans hok
  | item | character | line | more => exact .more t'

/-- An action that changes nothing uses up nothing. -/
theorem Since.keep {α : Type} {a : Action α} {x : α} (h : Since i s c t) (ha : Keeps id a)
    (hok : a t = .ok x t') : Since i s c t' := by
  have hsame := ha t
  rw [hok] at hsame
  obtain rfl : t' = t := hsame
  exact h

theorem Since.ofReadCharacter {x : Char} (hop : i.opcode = .readChar)
    (hok : m.readCharacter s = .ok x t') : Since i s .input t' := by
  rw [Machine.readCharacter] at hok
  split at hok
  · obtain ⟨r, hstop⟩ := exhausted_eq_error (α := Char) m .noCharacter s
    cases hstop.symm.trans hok
  · next hs =>
    cases hok
    exact .character hs hop

theorem Since.ofReadNumber {v : Int} (hop : i.opcode = .readNumber)
    (hok : m.readNumber s = .ok v t') : Since i s .input t' := by
  obtain ⟨line, rest, hline, hafter⟩ | ⟨r, hstop⟩ := readNumber_cases m s
  · rw [hok] at hafter
    obtain rfl : t' = { s with unread := rest } := hafter
    exact .line hline hop
  · cases hstop.symm.trans hok

theorem Leads.since {α : Type} {Q : α → Prop} {a : Machine → Action α} {x : α}
    (h : Leads i V c d Q a) (ht : Since i s c t) (hok : a m t = .ok x t') : Since i s d t' := by
  cases h with
  | pop hop => exact ht.pop hop takes_pop hok
  | divisor hop => exact ht.pop hop takes_divisor hok
  | peek n => exact ht.keep (keeps_peek n) hok
  | isNegative => exact ht.keep (keeps_isNegative _) hok
  | character => exact ht.keep (keeps_character _) hok
  | lift x => exact ht.keep (keeps_lift x) hok
  | cell _ address => exact ht.keep (keeps_cell _ address) hok
  | readCharacter hop =>
    cases ht with
    | nothing => exact .ofReadCharacter hop hok
  | readNumber hop =>
    cases ht with
    | nothing => exact .ofReadNumber hop hok

/-- As long as not more than one thing is used up, an action that leaves the state alone when it
fails leaves enough of it. -/
theorem Since.remains {α : Type} {a : Action α} (h : Since i s c t) (hc : c ≠ .more)
    (ha : Atomic a) (hzero : c ≠ .nothing → Raises (· ≠ .divisorZero) a)
    (hstop : a t = .error r t') (hr : r.Reported) : Remains i r s t' := by
  rw [ha t r t' hstop hr]
  cases h with
  | nothing => exact .all
  | item hs hop =>
    refine .item hs hop fun place hplace => ?_
    subst hplace
    exact hzero nofun _ _ _ _ hstop rfl
  | character hs hop => exact .character hs hop
  | line hs hop => exact .line hs hop
  | more => exact absurd rfl hc

/-- The line is gone also when it is no number. -/
theorem Remains.ofReadNumber (hop : i.opcode = .readNumber)
    (hstop : m.readNumber s = .error r t') : Remains i r s t' := by
  obtain ⟨line, rest, hline, hafter⟩ | ⟨r', hs⟩ := readNumber_cases m s
  · rw [hstop] at hafter
    obtain rfl : t' = { s with unread := rest } := hafter
    exact .line hline hop
  · cases hs.symm.trans hstop
    exact .all

theorem Leads.remains {α : Type} {Q : α → Prop} {a : Machine → Action α} (h : Leads i V c d Q a)
    (ht : Since i s c t) (hstop : a m t = .error r t') (hr : r.Reported) : Remains i r s t' := by
  have hzero (hc : c ≠ .nothing) : Raises (· ≠ .divisorZero) (a m) :=
    h.raises (fun _ _ hf => hf) fun hnothing => absurd hnothing hc
  cases h with
  | pop _ hc => exact ht.remains hc takes_pop.atomic hzero hstop hr
  | divisor => exact ht.remains nofun takes_divisor.atomic hzero hstop hr
  | peek n => exact ht.remains nofun (keeps_peek n).atomic hzero hstop hr
  | isNegative => exact absurd hr (silent_isNegative _ _ _ _ hstop)
  | character _ hc => exact ht.remains hc (keeps_character _).atomic hzero hstop hr
  | lift x hc => exact ht.remains hc (keeps_lift x).atomic hzero hstop hr
  | cell _ address hc => exact ht.remains hc (keeps_cell _ address).atomic hzero hstop hr
  | readCharacter => exact ht.remains nofun (atomic_readCharacter m) hzero hstop hr
  | readNumber hop =>
    cases ht with
    | nothing => exact .ofReadNumber hop hstop

theorem Ends.remains {a : Machine → Action Unit} (h : Ends i V c a) (ht : Since i s c t)
    (hstop : a m t = .error r t') (hr : r.Reported) : Remains i r s t' := by
  have hzero (_ : c ≠ .nothing) : Raises (· ≠ .divisorZero) (a m) :=
    h.raises (fun _ _ hf => hf) fun _ _ _ _ => nofun
  cases h with
  | pure => exact absurd hr (silent_pure _ _ _ _ hstop)
  | push => exact absurd hr (silent_push _ _ _ _ hstop)
  | combine _ op => exact absurd hr (silent_combine op _ _ _ _ _ hstop)
  | poke _ _ address => exact absurd hr (silent_poke address _ _ _ _ hstop)
  | write _ _ text => exact absurd hr (silent_write text _ _ _ hstop)
  | duplicate => exact ht.remains nofun atomic_duplicate hzero hstop hr
  | exchange => exact ht.remains nofun atomic_exchange hzero hstop hr
  | slide n => exact ht.remains nofun (atomic_slide n) hzero hstop hr
  | jump _ hc => exact ht.remains hc (atomic_jump m i.operand) hzero hstop hr
  | call =>
    have hcall : Atomic (m.target i.operand >>= enter) :=
      (keeps_target m i.operand).atomic.bind silent_enter
    exact ht.remains nofun hcall hzero hstop hr
  | leave => exact ht.remains nofun atomic_leave hzero hstop hr
  | halt => exact ht.remains nofun (keeps_stop _).atomic hzero hstop hr
  | uncounted => exact ht.remains nofun (keeps_stop _).atomic hzero hstop hr

theorem Handles.remains {a : Machine → Action Unit} (h : Handles i (fun _ => True) c a)
    (ht : Since i s c t) (hstop : a m t = .error r t') (hr : r.Reported) : Remains i r s t' := by
  induction h generalizing t with
  | last h => exact h.remains ht hstop hr
  | next h hg ih =>
    rcases bind_eq_error hstop with hs | ⟨x, t₁, hs, hs₁⟩
    · exact h.remains ht hs hr
    · exact ih x (h.trivial x) (h.since ht hs) hs₁

end Instructions

namespace Machine

open Whitespace.Action

variable {m : Machine} {i : Instruction} {s s' : State} {r : Stop}

/-- What an instruction that fails leaves. -/
theorem exec_remains (h : m.exec i s = .error r s') (hr : r.Reported) : Remains i r s s' :=
  (exec_handles_any i).remains .nothing h hr

/-! ## Steps -/

/-- What a step that executes `i` in the state `s` and fails for the reason `r` leaves behind. -/
structure FailedStep (i : Instruction) (s : State) (r : Stop) (s' : State) : Prop where
  /-- The program counter stands behind the instruction. -/
  pc : s'.pc = s.pc + 1
  heap : s'.heap = s.heap
  calls : s'.calls = s.calls
  output : s'.output = s.output
  /-- At most the top item is gone. -/
  stack : s'.stack = s.stack ∨ ∃ x, s.stack = x :: s'.stack
  /-- Only a character or a line can have been read. -/
  unread : s'.unread = s.unread ∨ (i.opcode = .readChar ∧ ∃ c, s.unread = c :: s'.unread) ∨
    (i.opcode = .readNumber ∧ ∃ line, FirstLine s.unread line s'.unread)
  /-- A fault says where it happened. -/
  place : ∀ f place, r = .fault f place → place = some (s.pc, i)
  /-- Some instructions, and a division by zero, leave the stack alone. -/
  whole : (i.opcode ∈ [.dup, .copy, .swap, .slide, .call, .jump, .ret] ∨
    ∃ f place, r = .fault f place ∧ f.kind = "DivisionByZero") → s'.stack = s.stack

/-- What a step without a trace that fails leaves behind, in any state. -/
theorem failedStep_of_error (hm : m.settings.trace = false)
    (hi : m.program.instructions[s.pc]? = some i) (h : (m.step s).result = .error r s')
    (hr : r.Reported) : FailedStep i s r s' := by
  rw [step_result hi] at h
  cases hexec : m.exec i { s with pc := s.pc + 1 } with
  | ok _ s₁ =>
    rw [hexec, conclude, hm] at h
    cases h
  | error r₁ s₁ =>
    rw [hexec] at h
    cases h
    have hremains := exec_remains hexec (Stop.reported_locate hr)
    have hplace : ∀ f place, locate s.pc i r₁ = .fault f place → place = some (s.pc, i) := by
      intro f place hfault
      cases r₁ <;> cases hfault
      rfl
    cases hremains with
    | all =>
      exact ⟨rfl, rfl, rfl, rfl, .inl rfl, .inl rfl, hplace, fun _ => rfl⟩
    | @item x rest hs hop hzero =>
      refine ⟨rfl, rfl, rfl, rfl, .inr ⟨x, hs⟩, .inl rfl, hplace, fun hwhole => ?_⟩
      rcases hwhole with hmem | ⟨f, place, hfault, hkind⟩
      · exact absurd hmem hop
      · obtain rfl := Fault.eq_divisorZero_of_kind hkind
        cases r₁ <;> cases hfault
        exact absurd rfl (hzero _)
    | @character c rest hs hop =>
      exact ⟨rfl, rfl, rfl, rfl, .inl rfl, .inr (.inl ⟨hop, c, hs⟩), hplace, fun _ => rfl⟩
    | @line line rest hs hop =>
      exact ⟨rfl, rfl, rfl, rfl, .inl rfl, .inr (.inr ⟨hop, line, hs⟩), hplace, fun _ => rfl⟩

/-- A number is read and there is no address to store it at: the line is gone. A cell is read whose
address is too long to be named in the fault: the address is gone. -/
theorem failedStep_of_error_line :
    ∃ m : Machine, m.settings.trace = false ∧
      (let s : State := { unread := "12\nab".toList }
      ∃ r s', (m.step s).result = .error r s' ∧ r.Reported ∧
        FailedStep ⟨.readNumber, none⟩ s r s' ∧ s'.unread = "ab".toList) ∧
      let s : State := { pc := 1, stack := [.number Decimal.bound, .number 5] }
      ∃ s', (m.step s).result = .error (.tooLong .writing) s' ∧
        FailedStep ⟨.retrieve, none⟩ s (.tooLong .writing) s' ∧ s'.stack = [.number 5] := by
  let m : Machine := { program := ⟨#[⟨.readNumber, none⟩, ⟨.retrieve, none⟩], {}⟩ }
  have hline : (m.step { unread := "12\nab".toList }).result =
      .error (.fault .popEmpty (some (0, ⟨.readNumber, none⟩)))
        { pc := 1, unread := "ab".toList } := by rfl
  have hlong : Decimal.write Decimal.bound = .error .writing :=
    (Decimal.write_eq_error_iff _).2 (by decide +kernel)
  have hcell : (m.step { pc := 1, stack := [.number Decimal.bound, .number 5] }).result =
      .error (.tooLong .writing) { pc := 2, stack := [.number 5] } := by
    rw [step_result (i := ⟨.retrieve, none⟩) rfl]
    have hraise : (Fault.unwritten (.number Decimal.bound)).text = .error .writing := by
      rw [Fault.text, Item.text, hlong]
      rfl
    simp only [exec, bind_apply, pop, cell, raise, hraise, conclude, locate]
    rfl
  refine ⟨m, rfl, ⟨_, _, hline, trivial, ?_, rfl⟩, _, hcell, ?_, rfl⟩
  · exact failedStep_of_error rfl rfl hline trivial
  · exact failedStep_of_error rfl rfl hcell trivial

end Machine

end Whitespace
