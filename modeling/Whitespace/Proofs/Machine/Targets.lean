import Whitespace.Proofs.Machine.Flow

/-!
# Where jumps go

An instruction that goes to a label can fail to find it. No other instruction reports that fault,
and it reports no label but its own. When the label is marked, an instruction that takes its jump
leads to the place in the label table, and nothing keeps it from going there: if the step stops at
all, it stops while it is traced.

## Main definitions

* `Action.Raises` — the faults that an action reports.
* `Opcode.Taken` — the instruction takes its jump.
* `Machine.Misses`, `Machine.Blames` — the label that an instruction does not find, and the faults
  that name no other label.

## Main statements

* `Action.Raises.bind` — the faults of one action after another.
* `Machine.exec_unmarked` — which instruction reports a label that is not marked.
* `Machine.step_unmarked`, `Machine.step_taken` — the same, and the way to a label, for steps.
-/

namespace Whitespace

namespace Action

variable {α β : Type} {P : Fault → Prop}

/-- Every fault that the action reports has the property `P`. -/
def Raises (P : Fault → Prop) (a : Action α) : Prop :=
  ∀ s f place s', a s = .error (.fault f place) s' → P f

theorem Raises.bind {a : Action α} {g : α → Action β} (ha : Raises P a)
    (hg : ∀ x, Raises P (g x)) : Raises P (a >>= g) := by
  intro s f place s' h
  rcases bind_eq_error h with hs | ⟨x, s₁, -, hs₁⟩
  · exact ha s f place s' hs
  · exact hg x s₁ f place s' hs₁

/-! ## Actions that report no fault -/

theorem raises_of_ok {a : Action α} (h : ∀ s, ∃ x s', a s = .ok x s') : Raises P a := by
  intro s f place s' herror
  obtain ⟨x, s₁, hok⟩ := h s
  cases hok.symm.trans herror

theorem raises_pure (x : α) : Raises P (pure x : Action α) := raises_of_ok fun s => ⟨x, s, rfl⟩

theorem raises_push (x : Item) : Raises P (push x) := raises_of_ok fun _ => ⟨_, _, rfl⟩

theorem raises_poke (address value : Item) : Raises P (poke address value) :=
  raises_of_ok fun _ => ⟨_, _, rfl⟩

theorem raises_write (text : String) : Raises P (write text) := raises_of_ok fun _ => ⟨_, _, rfl⟩

theorem raises_jumpTo (pc : Nat) : Raises P (jumpTo pc) := raises_of_ok fun _ => ⟨_, _, rfl⟩

theorem raises_enter (pc : Nat) : Raises P (enter pc) := raises_of_ok fun _ => ⟨_, _, rfl⟩

theorem raises_stop {r : Stop} (hr : ∀ f place, r ≠ .fault f place) :
    Raises P (stop r : Action α) := by
  intro s f place s' h
  cases h
  exact absurd rfl (hr f place)

theorem raises_lift (x : Except Decimal.TooLong α) : Raises P (lift x) := by
  cases x with
  | ok x => exact raises_pure x
  | error e => exact raises_stop fun _ _ => nofun

theorem raises_combine (op : Operator) (x y : Item) : Raises P (combine op x y) := by
  unfold combine
  split
  · exact raises_push _
  · exact raises_stop fun _ _ => nofun

theorem raises_isNegative (x : Item) : Raises P (isNegative x) := by
  cases x with
  | number v => exact raises_pure _
  | nothing => exact raises_stop fun _ _ => nofun

/-! ## Actions that report faults of their own -/

theorem raises_raise {f : Fault} (hf : P f) : Raises P (raise f : Action α) := by
  intro s f' place s' h
  unfold raise at h
  split at h <;> cases h
  exact hf

theorem raises_pop (hpop : P .popEmpty) : Raises P pop := by
  intro s f place s' h
  unfold pop at h
  split at h
  · exact raises_raise hpop s f place s' h
  · cases h

theorem raises_peek (hitem : ∀ depth size, P (.noItem depth size)) (depth : Int) :
    Raises P (peek depth) := by
  intro s f place s' h
  unfold peek at h
  split at h
  · cases h
  · exact raises_raise (hitem _ _) s f place s' h

theorem raises_divisor (hpop : P .popEmpty) (hzero : P .divisorZero) : Raises P divisor := by
  intro s f place s' h
  unfold divisor at h
  split at h
  · exact raises_raise hpop s f place s' h
  · split at h
    · exact raises_raise hzero s f place s' h
    · cases h

theorem raises_duplicate (hdup : P .dupEmpty) : Raises P duplicate := by
  intro s f place s' h
  unfold duplicate at h
  split at h
  · exact raises_raise hdup s f place s' h
  · cases h

theorem raises_exchange (hswap : P .swapShort) : Raises P exchange := by
  intro s f place s' h
  unfold exchange at h
  split at h
  · cases h
  · exact raises_raise hswap s f place s' h

theorem raises_slide (hnegative : ∀ count, P (.slideNegative count))
    (hdeep : ∀ count size, P (.slideDeep count size)) (count : Int) : Raises P (slide count) := by
  intro s f place s' h
  unfold slide at h
  split at h
  · exact raises_raise (hnegative _) s f place s' h
  · split at h
    · split at h
      · cases h
      · exact raises_raise (hdeep _ _) s f place s' h
    · exact raises_raise (hdeep _ _) s f place s' h

theorem raises_cell (hcell : ∀ address, P (.unwritten address)) (default? : Option Int)
    (address : Item) : Raises P (cell default? address) := by
  intro s f place s' h
  unfold cell at h
  split at h
  · cases h
  · split at h
    · cases h
    · exact raises_raise (hcell _) s f place s' h

theorem raises_leave (hcall : P .noCall) : Raises P leave := by
  intro s f place s' h
  unfold leave at h
  split at h
  · exact raises_raise hcall s f place s' h
  · cases h

theorem raises_character (hpoint : ∀ v, P (.notCodePoint v)) (hsurrogate : ∀ v, P (.surrogate v))
    (x : Item) : Raises P (character x) := by
  cases x with
  | nothing => exact raises_stop fun _ _ => nofun
  | number v =>
    intro s f place s' h
    unfold character at h
    dsimp only at h
    split at h
    · exact raises_raise (hpoint v) s f place s' h
    · split at h
      · exact raises_raise (hsurrogate v) s f place s' h
      · cases h

section Input

variable (m : Machine)

theorem raises_exhausted {f : Fault} (hf : P f) : Raises P (m.exhausted f : Action α) := by
  unfold Machine.exhausted
  split
  · exact raises_raise hf
  · exact raises_stop fun _ _ => nofun
  · exact raises_stop fun _ _ => nofun

theorem raises_readCharacter (hend : P .noCharacter) : Raises P m.readCharacter := by
  intro s f place s' h
  unfold Machine.readCharacter at h
  split at h
  · exact raises_exhausted m hend s f place s' h
  · cases h

theorem raises_readLine (hend : P .noLine) : Raises P m.readLine := by
  intro s f place s' h
  unfold Machine.readLine at h
  split at h
  · cases h
  · split at h
    · cases h
    · exact raises_exhausted m hend s f place s' h

theorem raises_readNumber (hend : P .noLine) (hline : ∀ line, P (.notNumber line)) :
    Raises P m.readNumber := by
  refine (raises_readLine m hend).bind fun line => ?_
  split
  · exact raises_lift _
  · exact raises_raise (hline _)

theorem raises_target {label : Option Int}
    (hlabel : ∀ l, label = some l → m.program.labels.get? l = none → P (.unmarked l)) :
    Raises P (m.target label) := by
  cases label with
  | none => exact raises_stop fun _ _ => nofun
  | some l =>
    intro s f place s' h
    unfold Machine.target at h
    dsimp only at h
    split at h
    · cases h
    · next hnone => exact raises_raise (hlabel l rfl hnone) s f place s' h

theorem raises_jump {label : Option Int}
    (hlabel : ∀ l, label = some l → m.program.labels.get? l = none → P (.unmarked l)) :
    Raises P (m.jump label) :=
  (raises_target m hlabel).bind raises_jumpTo

end Input

end Action

/-! ## Instructions -/

section Instructions

open Whitespace.Action

variable {P : Fault → Prop} {i : Instruction} {V : Item → Prop} {c d : Spent} {m : Machine}
  (hfault : ∀ f, (∀ l, f ≠ .unmarked l) → f ≠ .divisorZero → P f)
  (hzero : c = .nothing → P .divisorZero)
  (hlabel : i.opcode ∈ [.call, .jump, .jumpZero, .jumpNegative] →
    ∀ l, i.operand = some l → m.program.labels.get? l = none → P (.unmarked l))

include hfault hzero in
theorem Leads.raises {α : Type} {Q : α → Prop} {a : Machine → Action α} (h : Leads i V c d Q a) :
    Raises P (a m) := by
  cases h with
  | pop => exact raises_pop (hfault _ nofun nofun)
  | divisor => exact raises_divisor (hfault _ nofun nofun) (hzero rfl)
  | peek n => exact raises_peek (fun _ _ => hfault _ nofun nofun) n
  | isNegative => exact raises_isNegative _
  | character =>
    exact raises_character (fun _ => hfault _ nofun nofun) (fun _ => hfault _ nofun nofun) _
  | lift x => exact raises_lift x
  | cell _ address => exact raises_cell (fun _ => hfault _ nofun nofun) _ address
  | readCharacter => exact raises_readCharacter m (hfault _ nofun nofun)
  | readNumber =>
    exact raises_readNumber m (hfault _ nofun nofun) fun _ => hfault _ nofun nofun

include hfault hlabel in
theorem Ends.raises {a : Machine → Action Unit} (h : Ends i V c a) : Raises P (a m) := by
  cases h with
  | pure => exact raises_pure _
  | push => exact raises_push _
  | combine _ op => exact raises_combine op _ _
  | poke _ _ address => exact raises_poke address _
  | write _ _ text => exact raises_write text
  | duplicate => exact raises_duplicate (hfault _ nofun nofun)
  | exchange => exact raises_exchange (hfault _ nofun nofun)
  | slide n =>
    exact raises_slide (fun _ => hfault _ nofun nofun) (fun _ _ => hfault _ nofun nofun) n
  | jump hop => exact raises_jump m (hlabel (List.mem_cons_of_mem _ hop))
  | call hop => exact (raises_target m (hlabel (by simp [hop]))).bind raises_enter
  | leave => exact raises_leave (hfault _ nofun nofun)
  | halt => exact raises_stop fun _ _ => nofun
  | uncounted => exact raises_stop fun _ _ => nofun

include hfault hzero hlabel in
/-- The faults of an instruction: only at its beginning it may find a divisor of zero, and the only
label that it may miss is its own. -/
theorem Handles.raises {a : Machine → Action Unit} (h : Handles i (fun _ => True) c a) :
    Raises P (a m) := by
  induction h with
  | last h => exact h.raises hfault hlabel
  | next h hg ih =>
    exact (h.raises hfault hzero).bind fun x =>
      ih x (h.trivial x) fun hd => hzero (h.eq_nothing hd)

end Instructions

theorem Fault.exists_unmarked_of_kind {f : Fault} (h : f.kind = "UnresolvedLabel") :
    ∃ l, f = .unmarked l := by
  cases f <;> simp [kind] at h ⊢

/-- The instruction takes its jump: unconditionally, or because the top item is zero, or
negative. -/
inductive Opcode.Taken : Opcode → List Item → Prop where
  | call (stack : List Item) : Taken .call stack
  | jump (stack : List Item) : Taken .jump stack
  | zero (rest : List Item) : Taken .jumpZero (.number 0 :: rest)
  | negative {v : Int} (h : v < 0) (rest : List Item) : Taken .jumpNegative (.number v :: rest)

namespace Machine

open Whitespace.Action

variable {m : Machine} {s s' : State} {i : Instruction} {l : Int} {k : Nat}

/-- What is known of an instruction that reports a label which is not marked. -/
def Misses (m : Machine) (i : Instruction) (l : Int) : Prop :=
  i.opcode ∈ [.call, .jump, .jumpZero, .jumpNegative] ∧ i.operand = some l ∧
    m.program.labels.get? l = none

/-- The fault names no label as not marked but one that the instruction misses. -/
def Blames (m : Machine) (i : Instruction) (f : Fault) : Prop := ∀ l, f = .unmarked l → m.Misses i l

/-- An instruction reports no label as not marked but the one that it goes to. -/
theorem exec_unmarked (m : Machine) (i : Instruction) : Raises (m.Blames i) (m.exec i) := by
  refine (exec_handles_any i).raises ?_ (fun _ => nofun) fun hop l hl hnone => ?_
  · intro f hf _ l hl
    exact absurd hl (hf l)
  · intro l' heq
    cases heq
    exact ⟨hop, hl, hnone⟩

/-- A step that reports a label as not marked executes an instruction that goes to it. -/
theorem step_unmarked (h : m.running s = true) {place : Option (Nat × Instruction)}
    (hstep : (m.step s).result = .error (.fault (.unmarked l) place) s') :
    ∃ i, m.program.instructions[s.pc]? = some i ∧ m.Misses i l := by
  obtain ⟨i, hi, ⟨s₁, -, hresult⟩ | ⟨e, s₁, -, hresult⟩ | ⟨r, s₁, hexec, hresult⟩⟩ := step_cases h
  · cases hresult.symm.trans hstep
  · cases hresult.symm.trans hstep
  · refine ⟨i, hi, ?_⟩
    rw [hresult] at hstep
    cases r <;> cases hstep
    exact exec_unmarked m i _ _ _ _ hexec l rfl

theorem target_of_get? (hk : m.program.labels.get? l = some k) (s : State) :
    m.target (some l) s = .ok k s := by
  unfold target
  dsimp only
  rw [hk]

theorem jump_of_get? (hk : m.program.labels.get? l = some k) (s : State) :
    m.jump (some l) s = .ok () { s with pc := k } := by
  rw [jump, bind_apply, target_of_get? hk]
  rfl

/-- An instruction whose label is marked goes there if it takes its jump. -/
theorem exec_taken (hl : i.operand = some l) (hk : m.program.labels.get? l = some k)
    (htaken : i.opcode.Taken s.stack) : ∃ s', m.exec i s = .ok () s' ∧ s'.pc = k := by
  obtain ⟨op, operand⟩ := i
  obtain rfl : operand = some l := hl
  generalize hstack : s.stack = stack at htaken
  cases htaken with
  | call =>
    simp only [exec, bind_apply, target_of_get? hk]
    exact ⟨_, rfl, rfl⟩
  | jump => exact ⟨_, jump_of_get? hk s, rfl⟩
  | zero rest =>
    simp only [exec, bind_apply, pop, hstack, if_true, jump_of_get? hk]
    exact ⟨_, rfl, rfl⟩
  | @negative v hv rest =>
    have hnegative (t : State) : isNegative (.number v) t = .ok true t := by
      rw [isNegative, decide_eq_true hv]
      rfl
    simp only [exec, bind_apply, pop, hstack, hnegative, if_true, jump_of_get? hk]
    exact ⟨_, rfl, rfl⟩

/-- So does the step; all that can stop it is a number too long to be traced. -/
theorem step_taken (h : m.running s = true) (hi : m.program.instructions[s.pc]? = some i)
    (hl : i.operand = some l) (hk : m.program.labels.get? l = some k)
    (htaken : i.opcode.Taken s.stack) :
    ∃ s', s'.pc = k ∧
      ((m.step s).result = .ok () s' ∨ ∃ e, (m.step s).result = .error (.tooLong e) s') := by
  obtain ⟨t, hexec, hpc⟩ : ∃ t, m.exec i { s with pc := s.pc + 1 } = .ok () t ∧ t.pc = k :=
    exec_taken hl hk htaken
  obtain ⟨j, hj, hstep⟩ := step_cases h
  cases hi.symm.trans hj
  refine ⟨t, hpc, ?_⟩
  obtain ⟨s₁, hs₁, hresult⟩ | ⟨e, s₁, hs₁, hresult⟩ | ⟨r, s₁, hs₁, hresult⟩ := hstep
  · cases hexec.symm.trans hs₁
    exact .inl hresult
  · cases hexec.symm.trans hs₁
    exact .inr ⟨e, hresult⟩
  · cases hexec.symm.trans hs₁

end Machine

end Whitespace
