import Whitespace.Proofs.Machine.Handlers

/-!
# What actions leave alone

An action changes a few parts of the state and leaves the others alone, whether it gives a value or
stops. What it leaves alone is said by a function of the state that it keeps: for each action there
is one lemma, about all functions that do not look at the parts the action changes.

## Main definitions

* `Action.after` — the state that an action leaves.
* `Action.Keeps` — a function of the state has the same value before and after an action.

## Main statements

* `Action.Keeps.bind` — what two actions keep, both together keep.
* `Action.keeps_pop`, `Action.keeps_poke`, … — what each action keeps.
* `Leads.keeps`, `Ends.keeps`, `Handles.keeps` — what the actions of an instruction keep.
* `Machine.exec_keeps` — what every instruction keeps.
-/

namespace Whitespace

namespace Action

variable {α β γ : Type}

/-- The state that an action leaves. -/
def after : EStateM.Result Stop State α → State
  | .ok _ s => s
  | .error _ s => s

theorem bind_apply (a : Action α) (f : α → Action β) (s : State) :
    (a >>= f) s =
      match a s with
      | .ok x s' => f x s'
      | .error r s' => .error r s' := by
  change EStateM.bind a f s = _
  unfold EStateM.bind
  cases a s <;> rfl

/-- Where one action after another stops. -/
theorem bind_eq_error {a : Action α} {g : α → Action β} {s s' : State} {r : Stop}
    (h : (a >>= g) s = .error r s') :
    a s = .error r s' ∨ ∃ x s₁, a s = .ok x s₁ ∧ g x s₁ = .error r s' := by
  rw [bind_apply] at h
  cases hs : a s with
  | ok x s₁ =>
    rw [hs] at h
    exact .inr ⟨x, s₁, rfl, h⟩
  | error r₁ s₁ =>
    rw [hs] at h
    cases h
    exact .inl rfl

/-- The value of `f` is the same before and after the action. -/
def Keeps (f : State → γ) (a : Action α) : Prop := ∀ s, f (after (a s)) = f s

variable {f : State → γ}

theorem Keeps.bind {a : Action α} {g : α → Action β} (ha : Keeps f a) (hg : ∀ x, Keeps f (g x)) :
    Keeps f (a >>= g) := by
  intro s
  have hs := ha s
  rw [bind_apply]
  cases h : a s with
  | ok x s' =>
    rw [h] at hs
    exact (hg x s').trans hs
  | error r s' =>
    rw [h] at hs
    exact hs

/-! ## Actions that change nothing -/

theorem keeps_pure (x : α) : Keeps f (pure x : Action α) := fun _ => rfl

theorem keeps_raise (fault : Fault) : Keeps f (raise fault : Action α) := by
  intro s
  unfold raise
  split <;> rfl

theorem raise_eq_error (fault : Fault) (s : State) :
    ∃ r, (raise fault : Action α) s = .error r s := by
  unfold raise
  split
  · exact ⟨_, rfl⟩
  · exact ⟨_, rfl⟩

theorem exhausted_eq_error (m : Machine) (fault : Fault) (s : State) :
    ∃ r, (m.exhausted fault : Action α) s = .error r s := by
  unfold Machine.exhausted
  cases m.ending with
  | closed => exact raise_eq_error fault s
  | interrupted => exact ⟨_, rfl⟩
  | undecodable => exact ⟨_, rfl⟩

theorem keeps_stop (r : Stop) : Keeps f (stop r : Action α) := fun _ => rfl

theorem keeps_lift (x : Except Decimal.TooLong α) : Keeps f (lift x) := by
  cases x <;> exact fun _ => rfl

theorem keeps_peek (depth : Int) : Keeps f (peek depth) := by
  intro s
  unfold peek
  split
  · rfl
  · exact keeps_raise _ s

theorem keeps_isNegative (x : Item) : Keeps f (isNegative x) := by
  cases x <;> exact fun _ => rfl

theorem keeps_cell (default? : Option Int) (address : Item) : Keeps f (cell default? address) := by
  intro s
  unfold cell
  split
  · rfl
  · split
    · rfl
    · exact keeps_raise _ s

theorem keeps_character (x : Item) : Keeps f (character x) := by
  cases x with
  | nothing => exact fun _ => rfl
  | number v =>
    intro s
    unfold character
    dsimp only
    split
    · exact keeps_raise _ s
    · split
      · exact keeps_raise _ s
      · rfl

theorem keeps_exhausted (m : Machine) (fault : Fault) :
    Keeps f (m.exhausted fault : Action α) := by
  unfold Machine.exhausted
  split
  · exact keeps_raise fault
  · exact keeps_stop _
  · exact keeps_stop _

/-! ## The stack -/

section Stack

variable (hf : ∀ s stack, f { s with stack := stack } = f s)
include hf

theorem keeps_push (x : Item) : Keeps f (push x) := fun s => hf s _

theorem keeps_pop : Keeps f pop := by
  intro s
  unfold pop
  split
  · exact keeps_raise _ s
  · exact hf s _

theorem keeps_divisor : Keeps f divisor := by
  intro s
  unfold divisor
  split
  · exact keeps_raise _ s
  · split
    · exact keeps_raise _ s
    · exact hf s _

theorem keeps_duplicate : Keeps f duplicate := by
  intro s
  unfold duplicate
  split
  · exact keeps_raise _ s
  · exact hf s _

theorem keeps_exchange : Keeps f exchange := by
  intro s
  unfold exchange
  split
  · exact hf s _
  · exact keeps_raise _ s

theorem keeps_slide (count : Int) : Keeps f (slide count) := by
  intro s
  unfold slide
  split
  · exact keeps_raise _ s
  · split
    · split
      · exact hf s _
      · exact keeps_raise _ s
    · exact keeps_raise _ s

theorem keeps_combine (op : Operator) (x y : Item) : Keeps f (combine op x y) := by
  unfold combine
  split
  · exact keeps_push hf _
  · exact keeps_stop _

end Stack

/-! ## Heap, input and output -/

theorem keeps_poke (hf : ∀ s heap, f { s with heap := heap } = f s) (address value : Item) :
    Keeps f (poke address value) := fun s => hf s _

theorem keeps_write (hf : ∀ s output, f { s with output := output } = f s) (text : String) :
    Keeps f (write text) := fun s => hf s _

section Input

variable (m : Machine) (hf : ∀ s unread, f { s with unread := unread } = f s)
include hf

theorem keeps_readCharacter : Keeps f m.readCharacter := by
  intro s
  unfold Machine.readCharacter
  split
  · exact keeps_exhausted m _ s
  · exact hf s _

theorem keeps_readLine : Keeps f m.readLine := by
  intro s
  unfold Machine.readLine
  split
  · exact hf s _
  · split
    · exact hf s _
    · exact keeps_exhausted m _ s

theorem keeps_readNumber : Keeps f m.readNumber := by
  refine (keeps_readLine m hf).bind fun line => ?_
  split
  · exact keeps_lift _
  · exact keeps_raise _

end Input

/-! ## The flow of control -/

theorem keeps_target (m : Machine) (label : Option Int) : Keeps f (m.target label) := by
  cases label with
  | none => exact keeps_stop _
  | some l =>
    intro s
    unfold Machine.target
    dsimp only
    split
    · rfl
    · exact keeps_raise _ s

section Flow

variable (hf : ∀ s pc calls, f { s with pc := pc, calls := calls } = f s)
include hf

theorem keeps_jumpTo (pc : Nat) : Keeps f (jumpTo pc) := fun s => hf s pc s.calls

theorem keeps_enter (pc : Nat) : Keeps f (enter pc) := fun s => hf s pc _

theorem keeps_leave : Keeps f leave := by
  intro s
  unfold leave
  split
  · exact keeps_raise _ s
  · exact hf s _ _

theorem keeps_jump (m : Machine) (label : Option Int) : Keeps f (m.jump label) :=
  (keeps_target m label).bind (keeps_jumpTo hf)

end Flow

end Action

/-! ## Instructions -/

section Instructions

open Whitespace.Action

variable {γ : Type} {f : State → γ} {i : Instruction} {V : Item → Prop} {c d : Spent}
  (hstack : ∀ s stack, f { s with stack := stack } = f s)
  (hflow : ∀ s pc calls, f { s with pc := pc, calls := calls } = f s)
  (hheap : i.opcode ∈ [.store, .readChar, .readNumber] → ∀ s heap, f { s with heap := heap } = f s)
  (hunread : c = .nothing → i.opcode ∈ [.readChar, .readNumber] →
    ∀ s unread, f { s with unread := unread } = f s)
  (houtput : i.opcode ∈ [.writeChar, .writeNumber] →
    ∀ s output, f { s with output := output } = f s)

include hstack hunread in
theorem Leads.keeps {α : Type} {Q : α → Prop} {a : Machine → Action α} (h : Leads i V c d Q a)
    (m : Machine) : Keeps f (a m) := by
  cases h with
  | pop => exact keeps_pop hstack
  | divisor => exact keeps_divisor hstack
  | peek n => exact keeps_peek n
  | isNegative => exact keeps_isNegative _
  | character => exact keeps_character _
  | lift x => exact keeps_lift x
  | cell _ address => exact keeps_cell _ address
  | readCharacter hop => exact keeps_readCharacter m (hunread rfl (by simp [hop]))
  | readNumber hop => exact keeps_readNumber m (hunread rfl (by simp [hop]))

include hstack hflow hheap houtput in
theorem Ends.keeps {a : Machine → Action Unit} (h : Ends i V c a) (m : Machine) :
    Keeps f (a m) := by
  cases h with
  | pure => exact keeps_pure _
  | push => exact keeps_push hstack _
  | combine _ op => exact keeps_combine hstack op _ _
  | poke _ hop address => exact keeps_poke (hheap hop) address _
  | write _ hop text => exact keeps_write (houtput hop) text
  | duplicate => exact keeps_duplicate hstack
  | exchange => exact keeps_exchange hstack
  | slide n => exact keeps_slide hstack n
  | jump => exact keeps_jump hflow m i.operand
  | call => exact (keeps_target m i.operand).bind (keeps_enter hflow)
  | leave => exact keeps_leave hflow
  | halt => exact keeps_stop _
  | uncounted => exact keeps_stop _

include hstack hflow hheap hunread houtput in
theorem Handles.keeps {a : Machine → Action Unit} (h : Handles i (fun _ => True) c a)
    (m : Machine) : Keeps f (a m) := by
  induction h with
  | last h => exact h.keeps hstack hflow hheap houtput m
  | next h hg ih =>
    exact (h.keeps hstack hunread m).bind fun x =>
      ih x (h.trivial x) fun hd => hunread (h.eq_nothing hd)

end Instructions

/-- What an instruction leaves alone: only some instructions change the heap, take from the input or
add to the output. -/
theorem Machine.exec_keeps {γ : Type} {f : State → γ} (m : Machine) (i : Instruction)
    (hstack : ∀ s stack, f { s with stack := stack } = f s)
    (hflow : ∀ s pc calls, f { s with pc := pc, calls := calls } = f s)
    (hheap : i.opcode ∈ [.store, .readChar, .readNumber] →
      ∀ s heap, f { s with heap := heap } = f s)
    (hunread : i.opcode ∈ [.readChar, .readNumber] →
      ∀ s unread, f { s with unread := unread } = f s)
    (houtput : i.opcode ∈ [.writeChar, .writeNumber] →
      ∀ s output, f { s with output := output } = f s) :
    Action.Keeps f (m.exec i) :=
  (exec_handles_any i).keeps hstack hflow hheap (fun _ => hunread) houtput m

end Whitespace
