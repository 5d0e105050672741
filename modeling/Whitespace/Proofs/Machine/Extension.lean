import Whitespace.Proofs.Machine.Frame
import Whitespace.Proofs.Machine.Walk

/-!
# What lies below the stacks

Instructions work on the top of the stacks. What lies further down, and the input that comes after
all that is read, can be changed without a program noticing, as long as it does not run out of
items, of return addresses or of text. An extension puts something out of the reach of a state:
below its stack, below its return addresses and behind its input. An action that gives a value gives
the same value in the extended state and leaves the same state, extended. An action that stops does
so too, unless it stopped for want of what the extension adds.

## Main definitions

* `Extension`, `State.extend` — a state with something out of its reach.
* `Extension.Averts` — the stops that an extension may avert.
* `Action.Local` — an action does not notice an extension.

## Main statements

* `Action.Local.bind` — one action after another.
* `Machine.exec_local` — every instruction is local, if no more input is added to what it reads.
* `Machine.mirrored_walk` — so is every walk.
* `Machine.walk_below` — what lies below the stacks makes no difference to a walk that goes on, or
  halts.
-/

namespace Whitespace

/-- Items and return addresses to be put below others, and text to be put behind an input. -/
structure Extension where
  items : List Item := []
  calls : List Nat := []
  text : List Char := []

namespace State

/-- The state with an extension below its stacks and behind its input. -/
def extend (s : State) (e : Extension) : State :=
  { s with
    stack := s.stack ++ e.items
    calls := s.calls ++ e.calls
    unread := s.unread ++ e.text }

variable (s : State) (e : Extension)

@[simp] theorem stack_extend : (s.extend e).stack = s.stack ++ e.items := rfl

@[simp] theorem calls_extend : (s.extend e).calls = s.calls ++ e.calls := rfl

@[simp] theorem heap_extend : (s.extend e).heap = s.heap := rfl

@[simp] theorem unread_extend : (s.extend e).unread = s.unread ++ e.text := rfl

theorem extend_of_below (items : List Item) (calls : List Nat) :
    s.extend { items, calls } =
      { s with stack := s.stack ++ items, calls := s.calls ++ calls } := by
  simp [extend]

end State

/-- The fault is that the stack has too few items. -/
def Fault.ofStack : Fault → Bool
  | popEmpty | dupEmpty | noItem .. | swapShort | slideDeep .. => true
  | _ => false

namespace Extension

/-- The stop may not come about when the state is extended: more items make up for a stack that has
too few of them, and more return addresses for a missing one. A number that is too long to be
written may be the depth that a stack does not have. -/
def Averts (e : Extension) : Stop → Prop
  | .fault f _ => (f.ofStack = true ∧ e.items ≠ []) ∨ (f = .noCall ∧ e.calls ≠ [])
  | .tooLong _ => e.items ≠ []
  | _ => False

/-- The same for the ways in which a walk ends. -/
def AvertsEnding (e : Extension) : Run.Ending → Prop
  | .stopped reason => e.Averts reason
  | _ => False

theorem averts_fault (e : Extension) {f : Fault} (hf : f.ofStack = true) (he : e.items ≠ []) :
    e.Averts (.fault f none) := Or.inl ⟨hf, he⟩

theorem averts_tooLong (e : Extension) (he : e.items ≠ []) (long : Decimal.TooLong) :
    e.Averts (.tooLong long) := he

theorem averts_noCall (e : Extension) (he : e.calls ≠ []) : e.Averts (.fault .noCall none) :=
  Or.inr ⟨rfl, he⟩

theorem averts_locate (e : Extension) (pc : Nat) (i : Instruction) (r : Stop) :
    e.Averts (Machine.locate pc i r) ↔ e.Averts r := by
  cases r <;> rfl

theorem avertsEnding_ofStop (e : Extension) (r : Stop) :
    e.AvertsEnding (.ofStop r) ↔ e.Averts r := by
  cases r <;> rfl

/-- Text behind the input averts no stop of an action that reads nothing. -/
theorem not_averts_text (text : List Char) (r : Stop) : ¬ Averts { text } r := by
  cases r <;> simp [Averts]

end Extension

namespace Action

variable {α β : Type} {e : Extension} {s : State}

/-- The second result is the first one in the extended state, unless the first is a stop that the
extension averts. -/
inductive Mirrored (e : Extension) :
    EStateM.Result Stop State α → EStateM.Result Stop State α → Prop where
  | ok (x : α) (s : State) : Mirrored e (.ok x s) (.ok x (s.extend e))
  | error (r : Stop) (s : State) : Mirrored e (.error r s) (.error r (s.extend e))
  | averted {r : Stop} (s : State) (h : e.Averts r) (result : EStateM.Result Stop State α) :
      Mirrored e (.error r s) result

/-- The action does not notice the extension. -/
def Local (e : Extension) (a : Action α) : Prop := ∀ s, Mirrored e (a s) (a (s.extend e))

theorem Local.bind {a : Action α} {g : α → Action β} (ha : Local e a) (hg : ∀ x, Local e (g x)) :
    Local e (a >>= g) := by
  intro s
  have hs := ha s
  rw [bind_apply, bind_apply]
  generalize a s = result at hs
  generalize a (s.extend e) = extended at hs
  cases hs with
  | ok x s' => exact hg x s'
  | error r s' => exact .error r s'
  | averted s' h => exact .averted s' h _

/-! ## Actions that do not look at what is extended -/

theorem local_pure (x : α) : Local e (pure x : Action α) := fun s => .ok x s

theorem local_stop (r : Stop) : Local e (stop r : Action α) := fun s => .error r s

theorem local_raise (f : Fault) : Local e (raise f : Action α) := by
  intro s
  unfold raise
  cases f.text with
  | ok t => exact .error _ s
  | error long => exact .error _ s

theorem local_lift (x : Except Decimal.TooLong α) : Local e (lift x) := by
  cases x with
  | ok x => exact local_pure x
  | error long => exact local_stop _

theorem local_isNegative (x : Item) : Local e (isNegative x) := by
  cases x with
  | number v => exact local_pure _
  | nothing => exact local_stop _

theorem local_character (x : Item) : Local e (character x) := by
  cases x with
  | nothing => exact local_stop _
  | number v =>
    intro s
    unfold character
    dsimp only
    split
    · exact local_raise _ s
    · split
      · exact local_raise _ s
      · exact .ok _ s

theorem local_cell (default? : Option Int) (address : Item) : Local e (cell default? address) := by
  intro s
  simp only [cell, State.heap_extend]
  split
  · exact .ok _ s
  · split
    · exact .ok _ s
    · exact local_raise _ s

theorem local_poke (address value : Item) : Local e (poke address value) := fun _ => .ok () _

theorem local_write (text : String) : Local e (write text) := fun _ => .ok () _

theorem local_jumpTo (pc : Nat) : Local e (jumpTo pc) := fun _ => .ok () _

theorem local_target (m : Machine) (label : Option Int) : Local e (m.target label) := by
  cases label with
  | none => exact local_stop _
  | some l =>
    intro s
    simp only [Machine.target]
    split
    · exact .ok _ s
    · exact local_raise _ s

theorem local_jump (m : Machine) (label : Option Int) : Local e (m.jump label) :=
  (local_target m label).bind local_jumpTo

theorem local_exhausted (m : Machine) (f : Fault) : Local e (m.exhausted f : Action α) := by
  unfold Machine.exhausted
  split
  · exact local_raise f
  · exact local_stop _
  · exact local_stop _

/-! ## The stack -/

/-- A stack that has too few items: with no more of them the fault is the same, and otherwise the
extension averts it. -/
theorem mirrored_of_raise {a : Action α} {f : Fault} (hf : f.ofStack = true)
    (hs : a s = raise f s) (hsame : e.items = [] → a (s.extend e) = raise f (s.extend e)) :
    Mirrored e (a s) (a (s.extend e)) := by
  rw [hs]
  by_cases hitems : e.items = []
  · rw [hsame hitems]
    exact local_raise f s
  · unfold raise
    cases f.text with
    | ok t => exact .averted s (e.averts_fault hf hitems) _
    | error long => exact .averted s (e.averts_tooLong hitems long) _

theorem local_push (x : Item) : Local e (push x) := fun _ => .ok () _

theorem local_pop : Local e pop := by
  intro s
  cases hstack : s.stack with
  | nil =>
    refine mirrored_of_raise (f := .popEmpty) rfl ?_ fun hitems => ?_
    · simp only [pop, hstack]
    · simp only [pop, State.stack_extend, hstack, hitems, List.append_nil]
  | cons x rest =>
    simp only [pop, State.stack_extend, hstack, List.cons_append]
    exact .ok x _

theorem local_divisor : Local e divisor := by
  intro s
  cases hstack : s.stack with
  | nil =>
    refine mirrored_of_raise (f := .popEmpty) rfl ?_ fun hitems => ?_
    · simp only [divisor, hstack]
    · simp only [divisor, State.stack_extend, hstack, hitems, List.append_nil]
  | cons x rest =>
    simp only [divisor, State.stack_extend, hstack, List.cons_append]
    split
    · exact local_raise _ s
    · exact .ok x _

theorem local_duplicate : Local e duplicate := by
  intro s
  cases hstack : s.stack with
  | nil =>
    refine mirrored_of_raise (f := .dupEmpty) rfl ?_ fun hitems => ?_
    · simp only [duplicate, hstack]
    · simp only [duplicate, State.stack_extend, hstack, hitems, List.append_nil]
  | cons x rest =>
    simp only [duplicate, State.stack_extend, hstack, List.cons_append]
    exact .ok () _

theorem local_exchange : Local e exchange := by
  intro s
  match hstack : s.stack with
  | x :: y :: rest =>
    simp only [exchange, State.stack_extend, hstack, List.cons_append]
    exact .ok () _
  | [] | [x] =>
    refine mirrored_of_raise (f := .swapShort) rfl ?_ fun hitems => ?_
    · simp only [exchange, hstack]
    · simp only [exchange, State.stack_extend, hstack, hitems, List.append_nil]

theorem local_peek (depth : Int) : Local e (peek depth) := by
  intro s
  cases hitem : (if depth < 0 then none else s.stack[depth.toNat]?) with
  | some x =>
    have hsame : (if depth < 0 then none else (s.stack ++ e.items)[depth.toNat]?) = some x := by
      split at hitem
      · cases hitem
      · next hdepth =>
        obtain ⟨hlt, -⟩ := List.getElem?_eq_some_iff.1 hitem
        rw [if_neg hdepth, List.getElem?_append_left hlt, hitem]
    simp only [peek, State.stack_extend, hitem, hsame]
    exact .ok x s
  | none =>
    refine mirrored_of_raise (f := .noItem depth s.stack.length) rfl ?_ fun hitems => ?_
    · simp only [peek, hitem]
    · simp only [peek, State.stack_extend, hitems, List.append_nil, hitem]

theorem local_slide (count : Int) : Local e (slide count) := by
  intro s
  by_cases hcount : count < 0
  · simp only [slide, hcount, if_true]
    exact local_raise _ s
  cases hstack : s.stack with
  | nil =>
    refine mirrored_of_raise (f := .slideDeep count 0) rfl ?_ fun hitems => ?_
    · simp only [slide, hcount, if_false, hstack]
    · simp only [slide, hcount, if_false, State.stack_extend, hstack, hitems, List.append_nil]
  | cons top rest =>
    by_cases hlength : count.toNat ≤ rest.length
    · have hmore : count.toNat ≤ (rest ++ e.items).length := by
        rw [List.length_append]
        omega
      simp only [slide, hcount, if_false, State.stack_extend, hstack, List.cons_append, hlength,
        hmore, if_true, List.drop_append_of_le_length hlength]
      exact .ok () _
    · refine mirrored_of_raise (f := .slideDeep count s.stack.length) rfl ?_ fun hitems => ?_
      · simp only [slide, hcount, if_false, hstack, hlength]
      · simp only [slide, hcount, if_false, State.stack_extend, hstack, hitems, List.append_nil,
          hlength]

theorem local_combine (op : Operator) (x y : Item) : Local e (combine op x y) := by
  unfold combine
  split
  · exact local_push _
  · exact local_stop _

/-! ## Return addresses -/

theorem local_enter (pc : Nat) : Local e (enter pc) := fun _ => .ok () _

theorem local_leave : Local e leave := by
  intro s
  cases hcalls : s.calls with
  | cons pc rest =>
    simp only [leave, State.calls_extend, hcalls, List.cons_append]
    exact .ok () _
  | nil =>
    by_cases he : e.calls = []
    · simp only [leave, State.calls_extend, hcalls, he, List.append_nil]
      exact local_raise _ s
    · simp only [leave, hcalls]
      exact .averted s (e.averts_noCall he) _

/-! ## Input, when no text is added -/

section Input

variable (m : Machine) (he : e.text = [])
include he

theorem local_readCharacter : Local e m.readCharacter := by
  intro s
  cases hunread : s.unread with
  | nil =>
    simp only [Machine.readCharacter, State.unread_extend, hunread, he, List.append_nil]
    exact local_exhausted m _ s
  | cons c rest =>
    simp only [Machine.readCharacter, State.unread_extend, hunread, List.cons_append]
    exact .ok c _

theorem local_readLine : Local e m.readLine := by
  intro s
  have hrest (rest : List Char) :
      { s.extend e with unread := rest } = State.extend { s with unread := rest } e := by
    simp [State.extend, he]
  simp only [Machine.readLine, State.unread_extend, he, List.append_nil, hrest]
  split
  · exact .ok _ _
  · split
    · exact .ok _ _
    · exact local_exhausted m _ s

theorem local_readNumber : Local e m.readNumber := by
  refine (local_readLine m he).bind fun line => ?_
  split
  · exact local_lift _
  · exact local_raise _

end Input

end Action

/-! ## Instructions -/

section Instructions

open Whitespace.Action

variable {i : Instruction} {V : Item → Prop} {c d : Spent} {e : Extension} {m : Machine}

theorem Leads.isLocal {α : Type} {Q : α → Prop} {a : Machine → Action α}
    (he : c = .nothing → i.opcode ∈ [.readChar, .readNumber] → e.text = [])
    (h : Leads i V c d Q a) : Local e (a m) := by
  cases h with
  | pop => exact local_pop
  | divisor => exact local_divisor
  | peek n => exact local_peek n
  | isNegative => exact local_isNegative _
  | character => exact local_character _
  | lift x => exact local_lift x
  | cell _ address => exact local_cell _ address
  | readCharacter hop => exact local_readCharacter m (he rfl (by simp [hop]))
  | readNumber hop => exact local_readNumber m (he rfl (by simp [hop]))

theorem Ends.isLocal {a : Machine → Action Unit} (h : Ends i V c a) : Local e (a m) := by
  cases h with
  | pure => exact local_pure _
  | push => exact local_push _
  | combine _ op => exact local_combine op _ _
  | poke _ _ address => exact local_poke address _
  | write _ _ text => exact local_write text
  | duplicate => exact local_duplicate
  | exchange => exact local_exchange
  | slide n => exact local_slide n
  | jump => exact local_jump m i.operand
  | call => exact (local_target m i.operand).bind local_enter
  | leave => exact local_leave
  | halt => exact local_stop _
  | uncounted => exact local_stop _

/-- Once something is used up, nothing is read any more. -/
theorem Handles.isLocal {a : Machine → Action Unit} (h : Handles i (fun _ => True) c a)
    (he : c = .nothing → i.opcode ∈ [.readChar, .readNumber] → e.text = []) : Local e (a m) := by
  induction h with
  | last h => exact h.isLocal
  | next h hg ih =>
    exact (h.isLocal he).bind fun x => ih x (h.trivial x) fun hd => he (h.eq_nothing hd)

end Instructions

/-! ## Steps and walks -/

/-- The second walk has come to where the first one is, in the extended state, unless the first one
ended in a way that the extension averts. -/
inductive Progress.Mirrored (e : Extension) : Progress → Progress → Prop where
  | going (s : State) : Mirrored e (.going s) (.going (s.extend e))
  | ended (ending : Run.Ending) (s : State) :
      Mirrored e (.ended ending s) (.ended ending (s.extend e))
  | averted {ending : Run.Ending} (s : State) (h : e.AvertsEnding ending) (p : Progress) :
      Mirrored e (.ended ending s) p

namespace Machine

open Whitespace.Action

variable {m : Machine} {i : Instruction} {e : Extension} {s s' : State}

/-- Every instruction is local, if no text is added to an input that it reads. -/
theorem exec_local (m : Machine) (i : Instruction)
    (he : i.opcode ∈ [.readChar, .readNumber] → e.text = []) : Local e (m.exec i) :=
  (exec_handles_any i).isLocal (fun _ => he)

/-- So is a step without a trace. -/
theorem mirrored_step (hm : m.settings.trace = false) (he : e.text = []) (s : State)
    (hi : m.program.instructions[s.pc]? = some i) :
    Action.Mirrored e (m.step s).result (m.step (s.extend e)).result := by
  have hexec := exec_local m i (e := e) (fun _ => he) { s with pc := s.pc + 1 }
  change Action.Mirrored e _ (m.exec i { s.extend e with pc := (s.extend e).pc + 1 }) at hexec
  rw [step_result hi, step_result (s := s.extend e) hi]
  generalize m.exec i { s with pc := s.pc + 1 } = result at hexec
  generalize m.exec i { s.extend e with pc := (s.extend e).pc + 1 } = extended at hexec
  cases hexec with
  | ok _ s' =>
    simp only [conclude, hm, Bool.false_eq_true, if_false]
    exact .ok () s'
  | error r s' => exact .error _ s'
  | averted s' h => exact .averted s' ((e.averts_locate s.pc i _).2 h) _

theorem mirrored_tick (hm : m.settings.trace = false) (he : e.text = []) (s : State) :
    Progress.Mirrored e (m.tick s) (m.tick (s.extend e)) := by
  have hrunning : m.running (s.extend e) = m.running s := rfl
  rw [tick, tick, hrunning]
  split
  · next h =>
    have hi := Array.getElem?_eq_getElem (of_decide_eq_true h)
    have hstep := mirrored_step hm he s hi
    generalize (m.step s).result = result at hstep
    generalize (m.step (s.extend e)).result = extended at hstep
    cases hstep with
    | ok _ s' => exact .going s'
    | error r s' => exact .ended _ s'
    | averted s' h => exact .averted s' ((e.avertsEnding_ofStop _).2 h) _
  · exact .ended .ranOff s

/-- A walk without a trace does not notice an extension of the stacks. -/
theorem mirrored_walk (hm : m.settings.trace = false) (he : e.text = []) (s : State) (k : Nat) :
    Progress.Mirrored e (m.walk s k) (m.walk (s.extend e) k) := by
  induction k generalizing s with
  | zero => exact .going s
  | succ k ih =>
    have htick := mirrored_tick hm he s
    rw [walk, walk]
    generalize m.tick s = p at htick
    generalize m.tick (s.extend e) = extended at htick
    cases htick with
    | going s' => exact ih s'
    | ended ending s' => exact .ended ending s'
    | averted s' h => exact .averted s' h _

/-- Execution is local to the top of the stacks. Let a machine that does not trace come to a state
in a number of steps, or halt there or leave the program. With any items below its stack and any
return addresses below its own it comes to the same state in as many steps, with those items and
addresses still below and all else the same. -/
theorem walk_below (hm : m.settings.trace = false) (s s' : State) (k : Nat) (items : List Item)
    (calls : List Nat) :
    (m.walk s k = .going s' →
      m.walk { s with stack := s.stack ++ items, calls := s.calls ++ calls } k =
        .going { s' with stack := s'.stack ++ items, calls := s'.calls ++ calls }) ∧
    ∀ ending, ending = .halted ∨ ending = .ranOff → m.walk s k = .ended ending s' →
      m.walk { s with stack := s.stack ++ items, calls := s.calls ++ calls } k =
        .ended ending { s' with stack := s'.stack ++ items, calls := s'.calls ++ calls } := by
  simp only [← State.extend_of_below]
  have hwalk := mirrored_walk hm (e := { items, calls }) rfl s k
  constructor
  · intro hgoing
    rw [hgoing] at hwalk
    generalize m.walk (s.extend { items, calls }) k = extended at hwalk
    cases hwalk with
    | going => rfl
  · intro ending hending hended
    rw [hended] at hwalk
    generalize m.walk (s.extend { items, calls }) k = extended at hwalk
    cases hwalk with
    | ended => rfl
    | averted _ h => rcases hending with rfl | rfl <;> exact h.elim

/-- A subroutine that slides one item away and returns to a halt, above another item and inside
another call. -/
theorem walk_below_slide :
    ∃ (m : Machine) (s s' : State), m.settings.trace = false ∧ m.walk s 3 = .ended .halted s' ∧
      s'.stack = [.number 1] ∧ s'.calls = [] ∧
      m.walk { s with stack := s.stack ++ [.number 7], calls := s.calls ++ [5] } 3 =
        .ended .halted { s' with stack := [.number 1, .number 7], calls := [5] } := by
  let m : Machine := { program := ⟨#[⟨.slide, some 1⟩, ⟨.ret, none⟩, ⟨.halt, none⟩], {}⟩ }
  have hwalk : m.walk { stack := [.number 1, .number 2], calls := [2] } 3 =
      .ended .halted { pc := 3, stack := [.number 1] } := by decide
  obtain ⟨-, hended⟩ := walk_below (m := m) rfl { stack := [.number 1, .number 2], calls := [2] }
    { pc := 3, stack := [.number 1] } 3 [.number 7] [5]
  exact ⟨m, _, _, rfl, hwalk, rfl, rfl, hended .halted (.inl rfl) hwalk⟩

end Machine

end Whitespace
