import Whitespace.Proofs.Machine.Frame

/-!
# Machines that hold only numbers

When every instruction has the operand that its opcode takes, the stack and the heap never come to
hold nothing. So nothing is never used where only a number will do, and an instruction that does not
halt the machine stops it with a fault or at the limit of decimal text, in no other way.

## Main definitions

* `State.Numeric` — the stack and the heap hold only numbers.
* `Stop.Proper` — a stop that a program may come to by what it does.
* `Action.Outcome`, `Action.Sound` — on numbers, an action leaves numbers or stops properly.

## Main statements

* `Action.Sound.bind` — one action after another.
* `Leads.sound`, `Ends.sound`, `Handles.sound` — the actions of an instruction.
* `Machine.exec_sound` — every well-formed instruction other than a halt is sound.
-/

namespace Whitespace

/-- The stack and the heap hold only numbers. -/
structure State.Numeric (s : State) : Prop where
  stack : ∀ x ∈ s.stack, x ≠ .nothing
  heap : ∀ address x, s.heap.get? address = some x → x ≠ .nothing

theorem State.Numeric.setStack {s : State} (hs : s.Numeric) {stack : List Item}
    (h : ∀ x ∈ stack, x ≠ .nothing) : State.Numeric { s with stack := stack } :=
  ⟨h, hs.heap⟩

/-- A stop that a program may come to by what it does: a fault, not yet located, or a number beyond
the limit of decimal text. -/
inductive Stop.Proper : Stop → Prop where
  | fault (f : Fault) : Proper (.fault f none)
  | tooLong (e : Decimal.TooLong) : Proper (.tooLong e)

theorem Instruction.WellFormed.exists_operand {i : Instruction} (hwf : i.WellFormed)
    (hkind : i.opcode.operandKind ≠ .none) : ∃ v, i.operand = some v := by
  obtain ⟨op, _ | v⟩ := i
  · cases h : op.operandKind <;> simp_all [WellFormed]
  · exact ⟨v, rfl⟩

namespace Action

variable {α β : Type}

/-- A result on numbers: a value with the property `Q` and again numbers, or a proper stop. -/
inductive Outcome (Q : α → Prop) : EStateM.Result Stop State α → Prop where
  | ok {x : α} {s : State} (hx : Q x) (hs : s.Numeric) : Outcome Q (.ok x s)
  | error {r : Stop} {s : State} (hr : r.Proper) : Outcome Q (.error r s)

/-- Started on numbers, the action has a result on numbers. -/
def Sound (Q : α → Prop) (a : Action α) : Prop := ∀ s : State, s.Numeric → Outcome Q (a s)

theorem Sound.bind {Q : α → Prop} {R : β → Prop} {a : Action α} {g : α → Action β}
    (ha : Sound Q a) (hg : ∀ x, Q x → Sound R (g x)) : Sound R (a >>= g) := by
  intro s hs
  have hresult := ha s hs
  rw [bind_apply]
  cases h : a s with
  | ok x s' =>
    rw [h] at hresult
    cases hresult with
    | ok hx hs' => exact hg x hx s' hs'
  | error r s' =>
    rw [h] at hresult
    cases hresult with
    | error hr => exact .error hr

/-! ## Stops -/

section Stops

variable {Q : α → Prop}

theorem sound_raise (f : Fault) : Sound Q (raise f : Action α) := by
  intro s _
  unfold raise
  cases f.text with
  | ok t => exact .error (.fault f)
  | error e => exact .error (.tooLong e)

theorem sound_exhausted {m : Machine} (hm : m.ending = .closed) (f : Fault) :
    Sound Q (m.exhausted f : Action α) := by
  rw [Machine.exhausted, hm]
  exact sound_raise f

theorem sound_pure {x : α} (hx : Q x) : Sound Q (pure x : Action α) := fun _ hs => .ok hx hs

theorem sound_lift (x : Except Decimal.TooLong α) : Sound (fun _ => True) (lift x) := by
  cases x with
  | ok x => exact sound_pure trivial
  | error e => exact fun _ _ => .error (.tooLong e)

end Stops

/-! ## The stack -/

theorem sound_push {x : Item} (hx : x ≠ .nothing) : Sound (fun _ => True) (push x) :=
  fun _ hs => .ok trivial (hs.setStack (List.forall_mem_cons.2 ⟨hx, hs.stack⟩))

theorem sound_pop : Sound (· ≠ .nothing) pop := by
  intro s hs
  have hstack := hs.stack
  unfold pop
  cases h : s.stack with
  | nil => exact sound_raise _ s hs
  | cons x rest =>
    rw [h, List.forall_mem_cons] at hstack
    exact .ok hstack.1 (hs.setStack hstack.2)

theorem sound_peek (depth : Int) : Sound (· ≠ .nothing) (peek depth) := by
  intro s hs
  unfold peek
  split
  · next x hx =>
    have hmem : x ∈ s.stack := by
      split at hx
      · cases hx
      · exact List.mem_of_getElem? hx
    exact .ok (hs.stack x hmem) hs
  · exact sound_raise _ s hs

theorem sound_divisor : Sound (· ≠ .nothing) divisor := by
  intro s hs
  have hstack := hs.stack
  unfold divisor
  cases h : s.stack with
  | nil => exact sound_raise _ s hs
  | cons x rest =>
    rw [h, List.forall_mem_cons] at hstack
    dsimp only
    split
    · exact sound_raise _ s hs
    · exact .ok hstack.1 (hs.setStack hstack.2)

theorem sound_duplicate : Sound (fun _ => True) duplicate := by
  intro s hs
  have hstack := hs.stack
  unfold duplicate
  cases h : s.stack with
  | nil => exact sound_raise _ s hs
  | cons x rest =>
    rw [h] at hstack
    exact .ok trivial (hs.setStack (List.forall_mem_cons.2 ⟨hstack x List.mem_cons_self, hstack⟩))

theorem sound_exchange : Sound (fun _ => True) exchange := by
  intro s hs
  have hstack := hs.stack
  unfold exchange
  split
  · next x y rest h =>
    rw [h] at hstack
    exact .ok trivial (hs.setStack fun z hz => hstack z (by grind))
  · exact sound_raise _ s hs

theorem sound_slide (count : Int) : Sound (fun _ => True) (slide count) := by
  intro s hs
  have hstack := hs.stack
  unfold slide
  split
  · exact sound_raise _ s hs
  · cases h : s.stack with
    | nil => exact sound_raise _ s hs
    | cons top rest =>
      rw [h, List.forall_mem_cons] at hstack
      dsimp only
      split
      · refine .ok trivial (hs.setStack (List.forall_mem_cons.2 ⟨hstack.1, fun x hx => ?_⟩))
        exact hstack.2 x (List.mem_of_mem_drop hx)
      · exact sound_raise _ s hs

theorem sound_combine (op : Operator) {x y : Item} (hx : x ≠ .nothing) (hy : y ≠ .nothing) :
    Sound (fun _ => True) (combine op x y) := by
  cases x with
  | nothing => exact absurd rfl hx
  | number a =>
    cases y with
    | nothing => exact absurd rfl hy
    | number b =>
      rw [combine, Operator.combine_number]
      exact sound_push nofun

theorem sound_isNegative {x : Item} (hx : x ≠ .nothing) : Sound (fun _ => True) (isNegative x) := by
  cases x with
  | nothing => exact absurd rfl hx
  | number v => exact sound_pure trivial

/-! ## The heap -/

theorem sound_poke (address : Item) {value : Item} (hvalue : value ≠ .nothing) :
    Sound (fun _ => True) (poke address value) := by
  refine fun s hs => .ok trivial ⟨hs.stack, fun address' x hx => ?_⟩
  simp only [Table.get?_insert] at hx
  split at hx
  · cases hx
    exact hvalue
  · exact hs.heap address' x hx

theorem sound_cell (default? : Option Int) (address : Item) :
    Sound (· ≠ .nothing) (cell default? address) := by
  intro s hs
  unfold cell
  cases h : s.heap.get? address with
  | some x => exact .ok (hs.heap address x h) hs
  | none =>
    cases default? with
    | some v => exact .ok nofun hs
    | none => exact sound_raise _ s hs

/-! ## The flow of control -/

theorem sound_jumpTo (pc : Nat) : Sound (fun _ => True) (jumpTo pc) :=
  fun _ hs => .ok trivial ⟨hs.stack, hs.heap⟩

theorem sound_enter (pc : Nat) : Sound (fun _ => True) (enter pc) :=
  fun _ hs => .ok trivial ⟨hs.stack, hs.heap⟩

theorem sound_leave : Sound (fun _ => True) leave := by
  intro s hs
  unfold leave
  split
  · exact sound_raise _ s hs
  · exact .ok trivial ⟨hs.stack, hs.heap⟩

theorem sound_target (m : Machine) (label : Int) :
    Sound (fun _ => True) (m.target (some label)) := by
  intro s hs
  unfold Machine.target
  dsimp only
  split
  · exact .ok trivial hs
  · exact sound_raise _ s hs

theorem sound_jump (m : Machine) (label : Int) : Sound (fun _ => True) (m.jump (some label)) :=
  (sound_target m label).bind fun pc _ => sound_jumpTo pc

/-! ## Input and output -/

theorem sound_write (text : String) : Sound (fun _ => True) (write text) :=
  fun _ hs => .ok trivial ⟨hs.stack, hs.heap⟩

theorem sound_character {x : Item} (hx : x ≠ .nothing) : Sound (fun _ => True) (character x) := by
  cases x with
  | nothing => exact absurd rfl hx
  | number v =>
    intro s hs
    unfold character
    dsimp only
    split
    · exact sound_raise _ s hs
    · split
      · exact sound_raise _ s hs
      · exact .ok trivial hs

section Input

variable {m : Machine} (hm : m.ending = .closed)
include hm

theorem sound_readCharacter : Sound (fun _ => True) m.readCharacter := by
  intro s hs
  unfold Machine.readCharacter
  split
  · exact sound_exhausted hm _ s hs
  · exact .ok trivial ⟨hs.stack, hs.heap⟩

theorem sound_readLine : Sound (fun _ => True) m.readLine := by
  intro s hs
  unfold Machine.readLine
  split
  · exact .ok trivial ⟨hs.stack, hs.heap⟩
  · split
    · exact .ok trivial ⟨hs.stack, hs.heap⟩
    · exact sound_exhausted hm _ s hs

theorem sound_readNumber : Sound (fun _ => True) m.readNumber := by
  refine (sound_readLine hm).bind fun line _ => ?_
  split
  · exact sound_lift _
  · exact sound_raise _

end Input

end Action

/-! ## Instructions -/

section Instructions

open Whitespace.Action

variable {i : Instruction} {m : Machine} {c d : Spent} (hm : m.ending = .closed)

include hm in
theorem Leads.sound {α : Type} {Q : α → Prop} {a : Machine → Action α}
    (h : Leads i (· ≠ .nothing) c d Q a) : Sound Q (a m) := by
  cases h with
  | pop => exact sound_pop
  | divisor => exact sound_divisor
  | peek n => exact sound_peek n
  | isNegative hx => exact sound_isNegative hx
  | character hx => exact sound_character hx
  | lift x => exact sound_lift x
  | cell _ address => exact sound_cell _ address
  | readCharacter => exact sound_readCharacter hm
  | readNumber => exact sound_readNumber hm

variable (hwf : i.WellFormed) (hop : i.opcode ≠ .halt)
include hwf hop

theorem Ends.sound {a : Machine → Action Unit} (h : Ends i (· ≠ .nothing) c a) :
    Sound (fun _ => True) (a m) := by
  have hoperand := hwf.exists_operand
  cases h with
  | pure => exact sound_pure trivial
  | push _ hx => exact sound_push hx
  | combine _ op hx hy => exact sound_combine op hx hy
  | poke _ _ address hvalue => exact sound_poke address hvalue
  | write _ _ text => exact sound_write text
  | duplicate => exact sound_duplicate
  | exchange => exact sound_exchange
  | slide n => exact sound_slide n
  | jump hjump =>
    obtain ⟨l, hl⟩ := hoperand (by grind [Opcode.operandKind])
    rw [hl]
    exact sound_jump m l
  | call hcall =>
    obtain ⟨l, hl⟩ := hoperand (by simp [hcall, Opcode.operandKind])
    rw [hl]
    exact (sound_target m l).bind fun pc _ => sound_enter pc
  | leave => exact sound_leave
  | halt hhalt => exact absurd hhalt hop
  | uncounted hcount hnone =>
    obtain ⟨n, hn⟩ := hoperand (by grind [Opcode.operandKind])
    cases hnone.symm.trans hn

include hm in
theorem Handles.sound {a : Machine → Action Unit} (h : Handles i (· ≠ .nothing) c a) :
    Sound (fun _ => True) (a m) := by
  induction h with
  | last h => exact h.sound hwf hop
  | next h hg ih => exact (h.sound hm).bind fun x hx => ih x hx

end Instructions

/-- Every well-formed instruction other than a halt is sound. -/
theorem Machine.exec_sound {m : Machine} {i : Instruction} (hm : m.ending = .closed)
    (hwf : i.WellFormed) (hop : i.opcode ≠ .halt) :
    Action.Sound (fun _ => True) (m.exec i) := by
  refine (exec_handles (fun _ => nofun) fun hpush => ?_).sound hm hwf hop
  obtain ⟨v, hv⟩ := hwf.exists_operand (by simp [hpush, Opcode.operandKind])
  rw [hv]
  exact nofun

end Whitespace
