import Whitespace.Machine.Step

/-!
# What instructions are made of

Every instruction is a row of actions that give values and one action at the end. Which action may
stand where is said here once, for all opcodes: what an instruction may touch, where it may still
fail, and what it may do with the items it has taken. Whatever these actions keep, every instruction
keeps, so that only what is special to some opcodes needs a look at them.

The actions are those of all machines at once, to compare what two machines do.

## Main definitions

* `Spent` — what was used up before an action.
* `Leads`, `Ends` — the actions of an instruction that give values, and those at its end.
* `Handles` — the rows of actions that an instruction may be.

## Main statements

* `Machine.exec_handles` — every instruction is such a row.
* `Machine.exec_congr` — what an instruction looks at in its machine.
-/

namespace Whitespace

open Whitespace.Action

/-- What an instruction has used up: nothing so far, the top item, a part of the input, or more than
one of these. -/
inductive Spent where
  | nothing
  | item
  | input
  | more
  deriving DecidableEq, Repr

/-- What is used up when one more item is taken. -/
def Spent.pop : Spent → Spent
  | nothing => item
  | _ => more

/-- `Leads i V c d Q a`: the instruction `i` may use the action `a` to get a value, which has the
property `Q`, if `c` is used up before it and `d` after it. Items that are taken have the property
`V`. Once more than one thing is used up, no action that can fail may come. -/
inductive Leads (i : Instruction) (V : Item → Prop) :
    Spent → Spent → {α : Type} → (α → Prop) → (Machine → Action α) → Prop where
  | pop {c : Spent} (hop : i.opcode ∉ [.dup, .copy, .swap, .slide, .call, .jump, .ret])
      (hc : c ≠ .more) : Leads i V c c.pop V fun _ => pop
  | divisor (hop : i.opcode ∉ [.dup, .copy, .swap, .slide, .call, .jump, .ret]) :
      Leads i V .nothing .item V fun _ => divisor
  | peek (n : Int) : Leads i V .nothing .nothing V fun _ => peek n
  | isNegative {c : Spent} {x : Item} (hx : V x) :
      Leads i V c c (fun _ => True) fun _ => isNegative x
  | character {c : Spent} {x : Item} (hx : V x) (hc : c ≠ .more) :
      Leads i V c c (fun _ => True) fun _ => character x
  | lift {c : Spent} {α : Type} (x : Except Decimal.TooLong α) (hc : c ≠ .more) :
      Leads i V c c (fun _ => True) fun _ => lift x
  | cell {c : Spent} (hop : i.opcode = .retrieve) (address : Item) (hc : c ≠ .more) :
      Leads i V c c V fun m => cell m.settings.heapDefault address
  | readCharacter (hop : i.opcode = .readChar) :
      Leads i V .nothing .input (fun _ => True) fun m => m.readCharacter
  | readNumber (hop : i.opcode = .readNumber) :
      Leads i V .nothing .input (fun _ => True) fun m => m.readNumber

/-- `Ends i V c a`: the instruction `i` may end with the action `a` if `c` is used up before it.
Items that are put somewhere have the property `V`. -/
inductive Ends (i : Instruction) (V : Item → Prop) : Spent → (Machine → Action Unit) → Prop where
  | pure (c : Spent) : Ends i V c fun _ => pure ()
  | push (c : Spent) {x : Item} (hx : V x) : Ends i V c fun _ => push x
  | combine (c : Spent) (op : Operator) {x y : Item} (hx : V x) (hy : V y) :
      Ends i V c fun _ => combine op x y
  | poke (c : Spent) (hop : i.opcode ∈ [.store, .readChar, .readNumber]) (address : Item)
      {value : Item} (hvalue : V value) : Ends i V c fun _ => poke address value
  | write (c : Spent) (hop : i.opcode ∈ [.writeChar, .writeNumber]) (text : String) :
      Ends i V c fun _ => write text
  | duplicate : Ends i V .nothing fun _ => duplicate
  | exchange : Ends i V .nothing fun _ => exchange
  | slide (n : Int) : Ends i V .nothing fun _ => slide n
  | jump {c : Spent} (hop : i.opcode ∈ [.jump, .jumpZero, .jumpNegative]) (hc : c ≠ .more) :
      Ends i V c fun m => m.jump i.operand
  | call (hop : i.opcode = .call) : Ends i V .nothing fun m => m.target i.operand >>= enter
  | leave (hop : i.opcode = .ret) : Ends i V .nothing fun _ => leave
  | halt (hop : i.opcode = .halt) : Ends i V .nothing fun _ => stop .halted
  | uncounted (hop : i.opcode ∈ [.copy, .slide]) (hi : i.operand = none) :
      Ends i V .nothing fun _ => stop (.misuse .compared)

/-- `Handles i V c a`: the instruction `i` may go on with the actions `a` if `c` is used up. -/
inductive Handles (i : Instruction) (V : Item → Prop) : Spent → (Machine → Action Unit) → Prop where
  | last {c : Spent} {a : Machine → Action Unit} (h : Ends i V c a) : Handles i V c a
  | next {c d : Spent} {α : Type} {Q : α → Prop} {a : Machine → Action α}
      {g : α → Machine → Action Unit} (h : Leads i V c d Q a)
      (hg : ∀ x, Q x → Handles i V d (g x)) : Handles i V c fun m => a m >>= fun x => g x m

variable {i : Instruction} {V : Item → Prop}

namespace Leads

variable {c d : Spent} {α : Type} {Q : α → Prop} {a : Machine → Action α}

/-- If there is nothing to know of items, there is nothing to know of values. -/
theorem trivial (h : Leads i (fun _ => True) c d Q a) (x : α) : Q x := by
  cases h <;> exact True.intro

/-- What is used up stays used up. -/
theorem eq_nothing (h : Leads i V c d Q a) (hd : d = .nothing) : c = .nothing := by
  cases h with
  | pop => cases c <;> cases hd
  | divisor | peek | readCharacter | readNumber => rfl
  | isNegative | character | lift | cell => exact hd

end Leads

namespace Handles

theorem binary (op : Operator) (hop : i.opcode ∉ [.dup, .copy, .swap, .slide, .call, .jump, .ret]) :
    Handles i V .nothing fun _ => Action.binary op :=
  .next (.pop hop nofun) fun _ hy => .next (.pop hop nofun) fun _ hx => .last (.combine _ op hx hy)

theorem division (op : Operator)
    (hop : i.opcode ∉ [.dup, .copy, .swap, .slide, .call, .jump, .ret]) :
    Handles i V .nothing fun _ => Action.division op :=
  .next (.divisor hop) fun _ hy => .next (.pop hop nofun) fun _ hx => .last (.combine _ op hx hy)

theorem withCount {use : Int → Action Unit} (hop : i.opcode ∈ [.copy, .slide])
    (h : ∀ n, Handles i V .nothing fun _ => use n) :
    Handles i V .nothing fun _ => Machine.withCount i use := by
  unfold Machine.withCount
  split
  · exact h _
  · next hi => exact .last (.uncounted hop hi)

/-- A jump that is taken under a condition on the item taken. -/
theorem jumpIf (hop : i.opcode ∈ [.jump, .jumpZero, .jumpNegative]) (P : Prop) [Decidable P] :
    Handles i V .item fun m => if P then m.jump i.operand else Pure.pure () := by
  split
  · exact .last (.jump hop nofun)
  · exact .last (.pure _)

end Handles

namespace Machine

/-- Every instruction is a row of such actions. -/
theorem exec_handles (hnumber : ∀ v, V (.number v))
    (hoperand : i.opcode = .push → V (.ofOperand i.operand)) :
    Handles i V .nothing fun m => m.exec i := by
  obtain ⟨op, operand⟩ := i
  cases op with
  | push => exact .last (.push _ (hoperand rfl))
  | dup => exact .last .duplicate
  | copy =>
    exact .withCount (by simp) fun n => .next (.peek n) fun _ hx => .last (.push _ hx)
  | swap => exact .last .exchange
  | discard => exact .next (.pop (by simp) nofun) fun _ _ => .last (.pure _)
  | slide => exact .withCount (by simp) fun n => .last (.slide n)
  | add => exact .binary .add (by simp)
  | sub => exact .binary .sub (by simp)
  | mul => exact .binary .mul (by simp)
  | div => exact .division .div (by simp)
  | mod => exact .division .mod (by simp)
  | store =>
    exact .next (.pop (by simp) nofun) fun _ hvalue => .next (.pop (by simp) nofun)
      fun address _ => .last (.poke _ (by simp) address hvalue)
  | retrieve =>
    exact .next (.pop (by simp) nofun) fun address _ => .next (.cell rfl address nofun)
      fun _ hx => .last (.push _ hx)
  | mark => exact .last (.pure _)
  | call => exact .last (.call rfl)
  | jump => exact .last (.jump (by simp) nofun)
  | jumpZero =>
    refine .next (.pop (by simp) nofun) fun x _ => ?_
    exact .jumpIf (by simp) (x = .number 0)
  | jumpNegative =>
    refine .next (.pop (by simp) nofun) fun _ hx => .next (.isNegative hx) fun negative _ => ?_
    exact .jumpIf (by simp) (negative = true)
  | ret => exact .last (.leave rfl)
  | halt => exact .last (.halt rfl)
  | writeChar =>
    exact .next (.pop (by simp) nofun) fun _ hx => .next (.character hx nofun)
      fun _ _ => .last (.write _ (by simp) _)
  | writeNumber =>
    exact .next (.pop (by simp) nofun) fun x _ => .next (.lift x.text nofun)
      fun _ _ => .last (.write _ (by simp) _)
  | readChar =>
    exact .next (.readCharacter rfl) fun _ _ => .next (.pop (by simp) nofun)
      fun address _ => .last (.poke _ (by simp) address (hnumber _))
  | readNumber =>
    exact .next (.readNumber rfl) fun _ _ => .next (.pop (by simp) nofun)
      fun address _ => .last (.poke _ (by simp) address (hnumber _))

/-- The same, when there is nothing to know of items. -/
theorem exec_handles_any (i : Instruction) :
    Handles i (fun _ => True) .nothing fun m => m.exec i :=
  exec_handles (fun _ => trivial) fun _ => trivial

end Machine

/-! ## What an instruction looks at -/

namespace Machine

variable {m m' : Machine} (hending : m'.ending = m.ending)
include hending

theorem readCharacter_congr : m'.readCharacter = m.readCharacter := by
  funext s
  simp only [readCharacter, exhausted, hending]

theorem readLine_congr : m'.readLine = m.readLine := by
  funext s
  simp only [readLine, exhausted, hending]

end Machine

section Congr

variable {m m' : Machine} {c d : Spent}
  (hcell : i.opcode = .retrieve → m'.settings.heapDefault = m.settings.heapDefault)
  (hread : i.opcode ∈ [.readChar, .readNumber] → m'.ending = m.ending)
  (htarget : i.opcode ∈ [.call, .jump, .jumpZero, .jumpNegative] →
    m'.target i.operand = m.target i.operand)

include hcell hread in
theorem Leads.congr {α : Type} {Q : α → Prop} {a : Machine → Action α} (h : Leads i V c d Q a) :
    a m' = a m := by
  cases h with
  | cell hop => simp only [hcell hop]
  | readCharacter hop => exact Machine.readCharacter_congr (hread (by simp [hop]))
  | readNumber hop =>
    simp only [Machine.readNumber, Machine.readLine_congr (hread (by simp [hop]))]
  | _ => rfl

include htarget in
theorem Ends.congr {a : Machine → Action Unit} (h : Ends i V c a) : a m' = a m := by
  cases h with
  | jump hop =>
    have hjump : i.opcode ∈ [.call, .jump, .jumpZero, .jumpNegative] := List.mem_cons_of_mem _ hop
    simp only [Machine.jump, htarget hjump]
  | call hop => simp only [htarget (by simp [hop])]
  | _ => rfl

include hcell hread htarget in
theorem Handles.congr {a : Machine → Action Unit} (h : Handles i (fun _ => True) c a) :
    a m' = a m := by
  induction h with
  | last h => exact h.congr htarget
  | next h hg ih =>
    have hrest := funext fun x => ih x (h.trivial x)
    simp only [h.congr hcell hread, hrest]

include hcell hread htarget in
/-- Of its machine an instruction looks at the default of heap cells if it retrieves one, at the end
of the input if it reads, and at its label if it goes to one. -/
theorem Machine.exec_congr : m'.exec i = m.exec i :=
  (exec_handles_any i).congr hcell hread htarget

end Congr

end Whitespace
