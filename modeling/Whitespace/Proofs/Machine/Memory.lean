import Whitespace.Proofs.Machine.Walk
import Whitespace.Proofs.Table

/-!
# The heap over a run

Three instructions write to the heap. Each of them writes one cell, or fails and writes none; all
other instructions leave the heap alone. So the heap that a walk has come to is made of the cells
that were written on the way, in the order in which they were written.

## Main definitions

* `Action.Fills` — how an action ends that is to write a cell.
* `Machine.written?` — the cell that an instruction writes.
* `Machine.write?` — the cell that the next round writes.
* `Machine.writes` — the cells that were written in the first rounds of a walk.

## Main statements

* `Machine.fills_exec` — an instruction that is to write a cell.
* `Machine.heap_exec`, `Machine.heap_tick` — what an instruction and a round write.
* `Machine.heap_walk` — the heap holds what was written.
-/

namespace Whitespace

/-- Store a value under a key, if there is one to be stored. -/
def Table.insert? {κ ν : Type} [DecidableEq κ] (t : Table κ ν) : Option (κ × ν) → Table κ ν
  | none => t
  | some (k, v) => t.insert k v

theorem Table.ofList_append_toList {κ ν : Type} [DecidableEq κ] (entries : List (κ × ν))
    (e? : Option (κ × ν)) : ofList (entries ++ e?.toList) = (ofList entries).insert? e? := by
  cases e? with
  | none => rw [Option.toList_none, List.append_nil, insert?]
  | some e => exact ofList_concat entries e

namespace Action

variable {α : Type} {s : State}

theorem pop_of_nil (hs : s.stack = []) : ∃ r, pop s = .error r s := by
  rw [pop, hs]
  exact raise_eq_error _ s

theorem pop_of_cons {x : Item} {rest : List Item} (hs : s.stack = x :: rest) :
    pop s = .ok x { s with stack := rest } := by
  rw [pop, hs]

/-- How an action ends that is to write a cell: it has written the cell, or it stops and has written
none. -/
inductive Fills (s : State) :
    Option (Item × Item) → EStateM.Result Stop State Unit → Prop where
  | written {address value : Item} {s' : State} (h : s'.heap = s.heap.insert address value) :
      Fills s (some (address, value)) (.ok () s')
  | stopped (r : Stop) {s' : State} (h : s'.heap = s.heap) : Fills s none (.error r s')

theorem Fills.heap {cell? : Option (Item × Item)} {result : EStateM.Result Stop State Unit}
    (h : Fills s cell? result) : (after result).heap = s.heap.insert? cell? := by
  cases h with
  | written h => exact h
  | stopped r h => exact h

/-- The cell for what an action gave: its address is then on top of the stack. -/
def cell? (value : α → Item) : EStateM.Result Stop State α → Option (Item × Item)
  | .ok x s => s.stack.head?.map fun address => (address, value x)
  | .error _ _ => none

/-- What an action gave is put into its cell. -/
theorem fills_bind_poke {a : Action α} (ha : Keeps State.heap a) (value : α → Item) (s : State) :
    Fills s (cell? value (a s))
      ((a >>= fun x => pop >>= fun address => poke address (value x)) s) := by
  have hs := ha s
  rw [bind_apply]
  cases h : a s with
  | error r s' =>
    rw [h] at hs
    exact .stopped r hs
  | ok x s' =>
    rw [h] at hs
    cases hstack : s'.stack with
    | nil =>
      obtain ⟨r, hr⟩ := pop_of_nil hstack
      simp only [bind_apply, hr, cell?, hstack]
      exact .stopped r hs
    | cons address rest =>
      simp only [bind_apply, pop_of_cons hstack, poke, cell?, hstack]
      refine .written ?_
      rw [← hs]
      rfl

end Action

namespace Machine

open Whitespace.Action

/-- The cell that an instruction writes, its address and its value. -/
def written? (m : Machine) (i : Instruction) (s : State) : Option (Item × Item) :=
  match i.opcode with
  | .store =>
    match s.stack with
    | value :: address :: _ => some (address, value)
    | _ => none
  | .readChar =>
    match s.unread, s.stack with
    | c :: _, address :: _ => some (address, .number c.toNat)
    | _, _ => none
  | .readNumber =>
    match m.readNumber s, s.stack with
    | .ok v _, address :: _ => some (address, .number v)
    | _, _ => none
  | _ => none

/-- The cell that the next round writes. -/
def write? (m : Machine) (s : State) : Option (Item × Item) :=
  m.program.instructions[s.pc]?.bind fun i => m.written? i { s with pc := s.pc + 1 }

/-- The cells that are written in the first rounds of a walk, the first one first. -/
def writes (m : Machine) (s : State) : (rounds : Nat) → List (Item × Item)
  | 0 => []
  | rounds + 1 =>
    match m.walk s rounds with
    | .going t => m.writes s rounds ++ (m.write? t).toList
    | .ended _ _ => m.writes s rounds

variable {m : Machine} {s : State}

theorem written?_store (m : Machine) (operand : Option Int) (s : State) :
    m.written? ⟨.store, operand⟩ s = cell? id (pop s) := by
  rcases hs : s.stack with _ | ⟨value, _ | ⟨address, rest⟩⟩
  · obtain ⟨r, hr⟩ := pop_of_nil hs
    simp only [hr, written?, hs, cell?]
  · simp only [pop_of_cons hs, written?, hs, cell?, List.head?_nil, Option.map_none]
  · simp only [pop_of_cons hs, written?, hs, cell?, List.head?_cons, Option.map_some, id]

theorem written?_readChar (m : Machine) (operand : Option Int) (s : State) :
    m.written? ⟨.readChar, operand⟩ s = cell? (fun c => .number c.toNat) (m.readCharacter s) := by
  cases hunread : s.unread with
  | nil =>
    obtain ⟨r, hr⟩ := exhausted_eq_error (α := Char) m .noCharacter s
    simp only [readCharacter, written?, hunread, hr, cell?]
  | cons c rest =>
    simp only [readCharacter, written?, hunread, cell?]
    cases s.stack <;> rfl

theorem written?_readNumber (m : Machine) (operand : Option Int) (s : State) :
    m.written? ⟨.readNumber, operand⟩ s = cell? .number (m.readNumber s) := by
  have hstack := keeps_readNumber (f := State.stack) m (fun _ _ => rfl) s
  cases hread : m.readNumber s with
  | error r s' => simp only [written?, hread, cell?]
  | ok v s' =>
    -- the number is read before the address is taken, from a stack that reading leaves alone
    rw [hread] at hstack
    simp only [written?, hread, cell?, show s'.stack = s.stack from hstack]
    cases s.stack <;> rfl

/-- An instruction that is to write a cell writes it, or it stops and writes none. -/
theorem fills_exec (m : Machine) {i : Instruction}
    (hop : i.opcode ∈ [.store, .readChar, .readNumber]) (s : State) :
    Fills s (m.written? i s) (m.exec i s) := by
  obtain ⟨op, operand⟩ := i
  simp only [List.mem_cons, List.not_mem_nil, or_false] at hop
  rcases hop with rfl | rfl | rfl
  · rw [written?_store]
    exact fills_bind_poke (keeps_pop fun _ _ => rfl) id s
  · rw [written?_readChar]
    exact fills_bind_poke (keeps_readCharacter m fun _ _ => rfl) _ s
  · rw [written?_readNumber]
    exact fills_bind_poke (keeps_readNumber m fun _ _ => rfl) .number s

theorem written?_eq_none (m : Machine) {i : Instruction}
    (hop : i.opcode ∉ [.store, .readChar, .readNumber]) (s : State) : m.written? i s = none := by
  unfold written?
  split <;> simp_all

/-- An instruction writes one cell or none, whether it succeeds or fails. -/
theorem heap_exec (m : Machine) (i : Instruction) (s : State) :
    (after (m.exec i s)).heap = s.heap.insert? (m.written? i s) := by
  by_cases hop : i.opcode ∈ [.store, .readChar, .readNumber]
  · exact (fills_exec m hop s).heap
  · have hkeeps : Keeps State.heap (m.exec i) :=
      exec_keeps m i (fun _ _ => rfl) (fun _ _ _ => rfl) (fun h => absurd h hop)
        (fun _ _ _ => rfl) fun _ _ _ => rfl
    rw [hkeeps s, written?_eq_none m hop]
    rfl

/-- A round writes what its instruction writes, also if it then fails to trace. -/
theorem heap_tick (m : Machine) (s : State) :
    (m.tick s).state.heap = s.heap.insert? (m.write? s) := by
  cases hi : m.program.instructions[s.pc]? with
  | none =>
    rw [tick_of_getElem?_none hi, write?, hi]
    rfl
  | some i =>
    rw [tick_of_getElem? hi, write?, hi, Progress.state_ofResult, after_conclude, heap_exec]
    rfl

/-- The heap that a walk has come to holds what was written on the way. -/
theorem heap_walk (m : Machine) (input : List Char) (k : Nat) :
    (m.walk (start input) k).state.heap = .ofList (m.writes (start input) k) := by
  induction k with
  | zero => rfl
  | succ k ih =>
    rw [walk_succ, writes]
    cases hk : m.walk (start input) k with
    | ended ending s =>
      rw [hk] at ih
      exact ih
    | going s =>
      rw [hk] at ih
      simp only [Progress.andThen, heap_tick, Table.ofList_append_toList, ← ih]
      rfl

/-- A cell is missing in the heap as long as it was not written. -/
theorem get?_heap_eq_none_iff {input : List Char} {k : Nat} {s : State}
    (hs : m.walk (start input) k = .going s) (address : Item) :
    s.heap.get? address = none ↔ ∀ value, (address, value) ∉ m.writes (start input) k := by
  have hheap := heap_walk m input k
  rw [hs] at hheap
  rw [show s.heap = _ from hheap, Table.get?_ofList_eq_none_iff]

end Machine

end Whitespace
