import Whitespace.Proofs.Machine.Memory

/-!
# What the heap holds

The heap is a memory in which the last write to an address counts. Without a trace, a round that
writes a cell succeeds, so the cells of the heap are those that successful rounds have written, and
what is retrieved is what was written last. A cell that was never written has the default, and
retrieving it does not write it.

## Main definitions

* `Machine.Stores` — the cell that a step writes.
* `Machine.WritesAt` — a round of a run that succeeds and writes a cell.
* `Machine.LastWrite` — the last of these rounds for an address.

## Main statements

* `Machine.write?_eq_some_iff`, `Machine.writesAt_iff` — the rounds that write a cell.
* `Machine.get?_heap_walk_iff` — the heap holds what was written last.
* `Machine.exec_retrieve_eq_ok` — what is retrieved.
* `Machine.heap_holds_last_write` — all of this, for every run.
-/

namespace Whitespace.Machine

open Whitespace.Action

/-- In the state `s` the next instruction writes the value to the cell with the address. -/
inductive Stores (m : Machine) (s : State) : (address value : Item) → Prop where
  /-- The item on top is the value, and the one below it is the address. -/
  | store {i : Instruction} {value address : Item} {rest : List Item}
      (hi : m.program.instructions[s.pc]? = some i) (hop : i.opcode = .store)
      (hs : s.stack = value :: address :: rest) : Stores m s address value
  /-- The code point of the character read is the value. -/
  | readChar {i : Instruction} {c : Char} {text : List Char} {address : Item} {rest : List Item}
      (hi : m.program.instructions[s.pc]? = some i) (hop : i.opcode = .readChar)
      (hunread : s.unread = c :: text) (hs : s.stack = address :: rest) :
      Stores m s address (.number c.toNat)
  /-- The number read is the value. -/
  | readNumber {i : Instruction} {v : Int} {s' : State} {address : Item} {rest : List Item}
      (hi : m.program.instructions[s.pc]? = some i) (hop : i.opcode = .readNumber)
      (hread : m.readNumber { s with pc := s.pc + 1 } = .ok v s') (hs : s.stack = address :: rest) :
      Stores m s address (.number v)

/-- The round after `j` others of the run on an input succeeds and writes the value to the cell with
the address. -/
def WritesAt (m : Machine) (input : List Char) (j : Nat) (address value : Item) : Prop :=
  ∃ s s', m.walk (start input) j = .going s ∧ m.walk (start input) (j + 1) = .going s' ∧
    m.Stores s address value

/-- In the first `k` rounds of the run on an input, the last one that writes to the cell with the
address writes the value. -/
def LastWrite (m : Machine) (input : List Char) (k : Nat) (address value : Item) : Prop :=
  ∃ j < k, m.WritesAt input j address value ∧
    ∀ i, j < i → i < k → ∀ other, ¬ m.WritesAt input i address other

variable {m : Machine} {s s' : State} {i : Instruction} {input : List Char} {k : Nat}
variable {address value : Item}

/-! ## The rounds that write -/

theorem Stores.exists_instruction (h : m.Stores s address value) :
    ∃ i, m.program.instructions[s.pc]? = some i ∧
      i.opcode ∈ [.store, .readChar, .readNumber] := by
  cases h with
  | store hi hop => exact ⟨_, hi, by simp [hop]⟩
  | readChar hi hop => exact ⟨_, hi, by simp [hop]⟩
  | readNumber hi hop => exact ⟨_, hi, by simp [hop]⟩

theorem write?_eq_some_iff : m.write? s = some (address, value) ↔ m.Stores s address value := by
  constructor
  · intro h
    obtain ⟨i, hi, hwritten⟩ := Option.bind_eq_some_iff.1 h
    unfold written? at hwritten
    split at hwritten
    · next hop =>
      split at hwritten
      · next hs =>
        cases hwritten
        exact .store hi hop hs
      · cases hwritten
    · next hop =>
      split at hwritten
      · next hunread hs =>
        cases hwritten
        exact .readChar hi hop hunread hs
      · cases hwritten
    · next hop =>
      split at hwritten
      · next hread hs =>
        cases hwritten
        exact .readNumber hi hop hread hs
      · cases hwritten
    · cases hwritten
  · intro h
    cases h with
    | store hi hop hs => simp only [write?, hi, Option.bind_some, written?, hop, hs]
    | readChar hi hop hunread hs =>
      simp only [write?, hi, Option.bind_some, written?, hop, hunread, hs]
    | readNumber hi hop hread hs =>
      simp only [write?, hi, Option.bind_some, written?, hop, hread]
      rw [hs]

/-- Without a trace, a round that is to write a cell succeeds exactly if it writes one. -/
theorem exists_going_iff (hm : m.settings.trace = false)
    (hi : m.program.instructions[s.pc]? = some i)
    (hop : i.opcode ∈ [.store, .readChar, .readNumber]) :
    (∃ s', m.tick s = .going s') ↔ ∃ cell, m.write? s = some cell := by
  have hfills := fills_exec m hop { s with pc := s.pc + 1 }
  simp only [tick_eq_going_iff hm hi, write?, hi, Option.bind_some]
  generalize m.exec i { s with pc := s.pc + 1 } = result at hfills
  generalize m.written? i { s with pc := s.pc + 1 } = cell? at hfills
  cases hfills with
  | written h => simp
  | stopped r h => simp

theorem writesAt_iff (hm : m.settings.trace = false) (hs : m.walk (start input) k = .going s) :
    m.WritesAt input k address value ↔ m.write? s = some (address, value) := by
  constructor
  · rintro ⟨t, t', ht, -, hstores⟩
    cases hs.symm.trans ht
    exact write?_eq_some_iff.2 hstores
  · intro hwrite
    have hstores := write?_eq_some_iff.1 hwrite
    obtain ⟨i, hi, hop⟩ := hstores.exists_instruction
    obtain ⟨s', htick⟩ := (exists_going_iff hm hi hop).2 ⟨_, hwrite⟩
    refine ⟨s, s', hs, ?_, hstores⟩
    rw [walk_succ, hs]
    exact htick

/-- Other instructions write nothing, and neither does a round that does not succeed. -/
theorem write?_eq_none (hm : m.settings.trace = false)
    (hi : m.program.instructions[s.pc]? = some i)
    (h : i.opcode ∉ [.store, .readChar, .readNumber] ∨ ∀ s', m.tick s ≠ .going s') :
    m.write? s = none := by
  by_cases hop : i.opcode ∈ [.store, .readChar, .readNumber]
  · have hstop : ¬ ∃ s', m.tick s = .going s' := not_exists.2 (h.resolve_left (absurd hop))
    rw [exists_going_iff hm hi hop] at hstop
    simpa [Option.eq_none_iff_forall_ne_some] using hstop
  · rw [write?, hi, Option.bind_some, written?_eq_none m hop]

/-- A walk that has ended writes nothing any more. -/
theorem not_writesAt_of_ended {ending : Run.Ending}
    (hs : m.walk (start input) k = .ended ending s) :
    ¬ m.WritesAt input k address value := by
  rintro ⟨t, -, ht, -⟩
  cases hs.symm.trans ht

/-! ## The last write -/

theorem lastWrite_succ_iff :
    m.LastWrite input (k + 1) address value ↔
      m.WritesAt input k address value ∨
        (∀ other, ¬ m.WritesAt input k address other) ∧ m.LastWrite input k address value := by
  constructor
  · rintro ⟨j, hj, hwrites, hlater⟩
    rcases Nat.lt_succ_iff_lt_or_eq.1 hj with hlt | rfl
    · refine .inr ⟨hlater k hlt (Nat.lt_succ_self k), j, hlt, hwrites, fun i hji hik => ?_⟩
      exact hlater i hji (Nat.lt_succ_of_lt hik)
    · exact .inl hwrites
  · rintro (hwrites | ⟨hnone, j, hj, hwrites, hlater⟩)
    · exact ⟨k, Nat.lt_succ_self k, hwrites, by omega⟩
    · refine ⟨j, Nat.lt_succ_of_lt hj, hwrites, fun i hji hik => ?_⟩
      rcases Nat.lt_succ_iff_lt_or_eq.1 hik with hlt | rfl
      · exact hlater i hji hlt
      · exact hnone

/-- The heap holds what was written last. -/
theorem get?_heap_walk_iff (hm : m.settings.trace = false) (input : List Char) (k : Nat)
    (address value : Item) :
    (m.walk (start input) k).state.heap.get? address = some value ↔
      m.LastWrite input k address value := by
  induction k with
  | zero =>
    have hempty : (start input).heap.get? address = none := rfl
    simp [walk, Progress.state, hempty, LastWrite]
  | succ k ih =>
    rw [walk_succ, lastWrite_succ_iff, ← ih]
    cases hk : m.walk (start input) k with
    | ended ending s =>
      have hnone (other : Item) : ¬ m.WritesAt input k address other := not_writesAt_of_ended hk
      simp [hnone, Progress.andThen]
    | going s =>
      have hstate : (Progress.going s).state = s := rfl
      simp only [Progress.andThen, heap_tick, writesAt_iff hm hk, hstate]
      cases m.write? s with
      | none => simp [Table.insert?]
      | some cell => grind [Table.insert?, Table.get?_insert]

theorem exists_lastWrite_iff :
    (∃ value, m.LastWrite input k address value) ↔
      ∃ j < k, ∃ value, m.WritesAt input j address value := by
  constructor
  · rintro ⟨value, j, hj, hwrites, -⟩
    exact ⟨j, hj, value, hwrites⟩
  · induction k with
    | zero =>
      rintro ⟨j, hj, -⟩
      omega
    | succ k ih =>
      rintro ⟨j, hj, value, hwrites⟩
      simp only [lastWrite_succ_iff]
      by_cases hlast : ∃ other, m.WritesAt input k address other
      · obtain ⟨other, hother⟩ := hlast
        exact ⟨other, .inl hother⟩
      · have hne : j ≠ k := by
          rintro rfl
          exact hlast ⟨value, hwrites⟩
        obtain ⟨other, hother⟩ := ih ⟨j, by omega, value, hwrites⟩
        exact ⟨other, .inr ⟨not_exists.1 hlast, hother⟩⟩

/-- The cells of the heap are those that were written. -/
theorem isSome_get?_heap_walk_iff (hm : m.settings.trace = false) (input : List Char) (k : Nat)
    (address : Item) :
    ((m.walk (start input) k).state.heap.get? address).isSome ↔
      ∃ j < k, ∃ value, m.WritesAt input j address value := by
  simp only [Option.isSome_iff_exists, get?_heap_walk_iff hm, exists_lastWrite_iff]

/-! ## Retrieving -/

/-- What is retrieved is in the cell, or it is the default if there is no such cell. -/
theorem exec_retrieve_eq_ok (hop : i.opcode = .retrieve) (h : m.exec i s = .ok () s') :
    ∃ address value rest, s.stack = address :: rest ∧ s' = { s with stack := value :: rest } ∧
      (s.heap.get? address = some value ∨
        s.heap.get? address = none ∧ ∃ v, m.settings.heapDefault = some v ∧ value = .number v) := by
  cases hs : s.stack with
  | nil =>
    obtain ⟨r, hr⟩ := pop_of_nil hs
    simp [exec, hop, bind_apply, hr] at h
  | cons address rest =>
    simp only [exec, hop, bind_apply, pop_of_cons hs, cell] at h
    cases hcell : s.heap.get? address with
    | some value =>
      simp only [hcell, push] at h
      cases h
      exact ⟨address, value, rest, rfl, rfl, .inl hcell⟩
    | none =>
      simp only [hcell] at h
      cases hdefault : m.settings.heapDefault with
      | some v =>
        simp only [hdefault, push] at h
        cases h
        exact ⟨address, .number v, rest, rfl, rfl, .inr ⟨hcell, v, rfl, rfl⟩⟩
      | none =>
        obtain ⟨r, hr⟩ := raise_eq_error (α := Item) (.unwritten address) { s with stack := rest }
        simp [hdefault, hr] at h

/-- The heap holds what was written last. Without a trace, take any number of rounds of a run. The
cells of the heap are those that successful rounds have written, each with the value of the last of
them. In the next round, an instruction that is to write a cell writes it if it succeeds, and a cell
that is retrieved gives what was written last, or the default if it was never written. No other
instruction changes the heap, and neither does a round that does not succeed. -/
theorem heap_holds_last_write (hm : m.settings.trace = false) (input : List Char) (k : Nat) :
    (∀ address value, (m.walk (start input) k).state.heap.get? address = some value ↔
      m.LastWrite input k address value) ∧
    (∀ address, ((m.walk (start input) k).state.heap.get? address).isSome ↔
      ∃ j < k, ∃ value, m.WritesAt input j address value) ∧
    ∀ s i, m.walk (start input) k = .going s → m.program.instructions[s.pc]? = some i →
      (∀ s', m.walk (start input) (k + 1) = .going s' →
        (i.opcode ∈ [.store, .readChar, .readNumber] →
          ∃ address value, m.WritesAt input k address value ∧
            s'.heap = s.heap.insert address value) ∧
        (i.opcode = .retrieve →
          ∃ address value rest, s.stack = address :: rest ∧
            s' = { s with pc := s.pc + 1, stack := value :: rest } ∧
            (m.LastWrite input k address value ∨
              (∀ j < k, ∀ other, ¬ m.WritesAt input j address other) ∧
                ∃ v, m.settings.heapDefault = some v ∧ value = .number v))) ∧
      (i.opcode ∉ [.store, .readChar, .readNumber] ∨
          (∀ s', m.walk (start input) (k + 1) ≠ .going s') →
        (m.walk (start input) (k + 1)).state.heap = s.heap) := by
  refine ⟨get?_heap_walk_iff hm input k, isSome_get?_heap_walk_iff hm input k,
    fun s i hs hi => ?_⟩
  have hnext : m.walk (start input) (k + 1) = m.tick s := by
    rw [walk_succ, hs]
    rfl
  have hheap := heap_tick m s
  rw [hnext]
  refine ⟨fun s' hs' => ⟨fun hop => ?_, fun hop => ?_⟩, fun hother => ?_⟩
  · obtain ⟨⟨address, value⟩, hwrite⟩ := (exists_going_iff hm hi hop).1 ⟨s', hs'⟩
    refine ⟨address, value, (writesAt_iff hm hs).2 hwrite, ?_⟩
    rw [hs', hwrite] at hheap
    exact hheap
  · obtain ⟨address, value, rest, hstack, hresult, hread⟩ :=
      exec_retrieve_eq_ok hop ((tick_eq_going_iff hm hi).1 hs')
    refine ⟨address, value, rest, hstack, hresult, ?_⟩
    have hlast := get?_heap_walk_iff hm input k address
    have hcell := isSome_get?_heap_walk_iff hm input k address
    rw [hs] at hlast hcell
    rcases hread with hvalue | ⟨hnone, hdefault⟩
    · exact .inl ((hlast value).1 hvalue)
    · have hmissing : ¬ (s.heap.get? address).isSome := by
        rw [show s.heap.get? address = none from hnone]
        simp
      exact .inr ⟨fun j hj other hwrites => hmissing (hcell.2 ⟨j, hj, other, hwrites⟩), hdefault⟩
  · rw [write?_eq_none hm hi hother] at hheap
    exact hheap

/-- A cell is stored to and then read into, so that the character counts. Another cell is stored to
by an instruction that lacks an address, and the heap stays as it is. -/
theorem heap_holds_last_write_twice :
    ∃ m : Machine, m.settings.trace = false ∧
      m.LastWrite ['A'] 6 (.number 1) (.number 65) ∧
      ∃ s, m.walk (start ['A']) 6 = .going s ∧ s.stack = [.number 9] ∧
        (m.walk (start ['A']) 7).state.heap = s.heap := by
  let m : Machine := { program := ⟨#[⟨.push, some 1⟩, ⟨.push, some 5⟩, ⟨.store, none⟩,
    ⟨.push, some 1⟩, ⟨.readChar, none⟩, ⟨.push, some 9⟩, ⟨.store, none⟩], {}⟩ }
  let s : State := { pc := 6, stack := [.number 9], heap := ⟨[(.number 1, .number 65)]⟩ }
  have hs : m.walk (start ['A']) 6 = .going s := by decide +kernel
  have hfails : ∀ s', m.walk (start ['A']) 7 ≠ .going s' := by
    have hend : m.walk (start ['A']) 7 = .ended (.stopped (.fault .popEmpty
        (some (6, ⟨.store, none⟩)))) { s with pc := 7, stack := [] } := by decide +kernel
    simp [hend]
  obtain ⟨hlast, -, hnext⟩ := heap_holds_last_write (m := m) rfl ['A'] 6
  refine ⟨m, rfl, (hlast _ _).1 ?_, s, hs, rfl, (hnext s _ hs rfl).2 (.inr hfails)⟩
  rw [hs]
  rfl

end Whitespace.Machine
