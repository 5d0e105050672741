import Whitespace.Proofs.Decimal
import Whitespace.Proofs.Machine.Memory
import Whitespace.Proofs.Machine.NumberLine
import Whitespace.Proofs.Program

/-!
# Reading back what was printed

A program prints characters and numbers, each number on a line of its own, and another program reads
them from that output. A character is read as one character, whatever it is, and the line feed behind
a number ends its line. So the reader never takes more or less than what was printed for an entry,
and finds each entry where the printer has left it.

## Main definitions

* `Machine.Performs` — instructions that are executed one after the other.
* `Entry` — what is printed and read back.
* `printer`, `reader` — the two programs.
* `Entry.fill` — the heap that the reader leaves.

## Main statements

* `Machine.Performs.run` — a program that is performed as a whole runs off its end.
* `Machine.performs_printing`, `Machine.performs_reading` — one entry.
* `Machine.performs_printings`, `Machine.performs_readingFrom` — all entries.
* `reads_back` — what the printer prints, the reader reads back.
-/

namespace Whitespace

namespace Machine

/-! ## Instructions in a row -/

/-- The instructions lead from one state to another, one after the other. -/
inductive Performs (m : Machine) : List Instruction → State → State → Prop where
  | done (s : State) : Performs m [] s s
  | next {i : Instruction} {is : List Instruction} {s s₁ s₂ : State}
      (hexec : m.exec i { s with pc := s.pc + 1 } = .ok () s₁) (hpc : s₁.pc = s.pc + 1)
      (h : Performs m is s₁ s₂) : Performs m (i :: is) s s₂

namespace Performs

variable {m : Machine} {code more rest : List Instruction} {s s₁ s₂ : State}

theorem append (h₁ : Performs m code s s₁) (h₂ : Performs m more s₁ s₂) :
    Performs m (code ++ more) s s₂ := by
  induction h₁ with
  | done s => exact h₂
  | next hexec hpc _ ih => exact .next hexec hpc (ih h₂)

/-- A walk performs the instructions that are ahead. -/
theorem walk (h : Performs m code s s₁) (htrace : m.settings.trace = false)
    (hcode : m.program.instructions.toList.drop s.pc = code ++ rest) :
    m.walk s code.length = .going s₁ ∧ m.program.instructions.toList.drop s₁.pc = rest := by
  induction h with
  | done s => exact ⟨rfl, hcode⟩
  | @next i is s s₁ s₂ hexec hpc h ih =>
    have hi : m.program.instructions[s.pc]? = some i := by
      rw [← Array.getElem?_toList, ← List.head?_drop, hcode]
      rfl
    have htick : m.tick s = .going s₁ := (tick_eq_going_iff htrace hi).2 hexec
    have hahead : m.program.instructions.toList.drop s₁.pc = is ++ rest := by
      rw [hpc, ← List.tail_drop, hcode]
      rfl
    obtain ⟨hwalk, hrest⟩ := ih hahead
    refine ⟨?_, hrest⟩
    rw [List.length_cons, Machine.walk, htick]
    exact hwalk

/-- A program that is performed as a whole runs off its end. -/
theorem run {input : List Char} (htrace : m.settings.trace = false)
    (h : Performs m m.program.instructions.toList (start input) s₁) :
    ∃ r, m.run input (m.program.size + 1) = some r ∧ r.ending = .ranOff ∧ r.state = s₁ := by
  have hcode : m.program.instructions.toList.drop (start input).pc =
      m.program.instructions.toList ++ [] := by
    simp [start]
  obtain ⟨hwalk, hrest⟩ := h.walk htrace hcode
  have hbehind : m.program.instructions[s₁.pc]? = none := by
    rw [← Array.getElem?_toList, List.getElem?_eq_none_iff]
    exact List.drop_eq_nil_iff.1 hrest
  have hend : m.walk (start input) (m.program.size + 1) = .ended .ranOff s₁ := by
    rw [walk_succ, Program.size, ← Array.length_toList, hwalk]
    exact tick_of_getElem?_none hbehind
  have hrun := m.outcome_run input (m.program.size + 1)
  rw [hend] at hrun
  obtain ⟨r, hr, houtcome⟩ := Option.map_eq_some_iff.1 hrun
  obtain ⟨hending, hstate⟩ := Prod.mk.inj houtcome
  exact ⟨r, hr, hending, hstate⟩

end Performs

end Machine

/-! ## Entries -/

/-- What is printed and read back. -/
inductive Entry where
  | character (c : Char)
  | number (v : Int)
  deriving DecidableEq, Repr

namespace Entry

/-- The item that is read back. -/
def item : Entry → Item
  | character c => .number c.toNat
  | number v => .number v

/-- A number can be printed if it is within the limit, and any character can. -/
def Fits : Entry → Prop
  | character _ => True
  | number v => Decimal.Fits v

/-- Push an entry and print it, a number with a line feed behind it. -/
def printing : Entry → List Instruction
  | character c => [⟨.push, some c.toNat⟩, ⟨.writeChar, none⟩]
  | number v => [⟨.push, some v⟩, ⟨.writeNumber, none⟩, ⟨.push, some 10⟩, ⟨.writeChar, none⟩]

/-- Push an address and read an entry into its cell. -/
def reading (address : Nat) : Entry → List Instruction
  | character _ => [⟨.push, some address⟩, ⟨.readChar, none⟩]
  | number _ => [⟨.push, some address⟩, ⟨.readNumber, none⟩]

/-- What is printed for an entry. -/
def text : Entry → List Char
  | character c => [c]
  | number v => (Decimal.text v).toList ++ ['\n']

/-- The heap with entries in the cells from an address on. -/
def fill (heap : Table Item Item) (address : Nat) : List Entry → Table Item Item
  | [] => heap
  | e :: es => fill (heap.insert (.number address) e.item) (address + 1) es

end Entry

/-- Print entries. -/
def printer (es : List Entry) : Program := .ofInstructions (es.flatMap Entry.printing)

/-- Read entries into the cells from an address on. -/
def readingFrom (address : Nat) : List Entry → List Instruction
  | [] => []
  | e :: es => e.reading address ++ readingFrom (address + 1) es

/-- Read entries into the cells from zero on. -/
def reader (es : List Entry) : Program := .ofInstructions (readingFrom 0 es)

/-! ## Lines that hold a number -/

/-- The decimal text of a number and a line feed are a line that holds the number. -/
theorem integerLine?_text (v : Int) :
    integerLine? ((Decimal.text v).toList ++ ['\n']) =
      some (decide (v < 0), Nat.toDigits 10 v.natAbs) := by
  have hline := IntegerLine.intro [] _ ['\n'] (by simp)
    (Assembly.Cursor.isSign_decimal v) Nat.toDigits_ne_nil
    (fun _ => Decimal.isDigit_of_mem_toDigits (n := v.natAbs)) (by simp [Text.isSpace])
  simpa [Decimal.toList_text] using integerLine?_of_integerLine hline

/-- The decimal text of a number is on one line. -/
theorem feed_not_mem_text (v : Int) : '\n' ∉ (Decimal.text v).toList := by
  rw [Decimal.toList_text, List.mem_append, not_or]
  refine ⟨by split <;> decide, fun hfeed => ?_⟩
  have hdigit := Decimal.isDigit_of_mem_toDigits hfeed
  simp [Decimal.isDigit] at hdigit

/-! ## Printing and reading -/

namespace Machine

open Whitespace.Action

variable {m : Machine} {s : State} {rest : List Item} {x : Item}

theorem character_toNat (c : Char) (s : State) : character (.number c.toNat) s = .ok c s := by
  have hvalid : c.toNat < 0xD800 ∨ 0xDFFF < c.toNat ∧ c.toNat < 0x110000 := c.valid
  simp only [character]
  rw [if_neg (by omega), if_neg (by omega), Int.toNat_natCast, Char.ofNat_toNat]

theorem exec_writeChar {c : Char} (hs : s.stack = .number c.toNat :: rest) :
    m.exec ⟨.writeChar, none⟩ s =
      .ok () { s with stack := rest, output := s.output ++ String.singleton c } := by
  simp only [exec, bind_apply, pop_of_cons hs, character_toNat, write]

theorem exec_writeNumber {v : Int} (hv : Decimal.Fits v) (hs : s.stack = .number v :: rest) :
    m.exec ⟨.writeNumber, none⟩ s =
      .ok () { s with stack := rest, output := s.output ++ Decimal.text v } := by
  simp only [exec, bind_apply, pop_of_cons hs, Item.text, Decimal.write_of_fits hv]
  rfl

theorem exec_readChar {c : Char} {t : List Char} (hs : s.stack = x :: rest)
    (hunread : s.unread = c :: t) :
    m.exec ⟨.readChar, none⟩ s = .ok ()
      { s with stack := rest, unread := t, heap := s.heap.insert x (.number c.toNat) } := by
  simp only [exec, bind_apply, readCharacter, hunread, pop, hs, poke]

theorem exec_readNumber {v : Int} (hv : Decimal.Fits v) {t : List Char} (hs : s.stack = x :: rest)
    (hunread : s.unread = (Decimal.text v).toList ++ '\n' :: t) :
    m.exec ⟨.readNumber, none⟩ s = .ok ()
      { s with stack := rest, unread := t, heap := s.heap.insert x (.number v) } := by
  simp only [exec, bind_apply, readNumber, readLine_feed (feed_not_mem_text v) hunread,
    integerLine?_text, lift, Decimal.read_toDigits hv, pop, hs, poke]
  rfl

/-- Push the code point of a character and print it. -/
theorem performs_character (m : Machine) (c : Char) (s : State) :
    Performs m (Entry.character c).printing s
      { s with pc := s.pc + 2, output := s.output ++ String.singleton c } :=
  .next rfl rfl (.next (exec_writeChar rfl) rfl (.done _))

/-- An entry is printed as its text. -/
theorem performs_printing (m : Machine) {e : Entry} (he : e.Fits) (s : State) :
    Performs m e.printing s { s with
      pc := s.pc + e.printing.length, output := s.output ++ String.ofList e.text } := by
  cases e with
  | character c =>
    rw [Entry.text, ← String.singleton_eq_ofList]
    exact performs_character m c s
  | number v =>
    have hnumber : Performs m [⟨.push, some v⟩, ⟨.writeNumber, none⟩] s
        { s with pc := s.pc + 2, output := s.output ++ Decimal.text v } :=
      .next rfl rfl (.next (exec_writeNumber he rfl) rfl (.done _))
    have htext : s.output ++ String.ofList (Entry.number v).text =
        s.output ++ Decimal.text v ++ String.singleton '\n' := by
      simp [Entry.text, String.append_assoc]
    rw [htext]
    exact hnumber.append (performs_character m '\n' _)

/-- Entries are printed one behind the other. -/
theorem performs_printings (m : Machine) {es : List Entry} (hes : ∀ e ∈ es, e.Fits) (s : State) :
    ∃ pc, Performs m (es.flatMap Entry.printing) s { s with
      pc := pc, output := s.output ++ String.ofList (es.flatMap Entry.text) } := by
  induction es generalizing s with
  | nil => exact ⟨s.pc, by simpa using Performs.done s⟩
  | cons e es ih =>
    obtain ⟨he, hes⟩ := List.forall_mem_cons.1 hes
    have hfirst := performs_printing m he s
    obtain ⟨pc, hothers⟩ := ih hes _
    refine ⟨pc, ?_⟩
    simpa [String.append_assoc, String.ofList_append] using hfirst.append hothers

/-- An entry is read from its text, and nothing behind it is taken. -/
theorem performs_reading (m : Machine) {e : Entry} (he : e.Fits) (address : Nat) {s : State}
    {t : List Char} (hunread : s.unread = e.text ++ t) :
    Performs m (e.reading address) s { s with
      pc := s.pc + 2, unread := t, heap := s.heap.insert (.number address) e.item } := by
  cases e with
  | character c => exact .next rfl rfl (.next (exec_readChar rfl hunread) rfl (.done _))
  | number v =>
    have hline : s.unread = (Decimal.text v).toList ++ '\n' :: t := by
      simpa [Entry.text] using hunread
    exact .next rfl rfl (.next (exec_readNumber he rfl hline) rfl (.done _))

/-- Entries are read one behind the other, each into the cell behind the last one. -/
theorem performs_readingFrom (m : Machine) {es : List Entry} (hes : ∀ e ∈ es, e.Fits)
    (address : Nat) {s : State} {t : List Char} (hunread : s.unread = es.flatMap Entry.text ++ t) :
    ∃ pc, Performs m (readingFrom address es) s { s with
      pc := pc, unread := t, heap := Entry.fill s.heap address es } := by
  induction es generalizing s address with
  | nil =>
    obtain rfl : s.unread = t := by simpa using hunread
    exact ⟨s.pc, .done s⟩
  | cons e es ih =>
    obtain ⟨he, hes⟩ := List.forall_mem_cons.1 hes
    rw [List.flatMap_cons, List.append_assoc] at hunread
    have hfirst := performs_reading m he address hunread
    obtain ⟨pc, hothers⟩ := ih hes (address + 1) (s := { s with
      pc := s.pc + 2
      unread := es.flatMap Entry.text ++ t
      heap := s.heap.insert (.number address) e.item }) rfl
    exact ⟨pc, hfirst.append hothers⟩

end Machine

namespace Entry

variable {es : List Entry}

theorem get?_fill_of_lt (es : List Entry) (heap : Table Item Item) {address i : Nat}
    (h : i < address) :
    (fill heap address es).get? (.number i) = heap.get? (.number i) := by
  induction es generalizing heap address with
  | nil => rfl
  | cons e es ih =>
    have hne : (i : Int) ≠ address := by omega
    rw [fill, ih _ (by omega)]
    simp [hne]

/-- Every entry is in its cell. -/
theorem get?_fill (heap : Table Item Item) (address : Nat) {i : Nat} {e : Entry}
    (h : es[i]? = some e) : (fill heap address es).get? (.number (address + i)) = some e.item := by
  induction es generalizing heap address i with
  | nil => simp at h
  | cons e' es ih =>
    rw [fill]
    cases i with
    | zero =>
      obtain rfl : e' = e := by simpa using h
      have hlater := get?_fill_of_lt es (heap.insert (.number address) e'.item)
        (Nat.lt_succ_self address)
      simpa using hlater
    | succ i =>
      have hnext := ih (heap.insert (.number address) e'.item) (address + 1) (i := i) h
      rw [← hnext]
      congr 2
      omega

end Entry

/-- What is printed can be read back. The printer prints the texts of the entries, whatever its input
is. The reader, run on this output, reads all of it, and each entry is then in its cell. -/
theorem reads_back {es : List Entry} (hes : ∀ e ∈ es, e.Fits) {settings settings' : Settings}
    (htrace : settings.trace = false) (htrace' : settings'.trace = false)
    (ending ending' : Input.Ending) (input : List Char) :
    ∃ r, (Machine.mk (printer es) settings ending).run input ((printer es).size + 1) = some r ∧
      r.ending = .ranOff ∧ r.state.output = String.ofList (es.flatMap Entry.text) ∧
      ∃ r', (Machine.mk (reader es) settings' ending').run r.state.output.toList
          ((reader es).size + 1) = some r' ∧
        r'.ending = .ranOff ∧ r'.state.unread = [] ∧
        ∀ (i : Nat) (e : Entry), es[i]? = some e →
          r'.state.heap.get? (.number i) = some e.item := by
  let m : Machine := ⟨printer es, settings, ending⟩
  let m' : Machine := ⟨reader es, settings', ending'⟩
  obtain ⟨pc, hprints⟩ := Machine.performs_printings m hes (Machine.start input)
  rw [← Program.toList_ofInstructions (es.flatMap Entry.printing)] at hprints
  obtain ⟨r, hrun, hending, hstate⟩ := Machine.Performs.run htrace hprints
  have houtput : r.state.output = String.ofList (es.flatMap Entry.text) := by
    simp [hstate, Machine.start]
  refine ⟨r, hrun, hending, houtput, ?_⟩
  obtain ⟨pc', hreads⟩ := Machine.performs_readingFrom m' hes 0
    (s := Machine.start r.state.output.toList) (t := []) (by simp [Machine.start, houtput])
  rw [← Program.toList_ofInstructions (readingFrom 0 es)] at hreads
  obtain ⟨r', hrun', hending', hstate'⟩ := Machine.Performs.run htrace' hreads
  refine ⟨r', hrun', hending', by rw [hstate'], fun i e he => ?_⟩
  rw [hstate']
  simpa using Entry.get?_fill (Machine.start r.state.output.toList).heap 0 he

/-- A line feed, a number, a digit and another number: the digit and the number behind it are printed
as `70`, and read one after the other. -/
theorem reads_back_digit :
    ∃ r r', (Machine.mk (printer [.character '\n', .number (-12), .character '7', .number 0])
        {} .closed).run [] 13 = some r ∧ r.state.output = "\n-12\n70\n" ∧
      (Machine.mk (reader [.character '\n', .number (-12), .character '7', .number 0])
        {} .closed).run "\n-12\n70\n".toList 9 = some r' ∧
      r'.ending = .ranOff ∧ r'.state.unread = [] ∧
      r'.state.heap.get? (.number 1) = some (.number (-12)) ∧
      r'.state.heap.get? (.number 2) = some (.number 55) := by
  have hfits (v : Int) (hv : v.natAbs < 10 ^ 2) : Decimal.Fits v :=
    Decimal.fits_of_lt_pow hv (by decide)
  have hes : ∀ e ∈ [Entry.character '\n', .number (-12), .character '7', .number 0], e.Fits := by
    simp [Entry.Fits, hfits]
  have htrace : ({} : Settings).trace = false := rfl
  obtain ⟨r, hr, -, houtput, r', hr', hending, hunread, hcells⟩ :=
    reads_back hes htrace htrace .closed .closed []
  have htext : r.state.output = "\n-12\n70\n" := houtput.trans (by decide)
  rw [htext] at hr'
  exact ⟨r, r', hr, htext, hr', hending, hunread, hcells 1 _ rfl, hcells 2 _ rfl⟩

end Whitespace
