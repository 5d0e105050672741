import Whitespace.Machine.State

/-!
# What instructions are made of

Each instruction is put together from a few actions on the state. An action that stops leaves the
state as it was at that point, so whatever was done before the stop stays done.

## Main definitions

* `Action` — a change of the state that may stop the machine.
* `pop`, `push`, `peek`, `divisor` — the operand stack.
* `poke`, `cell` — the heap.
* `Machine.target`, `jumpTo` — the flow of control.
* `readLine`, `readCharacter`, `readNumber`, `write` — input and output.
-/

namespace Whitespace

/-- A change of the state that gives a value or stops the machine. -/
abbrev Action (α : Type) := EStateM Stop State α

namespace Action

/-- Report a fault. A fault that quotes a number too long to write is reported as such. -/
def raise {α : Type} (f : Fault) : Action α := fun s =>
  match f.text with
  | .ok _ => .error (.fault f none) s
  | .error e => .error (.tooLong e) s

/-- Stop without a fault. -/
def stop {α : Type} (reason : Stop) : Action α := fun s => .error reason s

/-- A value, or a number that is too long. -/
def lift {α : Type} : Except Decimal.TooLong α → Action α
  | .ok a => pure a
  | .error e => stop (.tooLong e)

/-- Put an item on the stack. -/
def push (x : Item) : Action Unit := fun s => .ok () { s with stack := x :: s.stack }

/-- Take the top item off the stack. -/
def pop : Action Item := fun s =>
  match s.stack with
  | [] => raise .popEmpty s
  | x :: rest => .ok x { s with stack := rest }

/-- The item at a depth, the top being at depth zero. -/
def peek (depth : Int) : Action Item := fun s =>
  match (if depth < 0 then none else s.stack[depth.toNat]?) with
  | some x => .ok x s
  | none => raise (.noItem depth s.stack.length) s

/-- Take a divisor off the stack. Zero stays there. -/
def divisor : Action Item := fun s =>
  match s.stack with
  | [] => raise .popEmpty s
  | x :: rest =>
    if x = .number 0 then raise .divisorZero s else .ok x { s with stack := rest }

/-- Put a copy of the top item on the stack. -/
def duplicate : Action Unit := fun s =>
  match s.stack with
  | [] => raise .dupEmpty s
  | x :: rest => .ok () { s with stack := x :: x :: rest }

/-- Exchange the two top items. -/
def exchange : Action Unit := fun s =>
  match s.stack with
  | x :: y :: rest => .ok () { s with stack := y :: x :: rest }
  | _ => raise .swapShort s

/-- Remove `count` items from below the top. -/
def slide (count : Int) : Action Unit := fun s =>
  if count < 0 then raise (.slideNegative count) s
  else
    match s.stack with
    | top :: rest =>
      if count.toNat ≤ rest.length then .ok () { s with stack := top :: rest.drop count.toNat }
      else raise (.slideDeep count s.stack.length) s
    | [] => raise (.slideDeep count 0) s

/-- Put the result of an operator on the stack. -/
def combine (op : Operator) (x y : Item) : Action Unit :=
  match op.combine x y with
  | .ok z => push z
  | .error m => stop (.misuse m)

/-- Take two items and put one in their place; the second operand was on top. -/
def binary (op : Operator) : Action Unit := do
  let y ← pop
  let x ← pop
  combine op x y

/-- Take a divisor and a dividend and put one item in their place. -/
def division (op : Operator) : Action Unit := do
  let y ← divisor
  let x ← pop
  combine op x y

/-- Whether an item is a negative number. -/
def isNegative : Item → Action Bool
  | .number v => pure (v < 0)
  | .nothing => stop (.misuse .compared)

/-- Write to a heap cell. -/
def poke (address value : Item) : Action Unit := fun s =>
  .ok () { s with heap := s.heap.insert address value }

/-- The value of a heap cell, or the default of cells never written. -/
def cell (default? : Option Int) (address : Item) : Action Item := fun s =>
  match s.heap.get? address with
  | some x => .ok x s
  | none =>
    match default? with
    | some v => .ok (.number v) s
    | none => raise (.unwritten address) s

/-- Go on at another instruction. -/
def jumpTo (pc : Nat) : Action Unit := fun s => .ok () { s with pc := pc }

/-- Remember the next instruction and go on at another one. -/
def enter (pc : Nat) : Action Unit := fun s => .ok () { s with pc := pc, calls := s.pc :: s.calls }

/-- Go back to the instruction remembered last. -/
def leave : Action Unit := fun s =>
  match s.calls with
  | [] => raise .noCall s
  | pc :: rest => .ok () { s with pc := pc, calls := rest }

/-- Write text. -/
def write (text : String) : Action Unit := fun s => .ok () { s with output := s.output ++ text }

/-- The character that an item is the code point of. -/
def character : Item → Action Char
  | .nothing => stop (.misuse .character)
  | .number v => fun s =>
    if v < 0 ∨ 0x10FFFF < v then raise (.notCodePoint v) s
    else if 0xD800 ≤ v ∧ v ≤ 0xDFFF then raise (.surrogate v) s
    else .ok (Char.ofNat v.toNat) s

end Action

/-- A line of input: everything up to and including the first line feed, and the rest. Without a
line feed there is no complete line. -/
def splitLine? : List Char → Option (List Char × List Char)
  | [] => none
  | c :: rest =>
    if c = '\n' then some ([c], rest)
    else (splitLine? rest).map fun (line, rest) => (c :: line, rest)

/-- The sign and the digits of a line that holds one decimal integer and otherwise only space. -/
def integerLine? (line : List Char) : Option (Bool × List Char) :=
  let (negative, body) := Text.splitSign (line.dropWhile Text.isSpace)
  let digits := body.takeWhile Decimal.isDigit
  if digits ≠ [] && (body.dropWhile Decimal.isDigit).all Text.isSpace then some (negative, digits)
  else none

namespace Machine

open Whitespace.Action

/-- What reading past the given input comes to, when the end of it is the fault `f`. -/
def exhausted {α : Type} (m : Machine) (f : Fault) : Action α :=
  match m.ending with
  | .closed => raise f
  | .interrupted => stop .interrupted
  | .undecodable e => stop (.undecodable e)

/-- Read one character. -/
def readCharacter (m : Machine) : Action Char := fun s =>
  match s.unread with
  | [] => m.exhausted .noCharacter s
  | c :: rest => .ok c { s with unread := rest }

/-- Read one line. The last line of a closed input need not end in a line feed. -/
def readLine (m : Machine) : Action (List Char) := fun s =>
  match splitLine? s.unread with
  | some (line, rest) => .ok line { s with unread := rest }
  | none =>
    if s.unread ≠ [] && m.ending = .closed then .ok s.unread { s with unread := [] }
    else m.exhausted .noLine s

/-- Read a line that holds a decimal integer. -/
def readNumber (m : Machine) : Action Int := do
  let line ← m.readLine
  match integerLine? line with
  | some (negative, digits) => lift (Decimal.read negative digits)
  | none => raise (.notNumber (String.ofList (Text.stripRight line)))

/-- The instruction that a label stands at. -/
def target (m : Machine) : (label : Option Int) → Action Nat
  | none => stop (.misuse .label)
  | some label => fun s =>
    match m.program.labels.get? label with
    | some pc => .ok pc s
    | none => raise (.unmarked label) s

end Machine

end Whitespace
