import Whitespace.Log
import Whitespace.Machine.Fault
import Whitespace.Program
import Whitespace.Settings
import Whitespace.Table
import Whitespace.Text.Lines

/-!
# The machine and its state

## Main definitions

* `Input.Ending` — what happens when a program reads past the text it was given.
* `Machine` — what stays the same during a run.
* `State` — what changes: program counter, stacks, heap, unread input and output.
* `State.dump` — the state as traces show it.
-/

namespace Whitespace

/-- What happens when a program reads past the text that is there. -/
inductive Input.Ending where
  /-- The input is at its end. -/
  | closed
  /-- The user interrupts the program. -/
  | interrupted
  /-- The next bytes are no text. -/
  | undecodable (e : Utf8.Error)
  deriving DecidableEq, Repr

/-- A text that a program can read, and what comes after it. -/
structure Input where
  text : List Char := []
  ending : Input.Ending := .closed
  deriving DecidableEq, Repr

/-- Drop a carriage return at the end, which may be half of a line ending still to come. -/
def Input.holdReturn (s : List Char) : List Char :=
  if s.getLast? = some '\r' then s.dropLast else s

/-- The input that bytes typed in UTF-8 are, with unified line endings. Bytes that can be no text
are noticed before any of them is read; a character that is cut off only after the rest. -/
def Input.ofBytes (bytes : List UInt8) (interrupt : Bool) : Input :=
  match Utf8.decode bytes with
  | (text, none) =>
    if interrupt then ⟨Text.unifyNewlines (holdReturn text), .interrupted⟩
    else ⟨Text.unifyNewlines text, .closed⟩
  | (text, some e) =>
    if e.reason = .cutOff then
      ⟨Text.unifyNewlines (holdReturn text),
        if interrupt then .interrupted else .undecodable { e with position := 0 }⟩
    else ⟨[], .undecodable e⟩

/-- A machine: a program, the settings it runs under, and what comes after the given input. -/
structure Machine where
  program : Program
  settings : Settings := {}
  ending : Input.Ending := .closed

/-- The state of a machine. -/
structure State where
  /-- The index of the next instruction. -/
  pc : Nat := 0
  /-- The operand stack, the top first. -/
  stack : List Item := []
  /-- The return addresses, the latest first. -/
  calls : List Nat := []
  /-- The heap cells that were written. -/
  heap : Table Item Item := {}
  /-- The input not yet read. -/
  unread : List Char := []
  /-- The output written so far. -/
  output : String := ""
  deriving DecidableEq, Repr

namespace State

/-- The texts of items. -/
def itemTexts (xs : List Item) : Except Decimal.TooLong (List String) := xs.mapM Item.text

/-- The heap as traces show it. -/
def heapText (heap : Table Item Item) : Except Decimal.TooLong String := do
  let cells ← heap.entries.mapM fun e => do
    let address ← e.1.text
    let value ← e.2.text
    return address ++ ": " ++ value
  return "\x7b" ++ ", ".intercalate cells ++ "\x7d"

/-- The state as traces show it, both stacks from the bottom up. -/
def dump (s : State) : Except Decimal.TooLong String := do
  let stack ← itemTexts s.stack.reverse
  let heap ← heapText s.heap
  return "PC:" ++ s.pc.repr ++ " S:" ++ Text.bracketed stack ++ " C:" ++
    Text.bracketed (s.calls.reverse.map Nat.repr) ++ " H:" ++ heap

end State

end Whitespace
