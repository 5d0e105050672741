import Whitespace.Assembly.Statement
import Whitespace.Decimal
import Whitespace.Log
import Whitespace.Text.Quoted

/-!
# Drafts

The statements of a text are collected into a draft: commands whose labels are still names,
together with the names met so far.

## Main definitions

* `Command` — a command whose label, if it has one, is a name.
* `Draft` — the commands and names collected so far.
* `Draft.add`, `Draft.addAll` — take over statements.
-/

namespace Whitespace.Assembly

/-- The operand of a command. -/
inductive Argument where
  | none
  | number (v : Int)
  | name (label : String)
  deriving DecidableEq, Repr

/-- A command whose label, if it has one, is a name. -/
structure Command where
  opcode : Opcode
  argument : Argument := .none
  deriving DecidableEq, Repr

/-- Why a text cannot be assembled. -/
inductive Error where
  /-- A word is no statement. -/
  | unknown (text : List Char)
  /-- A character literal spells no character or several. -/
  | notSingle (text : List Char)
  /-- A number has too many digits. -/
  | tooLong (e : Decimal.TooLong)
  /-- Labels are used that stand nowhere; their names are sorted. -/
  | undefined (names : List String)
  /-- A command lacks its operand. -/
  | missingOperand
  deriving DecidableEq, Repr

/-- The wording of an error. -/
def Error.message : Error → String
  | unknown text => "Unknown command " ++ Text.quote (String.ofList text)
  | notSingle text =>
    "Character literal " ++ Text.quote (String.ofList text) ++ " is not a single character"
  | tooLong e => e.message
  | undefined names => "Undefined labels " ++ Text.bracketed (names.map Text.quote)
  | missingOperand => ""

/-- What was collected from a text so far. -/
structure Draft where
  commands : Array Command := #[]
  /-- The names of labels in order of first appearance. -/
  names : List String := []
  /-- The names of labels that stand somewhere. -/
  marked : List String := []
  log : Log := #[]

namespace Draft

/-- Take note of a name. -/
def useName (d : Draft) (name : String) : Draft :=
  if name ∈ d.names then d else { d with names := d.names ++ [name] }

/-- Make a detailed log record. -/
def note (d : Draft) (message : String) : Draft := { d with log := d.log.debug message }

/-- Add a command at the end. -/
def push (d : Draft) (c : Command) : Draft := { d with commands := d.commands.push c }

/-- Announce a command. -/
def announce (d : Draft) (op : Opcode) : Draft := d.note ("Issuing command " ++ op.name)

/-- Let a label stand here. A second time is worth a warning. -/
def addMark (d : Draft) (name : String) : Draft :=
  let d :=
    if name ∈ d.marked then
      { d with log := d.log.add ⟨.warning,
          "Label " ++ name ++ " is marked more than once, the last mark wins"⟩ }
    else d
  let d := (d.note ("Label " ++ name ++ " @ #" ++ d.commands.size.repr)).useName name
  let d := if name ∈ d.marked then d else { d with marked := name :: d.marked }
  d.push ⟨.mark, .name name⟩

/-- Take over one statement. -/
def add (d : Draft) : Statement → EStateM.Result Error Draft Unit
  | .mark name => .ok () (d.addMark name)
  | .plain op => .ok () ((d.announce op).push ⟨op, .none⟩)
  | .number op negative digits =>
    match Decimal.read negative digits with
    | .ok v => .ok () ((d.announce op).push ⟨op, .number v⟩)
    | .error e => .error (.tooLong e) (d.announce op)
  | .character op text =>
    match text with
    | [c] => .ok () ((d.announce op).push ⟨op, .number c.toNat⟩)
    | _ => .error (.notSingle text) (d.announce op)
  | .jump op label =>
    let d := ((d.announce op).note ("Ref " ++ label)).useName label
    .ok () (d.push ⟨op, .name label⟩)
  | .unknown text => .error (.unknown text) d

/-- Take over statements up to the first one that is wrong. -/
def addAll (d : Draft) : List Statement → EStateM.Result Error Draft Unit
  | [] => .ok () d
  | s :: rest =>
    match d.add s with
    | .ok () d' => d'.addAll rest
    | .error e d' => .error e d'

/-- The names that are used and stand nowhere, in order of first appearance. -/
def undefined (d : Draft) : List String := d.names.filter (· ∉ d.marked)

end Draft

end Whitespace.Assembly
