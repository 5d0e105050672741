import Whitespace.Assembly.Draft
import Whitespace.Assembly.Labels
import Whitespace.Assembly.Parser
import Whitespace.Encoder
import Whitespace.Listing

/-!
# Assembling

## Main definitions

* `Command.encode?` — a command as blanks, given the digits of the labels.
* `Command.tag` — a command as a remark without blanks.
* `assembleLogged`, `assemble` — the source that a text stands for.
-/

namespace Whitespace.Assembly

namespace Command

/-- The blanks of a command, unless it lacks its operand or its label has no digits. -/
def encode? (labels : Table String (List Bool)) (c : Command) : Option (List Blank) :=
  match c.opcode.operandKind, c.argument with
  | .none, _ => some c.opcode.code
  | .number, .number v => some (c.opcode.code ++ numberWord v)
  | .label, .name name => (labels.get? name).map fun bits => c.opcode.code ++ labelWord bits
  | _, _ => none

/-- The remark that names a command. -/
def tag (c : Command) : Except Decimal.TooLong String :=
  match c.argument with
  | .none => .ok (tagText c.opcode none)
  | .number v => (Decimal.write v).map fun t => tagText c.opcode (some t)
  | .name name => .ok (tagText c.opcode (some name))

/-- The source of a command, with its remark in front if asked for. -/
def source (tagged : Bool) (labels : Table String (List Bool)) (c : Command) :
    Except Error String :=
  match (if tagged then c.tag else .ok "") with
  | .error e => .error (.tooLong e)
  | .ok remark =>
    match c.encode? labels with
    | some blanks => .ok (remark ++ Blank.text blanks)
    | none => .error .missingOperand

end Command

/-- The sources of commands, one after the other. -/
def sources (tagged : Bool) (labels : Table String (List Bool)) :
    List Command → Except Error (List String)
  | [] => .ok []
  | c :: rest => do
    let first ← c.source tagged labels
    let others ← sources tagged labels rest
    return first :: others

/-- The source of a draft: every label must stand somewhere. -/
def Draft.source (tagged : Bool) (d : Draft) : EStateM.Result Error Log String :=
  if d.undefined = [] then
    let labels := allocate d.names
    match sources tagged labels d.commands.toList with
    | .ok texts =>
      let line := "Assembled " ++ d.commands.size.repr ++ " instructions, " ++ labels.size.repr ++
        " labels"
      .ok (String.join texts) (d.log.debug line)
    | .error e => .error e d.log
  else .error (.undefined (d.undefined.mergeSort (· ≤ ·))) d.log

/-- The draft of a text. -/
def draft (text : List Char) : EStateM.Result Error Draft Unit := ({} : Draft).addAll (parse text).1

/-- The source that a text stands for, and the log of assembling it. All of the text is read before
the first statement is taken over. -/
def assembleLogged (tagged : Bool) (text : List Char) : EStateM.Result Error Log String :=
  match draft text with
  | .ok () d => d.source tagged
  | .error e d => .error e d.log

/-- The source that a text stands for. -/
def assemble (tagged : Bool) (text : List Char) : Except Error String :=
  match assembleLogged tagged text with
  | .ok s _ => .ok s
  | .error e _ => .error e

end Whitespace.Assembly
