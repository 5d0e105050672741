import Whitespace.Assembly.Draft
import Whitespace.Assembly.Parser

/-!
# Tokens

The reader hands over a flat row of tokens. A mnemonic adds a command that has no operand yet, and
an operand goes to whatever command was added last: the row does not say to which one it belongs.

## Main definitions

* `Token`, `Statement.tokens`, `tokens` — what the reader hands over.
* `Draft.give`, `Draft.take`, `Draft.takeAll` — what becomes of it.
-/

namespace Whitespace.Assembly

/-- What the reader hands over. -/
inductive Token where
  /-- A mnemonic; its operand may follow. -/
  | mnemonic (op : Opcode)
  /-- A decimal number. -/
  | number (negative : Bool) (digits : List Char)
  /-- A character literal, given by the text it spells. -/
  | literal (text : List Char)
  /-- A label that stands here. -/
  | label (name : String)
  /-- A label that is gone to. -/
  | reference (name : String)
  /-- A word that is no statement. -/
  | unknown (text : List Char)
  deriving DecidableEq, Repr

/-- The kind of operand that a token is, if it is one. -/
def Token.operandKind? : Token → Option OperandKind
  | number _ _ => some .number
  | literal _ => some .number
  | reference _ => some .label
  | _ => none

/-- The tokens of a statement. -/
def Statement.tokens : Statement → List Token
  | mark name => [.label name]
  | plain op => [.mnemonic op]
  | number op negative digits => [.mnemonic op, .number negative digits]
  | character op text => [.mnemonic op, .literal text]
  | jump op label => [.mnemonic op, .reference label]
  | unknown text => [.unknown text]

/-- The tokens of a text. -/
def tokens (text : List Char) : List Token := (parse text).1.flatMap Statement.tokens

/-- Why a token cannot be taken over. -/
inductive Setback where
  /-- The text is refused. -/
  | refused (e : Error)
  /-- An operand comes when there is no command. -/
  | astray
  deriving DecidableEq, Repr

namespace Draft

/-- Give an operand to the command that was added last, whatever it is. -/
def give (d : Draft) (a : Argument) : EStateM.Result Setback Draft Unit :=
  match d.commands.back? with
  | some c => .ok () { d with commands := d.commands.pop.push { c with argument := a } }
  | none => .error .astray d

/-- Take over one token. -/
def take (d : Draft) : Token → EStateM.Result Setback Draft Unit
  | .mnemonic op => .ok () ((d.announce op).push ⟨op, .none⟩)
  | .number negative digits =>
    match Decimal.read negative digits with
    | .ok v => d.give (.number v)
    | .error e => .error (.refused (.tooLong e)) d
  | .literal text =>
    match text with
    | [c] => d.give (.number c.toNat)
    | _ => .error (.refused (.notSingle text)) d
  | .label name => .ok () (d.addMark name)
  | .reference name => ((d.note ("Ref " ++ name)).useName name).give (.name name)
  | .unknown text => .error (.refused (.unknown text)) d

/-- Take over tokens up to the first one that cannot be taken over. -/
def takeAll (d : Draft) : List Token → EStateM.Result Setback Draft Unit
  | [] => .ok () d
  | t :: rest =>
    match d.take t with
    | .ok () d' => d'.takeAll rest
    | .error e d' => .error e d'

end Draft

end Whitespace.Assembly
