import Whitespace.Opcode

/-!
# Statements of assembly text

## Main definitions

* `Statement` — what a reader finds in assembly text, in the order of the text.
-/

namespace Whitespace.Assembly

/-- What a reader finds in assembly text. -/
inductive Statement where
  /-- A label stands here. -/
  | mark (name : String)
  /-- A command without operand. -/
  | plain (opcode : Opcode)
  /-- A command with a decimal number. -/
  | number (opcode : Opcode) (negative : Bool) (digits : List Char)
  /-- A command with a character literal, given by the text it spells. -/
  | character (opcode : Opcode) (text : List Char)
  /-- A command that goes to a label. -/
  | jump (opcode : Opcode) (label : String)
  /-- A word that is no statement. -/
  | unknown (text : List Char)
  deriving DecidableEq, Repr

end Whitespace.Assembly
