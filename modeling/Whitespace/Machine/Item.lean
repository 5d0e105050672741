import Whitespace.Decimal

/-!
# Items

The stack and the heap hold items. An item is a number or nothing; nothing gets onto the stack by a
push that was given no operand. It is moved about like a number, but it takes part in no arithmetic
and in no comparison by size.

## Main definitions

* `Item` — a number or nothing.
* `Operator` — the arithmetic of the machine.
* `Operator.combine` — the same on items, which have a result if they are numbers.
* `Misuse` — what nothing was used for.
-/

namespace Whitespace

/-- What the stack and the heap hold. -/
inductive Item where
  | number (v : Int)
  | nothing
  deriving DecidableEq, Repr

namespace Item

/-- The item that an instruction with the given operand brings. -/
def ofOperand : Option Int → Item
  | some v => number v
  | none => nothing

/-- The text of an item. -/
def text : Item → Except Decimal.TooLong String
  | number v => Decimal.write v
  | nothing => .ok "None"

/-- The name of the kind of an item. -/
def kind : Item → String
  | number _ => "int"
  | nothing => "NoneType"

end Item

/-- The arithmetic of the machine. Division rounds down. -/
inductive Operator where
  | add | sub | mul | div | mod
  deriving DecidableEq, Repr

/-- A use of nothing that only a number allows. -/
inductive Misuse where
  /-- It is compared with a number by size. -/
  | compared
  /-- It is looked up as a label. -/
  | label
  /-- It is written as a character. -/
  | character
  /-- It is an operand of an operator. -/
  | operand (op : Operator) (left right : Item)
  deriving DecidableEq, Repr

namespace Operator

/-- The result of an operator. -/
def eval : Operator → Int → Int → Int
  | add => (· + ·)
  | sub => (· - ·)
  | mul => (· * ·)
  | div => Int.fdiv
  | mod => Int.fmod

/-- The sign of an operator in messages. -/
def symbol : Operator → String
  | add => "+"
  | sub => "-"
  | mul => "*"
  | div => "//"
  | mod => "%"

/-- The result of an operator on two items, which must be numbers. -/
def combine (op : Operator) : Item → Item → Except Misuse Item
  | .number a, .number b => .ok (.number (op.eval a b))
  | a, b => .error (.operand op a b)

@[simp] theorem combine_number (op : Operator) (a b : Int) :
    op.combine (.number a) (.number b) = .ok (.number (op.eval a b)) := rfl

end Operator

/-- The wording of a misuse. -/
def Misuse.message : Misuse → String
  | compared => "'<' not supported between instances of 'NoneType' and 'int'"
  | label => "unsupported format string passed to NoneType.__format__"
  | character => "'NoneType' object cannot be interpreted as an integer"
  | operand op a b =>
    "unsupported operand type(s) for " ++ op.symbol ++ ": '" ++ a.kind ++ "' and '" ++ b.kind ++ "'"

end Whitespace
