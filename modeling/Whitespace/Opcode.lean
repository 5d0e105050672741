import Whitespace.Blank

/-!
# Instruction codes

Every instruction starts with the word of its family and goes on with a command word within the
family. Both sets of words are prefix free, so a reader knows a word as soon as it is complete.

## Main definitions

* `Family`, `OperandKind`, `Opcode` — the instruction set.
* `Family.word`, `Opcode.command`, `Opcode.code` — how instructions are spelled.
* `Selection`, `select` — what the first blanks of a word say about it.
-/

namespace Whitespace

/-- The groups the instruction set is divided into. -/
inductive Family where
  | stack
  | arithmetic
  | heap
  | flow
  | io
  deriving DecidableEq, Repr

/-- What follows the code of an instruction. -/
inductive OperandKind where
  /-- Nothing. -/
  | none
  /-- A sign and binary digits, ended by a line feed. -/
  | number
  /-- Binary digits, ended by a line feed. -/
  | label
  deriving DecidableEq, Repr

/-- The instruction set. -/
inductive Opcode where
  | push
  | dup
  | copy
  | swap
  | discard
  | slide
  | add
  | sub
  | mul
  | div
  | mod
  | store
  | retrieve
  | mark
  | call
  | jump
  | jumpZero
  | jumpNegative
  | ret
  | halt
  | writeChar
  | writeNumber
  | readChar
  | readNumber
  deriving DecidableEq, Repr

namespace Family

/-- All families. -/
def all : List Family := [stack, arithmetic, heap, flow, io]

/-- The word that opens every instruction of a family. -/
def word : Family → List Blank
  | stack => [.space]
  | arithmetic => [.tab, .space]
  | heap => [.tab, .tab]
  | flow => [.feed]
  | io => [.tab, .feed]

/-- The name used in messages. -/
def name : Family → String
  | stack => "STACK"
  | arithmetic => "ARITHMETIC"
  | heap => "HEAP"
  | flow => "FLOW"
  | io => "IO"

end Family

namespace OperandKind

/-- The name of an operand kind. -/
def name : OperandKind → String
  | none => "NONE"
  | number => "NUMBER"
  | label => "LABEL"

end OperandKind

namespace Opcode

/-- All opcodes, family by family. -/
def all : List Opcode :=
  [push, dup, copy, swap, discard, slide, add, sub, mul, div, mod, store, retrieve, mark, call,
    jump, jumpZero, jumpNegative, ret, halt, writeChar, writeNumber, readChar, readNumber]

/-- The family an opcode belongs to. -/
def family : Opcode → Family
  | push | dup | copy | swap | discard | slide => .stack
  | add | sub | mul | div | mod => .arithmetic
  | store | retrieve => .heap
  | mark | call | jump | jumpZero | jumpNegative | ret | halt => .flow
  | writeChar | writeNumber | readChar | readNumber => .io

/-- The word that selects an opcode within its family. -/
def command : Opcode → List Blank
  | push => [.space]
  | dup => [.feed, .space]
  | copy => [.tab, .space]
  | swap => [.feed, .tab]
  | discard => [.feed, .feed]
  | slide => [.tab, .feed]
  | add => [.space, .space]
  | sub => [.space, .tab]
  | mul => [.space, .feed]
  | div => [.tab, .space]
  | mod => [.tab, .tab]
  | store => [.space]
  | retrieve => [.tab]
  | mark => [.space, .space]
  | call => [.space, .tab]
  | jump => [.space, .feed]
  | jumpZero => [.tab, .space]
  | jumpNegative => [.tab, .tab]
  | ret => [.tab, .feed]
  | halt => [.feed, .feed]
  | writeChar => [.space, .space]
  | writeNumber => [.space, .tab]
  | readChar => [.tab, .space]
  | readNumber => [.tab, .tab]

/-- The blanks an instruction starts with: the family's word, then the command. -/
def code (op : Opcode) : List Blank := op.family.word ++ op.command

/-- The operand an opcode takes. -/
def operandKind : Opcode → OperandKind
  | push | copy | slide => .number
  | mark | call | jump | jumpZero | jumpNegative => .label
  | _ => .none

/-- The name used in messages and traces. -/
def name : Opcode → String
  | push => "PUSH"
  | dup => "DUP"
  | copy => "COPY"
  | swap => "SWAP"
  | discard => "DISCARD"
  | slide => "SLIDE"
  | add => "ADD"
  | sub => "SUB"
  | mul => "MUL"
  | div => "DIV"
  | mod => "MOD"
  | store => "STORE"
  | retrieve => "RETRIEVE"
  | mark => "MARK"
  | call => "CALL"
  | jump => "JUMP"
  | jumpZero => "JZ"
  | jumpNegative => "JN"
  | ret => "RETURN"
  | halt => "END"
  | writeChar => "OUTC"
  | writeNumber => "OUTN"
  | readChar => "INC"
  | readNumber => "INN"

/-- The word assembly text uses for an opcode. -/
def mnemonic : Opcode → String
  | push => "push"
  | dup => "dup"
  | copy => "copy"
  | swap => "swap"
  | discard => "discard"
  | slide => "slide"
  | add => "add"
  | sub => "sub"
  | mul => "mul"
  | div => "div"
  | mod => "mod"
  | store => "store"
  | retrieve => "retrieve"
  | mark => "mark"
  | call => "call"
  | jump => "jmp"
  | jumpZero => "jz"
  | jumpNegative => "jn"
  | ret => "ret"
  | halt => "end"
  | writeChar => "outc"
  | writeNumber => "outn"
  | readChar => "inc"
  | readNumber => "inn"

/-- The opcode with a given name. -/
def ofName? (s : String) : Option Opcode := all.find? (·.name = s)

/-- The opcode with a given mnemonic. -/
def ofMnemonic? (s : String) : Option Opcode := all.find? (·.mnemonic = s)

@[simp] theorem mem_all (op : Opcode) : op ∈ all := by cases op <;> decide

theorem ofMnemonic?_mnemonic (op : Opcode) : ofMnemonic? op.mnemonic = some op := by
  cases op <;> decide

theorem mnemonic_of_ofMnemonic? {s : String} {op : Opcode} (h : ofMnemonic? s = some op) :
    op.mnemonic = s := by
  simpa using List.find?_some h

end Opcode

/-- The opcodes of a family. -/
def Family.opcodes (f : Family) : List Opcode := Opcode.all.filter (·.family = f)

/-- What the blanks read so far say about the word being read. -/
inductive Selection (α : Type) where
  /-- They are the word of `a`. -/
  | found (a : α)
  /-- They start some word. -/
  | more
  /-- They start no word. -/
  | unknown
  deriving DecidableEq

/-- Look the blanks read so far up among the words of `items`. -/
def select {α : Type} (items : List α) (word : α → List Blank) (pending : List Blank) :
    Selection α :=
  match items.find? (word · = pending) with
  | some a => .found a
  | none => if items.any (pending.isPrefixOf <| word ·) then .more else .unknown

/-- The family that the blanks read so far select. -/
def Family.select (pending : List Blank) : Selection Family :=
  Whitespace.select Family.all Family.word pending

/-- The opcode of family `f` that the blanks read so far select. -/
def Opcode.select (f : Family) (pending : List Blank) : Selection Opcode :=
  Whitespace.select f.opcodes Opcode.command pending

end Whitespace
