import Whitespace.Bits
import Whitespace.Decoder.Stage
import Whitespace.Log
import Whitespace.Program
import Whitespace.Text.Quoted

/-!
# Decoding

A decoder reads a source byte by byte, in as many pieces as its caller likes. It can be asked for
the program whenever it stands between two instructions. After a failure it stays usable: the byte
that failed is not counted, and the stage is the one the failure left.

Each instruction is logged before it is added to the program, so an operand that is too long to be
written in decimal is a failure too.

## Main definitions

* `Decoder` — the state of decoding.
* `Decoder.accept` — one blank.
* `Decoder.step`, `Decoder.feed` — one byte, and a piece of source.
* `Decoder.finish` — the program, if the source may end here.
* `decode`, `decodeContents` — a whole source, at once and as pieces of a file.
-/

namespace Whitespace

/-- The state of decoding. -/
structure Decoder where
  stage : Stage := .start
  /-- The number of bytes read so far. -/
  offset : Nat := 0
  /-- The byte read last. -/
  lastByte : Option UInt8 := none
  /-- The instructions read so far. -/
  program : Program := {}
  log : Log := #[]

namespace Decoder

/-- What is wrong with a source. -/
inductive Cause where
  /-- No family has a word that starts like this. -/
  | unknownFamily (pending : List Blank)
  /-- No command of the family starts like this. -/
  | unknownCommand (family : Family) (pending : List Blank)
  /-- A number ends before its sign. -/
  | unsigned
  /-- The source ends inside an instruction. -/
  | cutOff (stage : Stage)
  deriving DecidableEq, Repr

/-- The wording of a cause. -/
def Cause.message : Cause → String
  | unknownFamily pending => "Unknown instruction family " ++ Text.quote (Blank.text pending)
  | unknownCommand f pending =>
    "Unknown " ++ f.name ++ " command " ++ Text.quote (Blank.text pending)
  | unsigned => "Number without a sign"
  | cutOff stage => "Unexpected end of input in " ++ stage.name ++ " stage"

/-- Why decoding stopped. -/
inductive Error where
  /-- The source is wrong at byte `offset`, after `index` instructions. -/
  | malformed (cause : Cause) (offset index : Nat)
  /-- An operand is too long to be logged. -/
  | tooLong (e : Decimal.TooLong)
  deriving DecidableEq, Repr

/-- The wording of an error. -/
def Error.message : Error → String
  | malformed cause offset index =>
    cause.message ++ " at byte " ++ offset.repr ++ " (instruction #" ++ index.repr ++ ")"
  | tooLong e => e.message

/-- The result of an operation on a decoder: a value or an error, and the state it leaves. -/
abbrev Result (α : Type) := EStateM.Result Error Decoder α

/-- Fail at the current byte. -/
def fail {α : Type} (d : Decoder) (cause : Cause) : Result α :=
  .error (.malformed cause d.offset d.program.size) d

/-- Forget what was read of the current instruction. -/
def reset (d : Decoder) : Decoder := { d with stage := .start }

/-- Upper-case hexadecimal text. -/
def hexText (n : Nat) : String := String.ofList ((Nat.toDigits 16 n).map Char.toUpper)

/-- Log an instruction, add it to the program and go on with the next one. -/
def emit (d : Decoder) (i : Instruction) : Result Unit :=
  match i.text with
  | .error e => .error (.tooLong e) d
  | .ok text =>
    let line := "#" ++ d.program.size.repr ++ " " ++ text ++ " @ 0x" ++ hexText d.offset
    .ok () { d with
      stage := .start
      program := d.program.append i
      log := d.log.debug line }

/-- The stage that reads the operand of `op`, if it takes one. -/
def operandStage? (op : Opcode) : Option Stage :=
  match op.operandKind with
  | .none => none
  | .number => some (.number op none 0)
  | .label => some (.label op 1)

/-- Go on with one more blank. -/
def accept (d : Decoder) (c : Blank) : Result Unit :=
  match d.stage with
  | .family pending =>
    let word := pending ++ [c]
    match Family.select word with
    | .found f => .ok () { d with stage := .command f [] }
    | .more => .ok () { d with stage := .family word }
    | .unknown => fail { d with stage := .family word } (.unknownFamily word)
  | .command f pending =>
    let word := pending ++ [c]
    match Opcode.select f word with
    | .found op =>
      match operandStage? op with
      | some stage => .ok () { d with stage := stage }
      | none => d.emit ⟨op, none⟩
    | .more => .ok () { d with stage := .command f word }
    | .unknown => fail { d with stage := .command f word } (.unknownCommand f word)
  | .number op none v =>
    match c with
    | .feed => d.fail .unsigned
    | .space => .ok () { d with stage := .number op (some .plus) v }
    | .tab => .ok () { d with stage := .number op (some .minus) v }
  | .number op (some sign) v =>
    match c with
    | .feed => d.emit ⟨op, some (sign.apply v)⟩
    | .space => .ok () { d with stage := .number op (some sign) (2 * v) }
    | .tab => .ok () { d with stage := .number op (some sign) (2 * v + 1) }
  | .label op v =>
    match c with
    | .feed => d.emit ⟨op, some v⟩
    | .space => .ok () { d with stage := .label op (2 * v) }
    | .tab => .ok () { d with stage := .label op (2 * v + 1) }

/-- Read one byte. A byte that fails is not counted. -/
def step (split : Bool) (d : Decoder) (b : UInt8) : Result Unit :=
  match Blank.ofByte? split d.lastByte b with
  | none => .ok () { d with offset := d.offset + 1, lastByte := some b }
  | some c =>
    match d.accept c with
    | .ok () d' => .ok () { d' with offset := d'.offset + 1, lastByte := some b }
    | .error e d' => .error e d'

/-- Read a piece of source, up to the first failure. -/
def feed (split : Bool) (d : Decoder) : List UInt8 → Result Unit
  | [] => .ok () d
  | b :: rest =>
    match d.step split b with
    | .ok () d' => d'.feed split rest
    | .error e d' => .error e d'

/-- Read pieces of source one after the other, up to the first failure. -/
def feedAll (split : Bool) (d : Decoder) : List (List UInt8) → Result Unit
  | [] => .ok () d
  | piece :: rest =>
    match d.feed split piece with
    | .ok () d' => d'.feedAll split rest
    | .error e d' => .error e d'

/-- The program read, unless the source ends inside an instruction. -/
def finish (d : Decoder) : Result Program :=
  if d.stage = .start then
    let line := "Decoded " ++ d.program.size.repr ++ " instructions, " ++
      d.program.labels.size.repr ++ " labels"
    .ok d.program { d with log := d.log.debug line }
  else d.fail (.cutOff d.stage)

/-- Feed pieces of source and ask for the program. -/
def run (split : Bool) (d : Decoder) (pieces : List (List UInt8)) : Result Program :=
  match d.feedAll split pieces with
  | .ok () d' => d'.finish
  | .error e d' => .error e d'

/-- The log that an operation leaves. -/
def Result.log {α : Type} : Result α → Log
  | .ok _ d => d.log
  | .error _ d => d.log

/-- The value or the error of an operation. -/
def Result.toExcept {α : Type} : Result α → Except Error α
  | .ok a _ => .ok a
  | .error e _ => .error e

@[simp] theorem feed_nil (split : Bool) (d : Decoder) : d.feed split [] = .ok () d := rfl

/-- Feeding two pieces joined is feeding the second after the first. -/
theorem feed_append (split : Bool) (d : Decoder) (s t : List UInt8) :
    d.feed split (s ++ t) =
      match d.feed split s with
      | .ok () d' => d'.feed split t
      | .error e d' => .error e d' := by
  induction s generalizing d with
  | nil => rfl
  | cons b s ih =>
    simp only [List.cons_append, feed]
    cases d.step split b with
    | ok a d' => exact ih d'
    | error e d' => rfl

end Decoder

/-- Decode a whole source, keeping the decoder it leaves. -/
def decodeSource (split : Bool) (source : List UInt8) : Decoder.Result Program :=
  Decoder.run split {} [source]

/-- The program that a source holds. -/
def decode (split : Bool) (source : List UInt8) : Except Decoder.Error Program :=
  (decodeSource split source).toExcept

/-- Cut a list into pieces of `n + 1` elements, the last one perhaps shorter. -/
def pieces {α : Type} (n : Nat) (l : List α) : List (List α) :=
  match l with
  | [] => []
  | a :: rest => (a :: rest.take n) :: pieces n (rest.drop n)
termination_by l.length
decreasing_by
  simp only [List.length_drop, List.length_cons]
  omega

/-- The size of the pieces in which a file is read. -/
def pieceSize : Nat := 0x4000

/-- Decode the contents of the file called `path`, piece by piece. -/
def decodeContents (split : Bool) (path : String) (contents : List UInt8) :
    Decoder.Result Program :=
  Decoder.run split { log := #[⟨.debug, "Decoding " ++ path⟩] } (pieces (pieceSize - 1) contents)

end Whitespace
