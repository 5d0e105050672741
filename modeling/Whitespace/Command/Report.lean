import Whitespace.Assembly.Assembler
import Whitespace.Command.Options
import Whitespace.Decoder
import Whitespace.Settings.Load
import Whitespace.Text.Lines
import Whitespace.Text.Utf8

/-!
# What a tool leaves behind

## Main definitions

* `Failure` — what a tool does not handle itself.
* `Report` — exit code, output, messages and files after a tool has run.
* `Report.usage`, `Report.help`, `Report.failed` — the common ways to end.
-/

namespace Whitespace.Command

/-- What a tool does not handle itself. -/
inductive Failure where
  | file (e : FileError)
  | undecodable (e : Utf8.Error)
  | load (e : Settings.LoadError)
  | decode (e : Decoder.Error)
  | listing (e : ListingError)
  | assembly (e : Assembly.Error)
  /-- A path without a last name has no suffix to replace. -/
  | emptyName (path : Path)

/-- The wording of a failure, if it has one. -/
def Failure.message? : Failure → Option String
  | file e => some e.message
  | undecodable e => some e.message
  | load e => e.message?
  | decode e => some e.message
  | listing .missingOperand => some ""
  | listing (.tooLong e) => some e.message
  | assembly e => some e.message
  | emptyName path => some ("PosixPath(" ++ Text.quote path.text ++ ") has an empty name")

/-- What a tool leaves behind that was called in the folder `here`. -/
structure Report (here : List String := []) where
  exitCode : Nat
  stdout : String := ""
  stderr : String := ""
  failure? : Option Failure := none
  directory : Directory here

variable {here : List String}

namespace Report

/-- The command line was wrong. -/
def usage (d : Directory here) (sig : Signature) (e : UsageError) : Report here :=
  { exitCode := 2, stderr := e.message sig, directory := d }

/-- The help page was asked for. -/
def help (d : Directory here) (sig : Signature) : Report here :=
  { exitCode := 0, stdout := sig.helpPage, directory := d }

/-- Something went wrong that the tool does not handle; `stderr` is what it had said before. -/
def failed (d : Directory here) (stderr : String) (f : Failure) : Report here :=
  { exitCode := 1, stderr := stderr, failure? := some f, directory := d }

end Report

/-- The text of a file, with unified line endings. -/
def readText (d : Directory here) (p : Path) : Except Failure (List Char) :=
  match d.read p with
  | .error e => .error (.file e)
  | .ok contents =>
    match Utf8.read contents with
    | .error e => .error (.undecodable e)
    | .ok text => .ok (Text.unifyNewlines text)

/-- Read the command line of a tool and go on with its options and arguments, unless it is wrong or
asks for help. -/
def withCommandLine {α β : Type} (sig : Signature) (d : Directory here) (words : List String)
    (check : Given → Except UsageError α) (other : Report here → β) (use : Given → α → β) : β :=
  match sig.parse words with
  | .error e => other (.usage d sig e)
  | .ok g =>
    if g.has .help then other (.help d sig)
    else
      match checkFlags d g, check g with
      | .error e, _ => other (.usage d sig e)
      | .ok (), .error e => other (.usage d sig e)
      | .ok (), .ok a => use g a

/-- Check the single argument of a tool that reads a source. -/
def sourceArgument (d : Directory here) (g : Given) : Except UsageError Path := do
  match g.arguments with
  | [] => throw (.missingArgument "SOURCE")
  | source :: rest =>
    existing d "'SOURCE'" source
    noMore rest
    return .ofText source

end Whitespace.Command
