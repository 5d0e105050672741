import Whitespace.Command.Assemble
import Whitespace.Command.Disassemble
import Whitespace.Command.Interpret

/-!
# The program

The first word of the command line chooses the tool, which runs, assembles or lists a program.
Everything a tool does is computed from the files it names; this module only reads them, reads the
input, and carries out what was computed.
-/

namespace Whitespace.Command

variable {here : List String}

/-- More steps than any run takes. -/
def endless : Nat := 1000000000000000000

/-- The paths that words of a command line may name: whole words, and values attached to options. -/
def candidates (words : List String) : List String :=
  words.flatMap fun w =>
    let attached := (w.toList.dropWhile (· ≠ '=')).drop 1
    let joined := (w.toList.dropWhile (· ≠ 'c')).drop 1
    [w, String.ofList attached, String.ofList joined].filter (· ≠ "")

/-- The directory with nothing in it but the folder that the process works in. -/
def bare (here : List String) : Directory here :=
  (Directory.makeFolders {} { root := "/", names := here }).toOption.getD {}

/-- Add what stands at a path: a file, or a folder that cannot be read as one. -/
def gather (d : Directory here) (path : String) : IO (Directory here) := do
  let p := Path.ofText path
  try
    let contents ← IO.FS.readBinFile p.text
    return (writeBelow d p contents.toList).1
  catch
    | .noFileOrDirectory .. => return d
    | _ => return (d.makeFolders p).toOption.getD d

/-- Carry out the changes of files. -/
def carryOut (before after : Directory here) : IO Unit :=
  (before.changes after).forM fun (path, contents) => do
    IO.FS.createDirAll (Path.ofText path).parent.text
    IO.FS.writeBinFile path ⟨contents.toArray⟩

/-- Print the messages of a report and carry out its changes. -/
def finish (before : Directory here) (r : Report here) : IO UInt32 := do
  IO.eprint r.stderr
  if let some f := r.failure? then IO.eprintln ((f.message?).getD "malformed settings file")
  carryOut before r.directory
  return r.exitCode.toUInt32

/-- Run a program on what was typed so far. Whenever it waits for more, print what it has written,
read on, and run it again from the start. -/
partial def converse (words : List String) (d : Directory here) (typed : List UInt8)
    (shown : Nat) : IO UInt32 := do
  let stdin ← IO.getStdin
  let stdout ← IO.getStdout
  let print (r : Report here) : IO Unit := do
    stdout.putStr (String.ofList (r.stdout.toList.drop shown))
    stdout.flush
  match interpret words d (Input.ofBytes typed true) endless with
  | none => return 3
  | some r =>
    print r
    if r.exitCode = 3 then
      let more ← stdin.read 8192
      if more.isEmpty then
        match interpret words d (Input.ofBytes typed false) endless with
        | none => return 3
        | some last =>
          stdout.putStr (String.ofList (last.stdout.toList.drop r.stdout.length))
          stdout.flush
          finish d last
      else converse words d (typed ++ more.toList) r.stdout.length
    else finish d r

end Whitespace.Command

open Whitespace.Command in
/-- Choose a tool and run it. -/
def main (words : List String) : IO UInt32 := do
  let words' := words.drop 1
  let here := (Path.ofText (← IO.currentDir).toString).names
  let d ← (candidates words').foldlM gather (bare here)
  match words.head? with
  | some "wspace" => converse words' d [] 0
  | some "wsasm" =>
    let r := assemble words' d
    IO.print r.stdout
    finish d r
  | some "wsdis" =>
    let r := disassemble words' d
    IO.print r.stdout
    finish d r
  | _ =>
    IO.eprintln "Usage: [wspace|wsasm|wsdis] [OPTIONS] ARGUMENTS"
    return 2
