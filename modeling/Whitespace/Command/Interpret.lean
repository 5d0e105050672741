import Whitespace.Command.Report
import Whitespace.Machine.Run
import Whitespace.Settings.Call

/-!
# Running a program

## Main definitions

* `interpreter` — the command line of the tool.
* `interpret` — decode a source and run it.
-/

namespace Whitespace.Command

variable {here : List String}

/-- The command line of the tool that runs programs. -/
def interpreter : Signature where
  program := "wspace"
  flags := [.verbose, .trace, .dump, .splitCrlf, .heapDefault, .config, .help]
  arguments := "SOURCE"
  options :=
    "  -v, --verbose           Sets logging level to debug\n" ++
    "  --trace                 Log machine state after every instruction\n" ++
    "  --dump                  Print the decoded program before running\n" ++
    "  --split-crlf            Treat CR and LF of CRLF as two terminators\n" ++
    "  --heap-default INTEGER  Value of never-written heap cells\n" ++
    "  -c, --config PATH       TOML settings file\n" ++
    "  --help                  Show this message and exit.\n"

/-- The settings that options ask for. An option left off keeps what is configured. -/
def flagPatch (g : Given) : Settings.Patch where
  verbose := if g.has .verbose then some true else none
  trace := if g.has .trace then some true else none
  dump := if g.has .dump then some true else none
  splitCrlf := if g.has .splitCrlf then some true else none
  heapDefault := (g.value? .heapDefault).bind fun v => Text.readDecimal? v.toList

/-- The changes of settings that a file asks for, and the log record of them. -/
def loadFile (d : Directory here) (path : Path) : Except Failure (Settings.Patch × Record) :=
  match readText d path with
  | .error f => .error f
  | .ok text => (Settings.load path.text text).mapError .load

/-- The settings that the file named on the command line asks for, if one is named. -/
def configured (d : Directory here) (g : Given) : Except Failure Settings :=
  match g.value? .config with
  | none => .ok {}
  | some typed =>
    match ({} : Settings).call (.load d (.ofText typed)) with
    | .ok () s => .ok s
    | .error f _ => .error f

/-- The least weight of the records that are shown. A settings file is logged before the weight is
chosen, which leaves the weight at warnings. -/
def threshold (g : Given) (s : Settings) : Level :=
  if g.has .config then .warning
  else if s.verbose || s.trace then .debug
  else .info

/-- How the tool ends when something else than the program is at fault. -/
def generalError (message : String) : Record :=
  ⟨.info, "Execution halted on general error " ++ message⟩

/-- The exit code and the last log record of a run. -/
def verdict : Run.Ending → Nat × Record
  | .ranOff | .halted => (0, ⟨.info, "Execution finished"⟩)
  | .stopped (.fault f place) =>
    (2, ⟨.error, "Execution halted on " ++ ((Stop.fault f place).message?.getD "")⟩)
  | .stopped .interrupted => (3, ⟨.info, "Execution halted by the user"⟩)
  | .stopped reason => (100, generalError (reason.message?.getD ""))

/-- A decoded program as it is shown before it runs. -/
def dumpText (p : Program) : Except ListingError String :=
  p.listing.map fun t => t ++ "\n" ++ p.labelListing ++ "\n"

/-- Run a decoded program; `before` is what was said so far. -/
def execute (d : Directory here) (level : Level) (before : String) (s : Settings) (p : Program)
    (input : Input) (fuel : Nat) : Option (Report here) :=
  let m : Machine := { program := p, settings := s, ending := input.ending }
  (m.run input.text fuel).map fun r =>
    let (code, last) := verdict r.ending
    { exitCode := code
      stdout := r.state.output
      stderr := before ++ (r.log.add last).lines level
      directory := d }

/-- Decode a source and run it under given settings. -/
def interpretSource (d : Directory here) (level : Level) (s : Settings) (path : Path)
    (input : Input) (fuel : Nat) : Option (Report here) :=
  let opening : Log := #[⟨.info, "WSPACE"⟩]
  let ends (log : Log) (code : Nat) : Option (Report here) :=
    some { exitCode := code, stderr := log.lines level, directory := d }
  match d.read path with
  | .error e =>
    ends ((opening.debug ("Decoding " ++ path.text)).add (generalError e.message)) 100
  | .ok contents =>
    let r := decodeContents s.splitCrlf path.text contents
    let log : Log := opening ++ r.log
    match r.toExcept with
    | .error (.tooLong e) => ends (log.add (generalError e.message)) 100
    | .error e => ends (log.add ⟨.error, "Decode error: " ++ e.message⟩) 1
    | .ok p =>
      if s.dump then
        match dumpText p with
        | .ok text => execute d level (log.lines level ++ text) s p input fuel
        | .error (.tooLong e) => ends (log.add (generalError e.message)) 100
        | .error .missingOperand => ends (log.add (generalError "")) 100
      else execute d level (log.lines level) s p input fuel

/-- The tool that runs programs, for at most `fuel` steps; `none` when they do not suffice. -/
def interpret (words : List String) (d : Directory here) (input : Input) (fuel : Nat) :
    Option (Report here) :=
  withCommandLine interpreter d words (sourceArgument d) some fun g path =>
    match configured d g with
    | .error f => some (.failed d "" f)
    | .ok s =>
      let s := s.update (flagPatch g)
      interpretSource d (threshold g s) s path input fuel

end Whitespace.Command
