import Whitespace.Command.Report

/-!
# Assembling a file

## Main definitions

* `assembler` — the command line of the tool.
* `assembleInto` — assemble one file into another.
* `assemble` — the tool.
-/

namespace Whitespace.Command

variable {here : List String}

/-- The command line of the tool that assembles. -/
def assembler : Signature where
  program := "wsasm"
  flags := [.verbose, .tagged, .help]
  arguments := "INPUT [OUTPUT]"
  options :=
    "  -v, --verbose  Sets logging level to debug\n" ++
    "  --annotate     Prefix every instruction with its mnemonic\n" ++
    "  --help         Show this message and exit.\n"

/-- Check the arguments: the file to read and, perhaps, the file to write. -/
def fileArguments (g : Given) : Except UsageError (Path × Option Path) := do
  match g.arguments with
  | [] => throw (.missingArgument "INPUT")
  | [input] => return (.ofText input, none)
  | input :: output :: rest =>
    noMore rest
    return (.ofText input, some (.ofText output))

/-- Put contents into a file, making the folders it lies in. -/
def writeBelow (d : Directory here) (p : Path) (contents : List UInt8) :
    Directory here × Except FileError Unit :=
  match d.growFolders p.parent with
  | (d', .error e) => (d', .error e)
  | (d', .ok ()) =>
    match d'.write p contents with
    | .error e => (d', .error e)
    | .ok d'' => (d'', .ok ())

/-- Assemble the file `input` into the file `output`; `log` holds the records made so far. -/
def assembleInto (d : Directory here) (level : Level) (tagged : Bool) (log : Log)
    (input output : Path) : Report here :=
  let log := log.debug ("Assembling file " ++ input.text)
  match readText d input with
  | .error f => .failed d (log.lines level) f
  | .ok text =>
    match Assembly.assembleLogged tagged text with
    | .error e more => .failed d ((log ++ more).lines level) (.assembly e)
    | .ok source more =>
      let stderr := (log ++ more).lines level
      match writeBelow d output source.toUTF8.toList with
      | (d', .error e) => .failed d' stderr (.file e)
      | (d', .ok ()) => { exitCode := 0, stderr := stderr, directory := d' }

/-- The tool that assembles. Without an output it writes next to the input, under the suffix
`.ws`. -/
def assemble (words : List String) (d : Directory here) : Report here :=
  withCommandLine assembler d words fileArguments id fun g paths =>
    let level : Level := if g.has .verbose then .debug else .info
    let opening : Log := #[⟨.info, "WSPACE ASM"⟩]
    match paths.2 <|> paths.1.withSuffix? ".ws" with
    | none => .failed d (opening.lines level) (.emptyName paths.1)
    | some output =>
      let line := "Assembling " ++ paths.1.name ++ " to " ++ output.name
      assembleInto d level (g.has .tagged) (opening.add ⟨.info, line⟩) paths.1 output

end Whitespace.Command
