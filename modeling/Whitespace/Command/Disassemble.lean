import Whitespace.Command.Report

/-!
# Listing a program

## Main definitions

* `disassembler` — the command line of the tool.
* `disassemble` — decode a source and show it in assembly text.
-/

namespace Whitespace.Command

variable {here : List String}

/-- The command line of the tool that lists programs. -/
def disassembler : Signature where
  program := "wsdis"
  flags := [.verbose, .splitCrlf, .help]
  arguments := "SOURCE"
  options :=
    "  -v, --verbose  Sets logging level to debug\n" ++
    "  --split-crlf   Treat CR and LF of CRLF as two terminators\n" ++
    "  --help         Show this message and exit.\n"

/-- Decode a source and show it in assembly text. -/
def listSource (d : Directory here) (level : Level) (split : Bool) (path : Path) : Report here :=
  let opening : Log := #[⟨.info, "WSPACE DIS"⟩]
  match d.read path with
  | .error e =>
    let log := opening.debug ("Decoding " ++ path.text)
    .failed d (log.lines level) (.file e)
  | .ok contents =>
    let r := decodeContents split path.text contents
    let log : Log := opening ++ r.log
    match r.toExcept with
    | .error (.tooLong e) => .failed d (log.lines level) (.decode (.tooLong e))
    | .error e =>
      let log := log.add ⟨.error, "Decode error: " ++ e.message⟩
      { exitCode := 1, stderr := log.lines level, directory := d }
    | .ok p =>
      match p.listing with
      | .error e => .failed d (log.lines level) (.listing e)
      | .ok text =>
        { exitCode := 0
          stdout := text ++ "\n" ++ p.labelListing ++ "\n"
          stderr := log.lines level
          directory := d }

/-- The tool that lists programs. -/
def disassemble (words : List String) (d : Directory here) : Report here :=
  withCommandLine disassembler d words (sourceArgument d) id fun g path =>
    listSource d (if g.has .verbose then .debug else .info) (g.has .splitCrlf) path

end Whitespace.Command
