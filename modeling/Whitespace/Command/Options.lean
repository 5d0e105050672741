import Whitespace.Command.Directory
import Whitespace.Text.Literal

/-!
# Command lines

Options may stand anywhere between the arguments, until a double dash ends them. A short option can
be joined with others, and an option that takes a value can have it attached.

## Main definitions

* `Flag`, `Signature` — the options there are, and those of each tool.
* `UsageError` — what can be wrong with a command line.
* `Signature.parse` — options and arguments of a command line.
* `checkFlags`, `existing` — whether their values make sense.
-/

namespace Whitespace.Command

/-- The options of the tools. -/
inductive Flag where
  | verbose
  | trace
  | dump
  | splitCrlf
  | heapDefault
  | config
  | tagged
  | help
  deriving DecidableEq, Repr

namespace Flag

/-- The one-letter form of an option. -/
def short? : Flag → Option Char
  | verbose => some 'v'
  | config => some 'c'
  | _ => none

/-- The long form of an option. -/
def long : Flag → String
  | verbose => "--verbose"
  | trace => "--trace"
  | dump => "--dump"
  | splitCrlf => "--split-crlf"
  | heapDefault => "--heap-default"
  | config => "--config"
  | tagged => "--annotate"
  | help => "--help"

/-- Whether an option takes a value. -/
def takesValue : Flag → Bool
  | heapDefault | config => true
  | _ => false

/-- An option as messages about its value name it. -/
def shown (f : Flag) : String :=
  match f.short? with
  | some c => "'-" ++ String.singleton c ++ "' / '" ++ f.long ++ "'"
  | none => "'" ++ f.long ++ "'"

end Flag

/-- The name of a tool, its options, its arguments as its usage shows them, and its help page. -/
structure Signature where
  program : String
  flags : List Flag
  arguments : String
  options : String

namespace Signature

/-- The line that shows how to call a tool. -/
def usage (sig : Signature) : String :=
  "Usage: " ++ sig.program ++ " [OPTIONS] " ++ sig.arguments ++ "\n"

/-- The help page of a tool. -/
def helpPage (sig : Signature) : String := sig.usage ++ "\nOptions:\n" ++ sig.options

end Signature

/-- What is wrong with a command line. -/
inductive UsageError where
  | noSuchOption (name : String)
  | needsValue (name : String)
  | takesNoValue (name : String)
  | missingArgument (name : String)
  | extraArguments (arguments : List String)
  | noPath (parameter path : String)
  | notInteger (parameter value : String)
  deriving DecidableEq, Repr

namespace UsageError

/-- The wording of an error. -/
def text : UsageError → String
  | noSuchOption name => "No such option " ++ Text.quote name ++ "."
  | needsValue name => "Option " ++ Text.quote name ++ " requires an argument."
  | takesNoValue name => "Option " ++ Text.quote name ++ " does not take a value."
  | missingArgument name => "Missing argument '" ++ name ++ "'."
  | extraArguments arguments =>
    "Got unexpected extra argument" ++ (if arguments.length = 1 then "" else "s") ++ " (" ++
      " ".intercalate arguments ++ ")"
  | noPath parameter path =>
    "Invalid value for " ++ parameter ++ ": Path " ++ Text.quote path ++ " does not exist."
  | notInteger parameter value =>
    "Invalid value for " ++ parameter ++ ": " ++ Text.quote value ++ " is not a valid integer."

/-- Whether the error comes with the usage of the tool. -/
def showsUsage : UsageError → Bool
  | needsValue _ | takesNoValue _ => false
  | _ => true

/-- The message of an error. -/
def message (sig : Signature) (e : UsageError) : String :=
  (if e.showsUsage then
    sig.usage ++ "Try '" ++ sig.program ++ " --help' for help.\n\n"
  else "") ++ "Error: " ++ e.text ++ "\n"

end UsageError

/-- Options with their values, in the order given, and arguments. Options without value have the
empty one. -/
structure Given where
  flags : List (Flag × String) := []
  arguments : List String := []

namespace Given

/-- Whether an option was given. -/
def has (g : Given) (f : Flag) : Bool := g.flags.any (·.1 = f)

/-- The value given last for an option. -/
def value? (g : Given) (f : Flag) : Option String :=
  (g.flags.reverse.find? (·.1 = f)).map (·.2)

/-- Add options in front. -/
def addFlags (flags : List (Flag × String)) (g : Given) : Given :=
  { g with flags := flags ++ g.flags }

end Given

/-- The options in one word, and the option whose value is the next word, with the form in which it
was given. -/
structure Word where
  flags : List (Flag × String) := []
  open? : Option (Flag × String) := none

namespace Signature

/-- Read joined one-letter options. What follows one that takes a value is the value. -/
def letters (sig : Signature) : List Char → Except UsageError Word
  | [] => .ok {}
  | c :: rest =>
    match sig.flags.find? (·.short? = some c) with
    | none => .error (.noSuchOption ("-" ++ String.singleton c))
    | some f =>
      if f.takesValue then
        if rest = [] then .ok { open? := some (f, "-" ++ String.singleton c) }
        else .ok { flags := [(f, String.ofList rest)] }
      else (sig.letters rest).map fun w => { w with flags := (f, "") :: w.flags }

/-- Read a word that starts with a dash. -/
def word (sig : Signature) (s : List Char) : Except UsageError Word :=
  let name := String.ofList (s.takeWhile (· ≠ '='))
  let attached? :=
    match s.dropWhile (· ≠ '=') with
    | [] => none
    | _ :: value => some (String.ofList value)
  match sig.flags.find? (·.long = name) with
  | some f =>
    match f.takesValue, attached? with
    | true, some value => .ok { flags := [(f, value)] }
    | true, none => .ok { open? := some (f, name) }
    | false, none => .ok { flags := [(f, "")] }
    | false, some _ => .error (.takesNoValue name)
  | none =>
    match s with
    | '-' :: '-' :: _ => .error (.noSuchOption name)
    | _ => sig.letters (s.drop 1)

/-- Split a command line into options and arguments. -/
def parse (sig : Signature) : List String → Except UsageError Given
  | [] => .ok {}
  | w :: rest =>
    if w = "--" then .ok { arguments := rest }
    else if w.length > 1 && w.toList.head? = some '-' then
      match sig.word w.toList with
      | .error e => .error e
      | .ok word =>
        match word.open?, rest with
        | none, rest => (sig.parse rest).map (·.addFlags word.flags)
        | some (_, name), [] => .error (.needsValue name)
        | some (f, _), value :: rest =>
          (sig.parse rest).map (·.addFlags (word.flags ++ [(f, value)]))
    else (sig.parse rest).map fun g => { g with arguments := w :: g.arguments }

end Signature

section Checks

variable {here : List String}

/-- Check that a path leads somewhere. -/
def existing (d : Directory here) (parameter path : String) : Except UsageError Unit :=
  if d.leadsSomewhere path then .ok () else .error (.noPath parameter path)

/-- Check the value given last for an option. -/
def checkFlag (d : Directory here) (g : Given) (f : Flag) : Except UsageError Unit :=
  match f, g.value? f with
  | .heapDefault, some value =>
    if (Text.readDecimal? value.toList).isSome then .ok () else .error (.notInteger f.shown value)
  | .config, some path => existing d f.shown path
  | _, _ => .ok ()

/-- Check the options in the order given. -/
def checkFlags (d : Directory here) (g : Given) : Except UsageError Unit :=
  g.flags.forM fun (f, _) => checkFlag d g f

end Checks

/-- Check that no arguments are left over. -/
def noMore (arguments : List String) : Except UsageError Unit :=
  if arguments = [] then .ok () else .error (.extraArguments arguments)

end Whitespace.Command
