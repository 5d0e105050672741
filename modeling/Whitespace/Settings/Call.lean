import Whitespace.Command.Report

/-!
# Requests to change settings

Settings change by requests, each with values for some of them or with the name of a file. Values
are given one after the other. A file is read and checked first.

## Main definitions

* `Settings.Call`, `Settings.Call.run` — a request, and what it does step by step.
* `Settings.session` — requests one after the other.
-/

namespace Whitespace.Settings

open Command (Directory Failure Path)

/-- A request to change settings: values for some of them, or a file in a directory. -/
inductive Call where
  | update (patch : Patch)
  | load {here : List String} (d : Directory here) (path : Path)

/-- Give settings their new values, one after the other. -/
def assign (patch : Patch) : EStateM Failure Settings Unit := do
  if let some b := patch.verbose then modify fun s => { s with verbose := b }
  if let some b := patch.trace then modify fun s => { s with trace := b }
  if let some b := patch.dump then modify fun s => { s with dump := b }
  if let some b := patch.splitCrlf then modify fun s => { s with splitCrlf := b }
  if let some n := patch.heapDefault then modify fun s => { s with heapDefault := some n }

/-- Take up a request, step by step. -/
def Call.run : Call → EStateM Failure Settings Unit
  | update patch => assign patch
  | load d path => do
    let text ← ofExcept (Command.readText d path)
    let (patch, _) ← ofExcept ((Settings.load path.text text).mapError Failure.load)
    assign patch

/-- What becomes of a request and of the settings. -/
def call (s : Settings) (c : Call) : EStateM.Result Failure Settings Unit := c.run s

/-- The settings that a request leaves behind, refused or not. -/
def after (s : Settings) (c : Call) : Settings :=
  match s.call c with
  | .ok _ s' | .error _ s' => s'

/-- The settings after some requests. -/
def session (s : Settings) (calls : List Call) : Settings := calls.foldl after s

end Whitespace.Settings
