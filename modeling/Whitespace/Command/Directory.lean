import Whitespace.Command.Path
import Whitespace.Table
import Whitespace.Text.Quoted

/-!
# Files and folders

A process sees files and folders through the folder that it works in. That folder stays the same as
long as the process runs, whatever becomes of the files.

## Main definitions

* `Directory` — files and folders as a process sees them.
* `FileError` — why an operation on them failed.
* `Directory.read`, `Directory.write`, `Directory.growFolders`, `Directory.makeFolders` — the
  operations.
* `Directory.changes` — the files that differ between two directories.
-/

namespace Whitespace.Command

/-- What a name stands for. -/
inductive Entry where
  | file (contents : List UInt8)
  | folder
  deriving DecidableEq, Repr

/-- The files and folders, each under its row of names from the root on, for a process that works in
the folder `here`. -/
structure Directory (here : List String := []) where
  entries : Table (List String) Entry := {}
  deriving DecidableEq, Repr

/-- Why an operation on a path failed. -/
inductive FileProblem where
  | missing
  | occupied
  | notFolder
  | isFolder
  deriving DecidableEq, Repr

/-- The wording of a problem. -/
def FileProblem.message : FileProblem → String
  | missing => "[Errno 2] No such file or directory"
  | occupied => "[Errno 17] File exists"
  | notFolder => "[Errno 20] Not a directory"
  | isFolder => "[Errno 21] Is a directory"

/-- A problem with a path. -/
structure FileError where
  problem : FileProblem
  path : Path
  deriving DecidableEq, Repr

/-- The wording of an error. -/
def FileError.message (e : FileError) : String :=
  e.problem.message ++ ": " ++ Text.quote e.path.text

namespace Directory

variable {here : List String}

/-- What stands at a place; the root is a folder. -/
def entry? (d : Directory here) (place : List String) : Option Entry :=
  if place = [] then some .folder else d.entries.get? place

/-- Follow names from a place on. Every name but the last must lead to a folder; two dots lead back
to where the folder lies, and from the root nowhere else. -/
def follow (d : Directory here) (place : List String) :
    List String → Except FileProblem (List String)
  | [] => .ok place
  | name :: rest =>
    match d.entry? place with
    | none => .error .missing
    | some (.file _) => .error .notFolder
    | some .folder =>
      if name = "." then d.follow place rest
      else if name = ".." then d.follow place.dropLast rest
      else d.follow (place ++ [name]) rest

/-- The place that a path leads to, whether or not something is there. -/
def locate (d : Directory here) (p : Path) : Except FileError (List String) :=
  (d.follow (p.start here) p.names).mapError (⟨·, p⟩)

/-- Whether a path as it was typed leads to something. A slash at its end asks for a folder. -/
def leadsSomewhere (d : Directory here) (typed : String) : Bool :=
  let names := (typed.toList.splitOn '/').map fun n => if n = [] then "." else String.ofList n
  match typed.isEmpty, d.follow ((Path.ofText typed).start here) names with
  | false, .ok place => (d.entry? place).isSome
  | _, _ => false

/-- The contents of a file. -/
def read (d : Directory here) (p : Path) : Except FileError (List UInt8) := do
  let place ← d.locate p
  match d.entry? place with
  | none => throw ⟨.missing, p⟩
  | some .folder => throw ⟨.isFolder, p⟩
  | some (.file contents) => return contents

/-- Put contents into a file, making it if it is not there. -/
def write (d : Directory here) (p : Path) (contents : List UInt8) :
    Except FileError (Directory here) := do
  let place ← d.locate p
  match d.entry? place with
  | some .folder => throw ⟨.isFolder, p⟩
  | _ => return ⟨d.entries.insert place (.file contents)⟩

/-- Make a folder where nothing is. -/
def makeFolder (d : Directory here) (p : Path) : Except FileError (Directory here) := do
  let place ← d.locate p
  match d.entry? place with
  | some _ => throw ⟨.occupied, p⟩
  | none => return ⟨d.entries.insert place .folder⟩

/-- Whether a path leads to a folder. -/
def isFolder (d : Directory here) (p : Path) : Bool :=
  match d.locate p with
  | .ok place => d.entry? place = some .folder
  | .error _ => false

/-- Make a folder unless it is there, and first the folders it lies in that are missing. Those that
were made stay when a later one cannot be made. -/
def growFolders (d : Directory here) (p : Path) : Directory here × Except FileError Unit :=
  match d.makeFolder p with
  | .ok d => (d, .ok ())
  | .error e =>
    if _h : e.problem = .missing ∧ p.names ≠ [] then
      match d.growFolders p.parent with
      | (d, .error e) => (d, .error e)
      | (d, .ok ()) =>
        match d.makeFolder p with
        | .ok d => (d, .ok ())
        | .error e => if d.isFolder p then (d, .ok ()) else (d, .error e)
    else if d.isFolder p then (d, .ok ())
    else (d, .error e)
termination_by p.names.length
decreasing_by
  have := List.length_pos_iff.2 _h.2
  simp [Path.parent]
  omega

/-- Make a folder unless it is there, and the folders it lies in that are missing. -/
def makeFolders (d : Directory here) (p : Path) : Except FileError (Directory here) :=
  match d.growFolders p with
  | (d, .ok ()) => .ok d
  | (_, .error e) => .error e

/-- The text of a place, from the working directory on if it lies below. -/
def placeText (here place : List String) : String :=
  if here <+: place then "/".intercalate (place.drop here.length)
  else "/" ++ "/".intercalate place

/-- The files that are new or have other contents than before, by path. -/
def changes (before after : Directory here) : List (String × List UInt8) :=
  let files := after.entries.entries.filterMap fun (place, e) =>
    match e with
    | .folder => none
    | .file contents =>
      if before.entries.get? place = some e then none else some (placeText here place, contents)
  files.mergeSort fun a b => a.1 ≤ b.1

end Directory

end Whitespace.Command
