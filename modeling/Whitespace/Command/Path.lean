/-!
# Paths

A path is a row of names, which starts at the root of all files or in the folder that a process
works in. Names that are empty or a single dot are left out of it.

## Main definitions

* `Path` — a path.
* `Path.start` — where it starts.
* `Path.name`, `Path.parent`, `Path.withSuffix?` — its last name and what can be done to it.
-/

namespace Whitespace.Command

/-- A path, which starts at the root if it has one. -/
structure Path where
  root : String := ""
  names : List String
  deriving DecidableEq, Repr

namespace Path

/-- The root that a text starts with. Two slashes are kept, and more than two are one. -/
def rootOf (s : List Char) : String :=
  match (s.takeWhile (· = '/')).length with
  | 0 => ""
  | 2 => "//"
  | _ => "/"

/-- The path that a text denotes. -/
def ofText (s : String) : Path where
  root := rootOf s.toList
  names := (s.toList.splitOn '/').map String.ofList |>.filter fun n => n ≠ "" && n ≠ "."

/-- The text of a path; the working directory itself is a dot. -/
def text (p : Path) : String :=
  if p.root = "" && p.names = [] then "." else p.root ++ "/".intercalate p.names

/-- The place where a path starts, for a process that works in the folder `here`. -/
def start (p : Path) (here : List String) : List String := if p.root = "" then here else []

/-- The last name, empty for the working directory itself and for the root. -/
def name (p : Path) : String := p.names.getLast?.getD ""

/-- The path without its last name. -/
def parent (p : Path) : Path := { p with names := p.names.dropLast }

/-- A name without its suffix. The suffix starts at the last dot, which is neither the first nor
the last character. -/
def stem (name : List Char) : List Char :=
  let tail := (name.reverse.takeWhile (· ≠ '.')).reverse
  let front := name.take (name.length - tail.length - 1)
  if tail = [] || tail.length = name.length || front = [] then name else front

/-- The path with the suffix of its last name replaced, unless there is no last name. -/
def withSuffix? (p : Path) (suffix : String) : Option Path :=
  if p.name = "" then none
  else some
    { p with names := p.names.dropLast ++ [String.ofList (stem p.name.toList) ++ suffix] }

end Path

end Whitespace.Command
