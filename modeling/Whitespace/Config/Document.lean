import Whitespace.Config.Value

/-!
# Building a settings file's table

A settings file is a row of table headers and entries. Each table is opened once, entries that were
given as a whole are closed to additions, and a table that came about through dotted keys cannot be
opened by a header later.

## Main definitions

* `Document` — the table built so far, and which parts of it may still change.
* `Document.openTable`, `Document.openArray`, `Document.put` — the three kinds of statements.
-/

namespace Whitespace.Config

/-- A dotted key. -/
abbrev Key := List String

/-- Change the table behind a key, making the tables on the way that are missing. In an array of
tables the last one is meant, unless `arrays` forbids to look into arrays. -/
def change (arrays : Bool) (f : Entries → Option Entries) : Key → Entries → Option Entries
  | [], t => f t
  | k :: rest, t =>
    match t.valueOf? k with
    | none => (change arrays f rest []).map fun sub => t ++ [(k, .table sub)]
    | some (.table sub) => (change arrays f rest sub).map fun sub => t.replace k (.table sub)
    | some (.array items) =>
      match arrays, items.getLast? with
      | true, some (.table sub) =>
        (change arrays f rest sub).map fun sub =>
          t.replace k (.array (items.dropLast ++ [.table sub]))
      | _, _ => none
    | some _ => none

/-- Add an entry to a table that does not have the key. -/
def addEntry (key : String) (v : Value) (t : Entries) : Option Entries :=
  match t.valueOf? key with
  | none => some (t ++ [(key, v)])
  | some _ => none

/-- Add an empty table to the array behind a key, or start the array. -/
def addTable (key : String) (t : Entries) : Option Entries :=
  match t.valueOf? key with
  | none => some (t ++ [(key, .array [.table []])])
  | some (.array items) => some (t.replace key (.array (items ++ [.table []])))
  | some _ => none

/-- Whether a value holds others. -/
def Value.isNested : Value → Bool
  | .array _ | .table _ => true
  | _ => false

/-- The table built so far. -/
structure Document where
  entries : Entries := []
  /-- The table that entries go to. -/
  header : Key := []
  /-- The tables that no header can open any more. -/
  opened : List Key := []
  /-- The tables that no header can open after the current one. -/
  pending : List Key := []
  /-- The values given as a whole. -/
  closed : List Key := []

namespace Document

/-- Whether a key lies in a value that was given as a whole. -/
def isClosed (d : Document) (key : Key) : Bool := d.closed.any (·.isPrefixOf key)

/-- Leave the current table. -/
def leaveTable (d : Document) : Document :=
  { d with opened := d.pending ++ d.opened, pending := [] }

/-- Open a table. -/
def openTable (d : Document) (key : Key) : Option Document :=
  let d := d.leaveTable
  if d.opened.contains key || d.isClosed key then none
  else
    (change true some key d.entries).map fun entries =>
      { d with entries := entries, header := key, opened := key :: d.opened }

/-- Open the next table of an array of tables. -/
def openArray (d : Document) (key : Key) : Option Document :=
  let d := d.leaveTable
  if d.isClosed key then none
  else
    let keep := d.opened.filter (!key.isPrefixOf ·)
    (change true (addTable (key.getLast?.getD "")) key.dropLast d.entries).map fun entries =>
      { d with
        entries := entries
        header := key
        opened := key :: keep
        closed := d.closed.filter (!key.isPrefixOf ·) }

/-- Give a key of the current table a value. -/
def put (d : Document) (key : Key) (v : Value) : Option Document :=
  let parents := (List.range (key.length - 1)).map fun n => d.header ++ key.take (n + 1)
  let parent := d.header ++ key.dropLast
  if parents.any d.opened.contains || d.isClosed parent then none
  else
    (change true (addEntry (key.getLast?.getD "") v) parent d.entries).map fun entries =>
      { d with
        entries := entries
        pending := parents ++ d.pending
        closed := if v.isNested then (d.header ++ key) :: d.closed else d.closed }

end Document

/-- A table written between braces: its entries and the values given as a whole. -/
structure Inline where
  entries : Entries := []
  closed : List Key := []

/-- Give a key of a table between braces a value. -/
def Inline.put (t : Inline) (key : Key) (v : Value) : Option Inline :=
  if t.closed.any (·.isPrefixOf key) then none
  else
    (change false (addEntry (key.getLast?.getD "") v) key.dropLast t.entries).map fun entries =>
      ⟨entries, if v.isNested then key :: t.closed else t.closed⟩

end Whitespace.Config
