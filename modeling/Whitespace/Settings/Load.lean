import Whitespace.Config.Parser
import Whitespace.Log
import Whitespace.Settings

/-!
# Settings from a file

The table `interpreter` of a settings file gives new values for settings. A file with an unknown
setting, or with a value of the wrong kind, changes nothing.

## Main definitions

* `Settings.LoadError` — why a file is refused.
* `Settings.load` — the changes that a file asks for, and the log record of them.
-/

namespace Whitespace.Settings

open Config

/-- Why two values cannot be put in order. -/
inductive Unordered where
  /-- They are of different kinds. -/
  | kinds (left right : String)
  /-- One has a time of day and the other is a whole day. -/
  | days
  /-- Only one of them has an offset from universal time. -/
  | offsets
  deriving DecidableEq, Repr

/-- The wording of the reason. -/
def Unordered.message : Unordered → String
  | kinds left right =>
    "'<' not supported between instances of '" ++ left ++ "' and '" ++ right ++ "'"
  | days => "can't compare datetime.datetime to datetime.date"
  | offsets => "can't compare offset-naive and offset-aware datetimes"

/-- Why a settings file is refused. -/
inductive LoadError where
  /-- It cannot be read. -/
  | config (e : Config.Error)
  /-- It has settings that are not known; their texts are sorted. -/
  | unknown (shown : List String) (path : String)
  /-- A setting has a value of the wrong kind. -/
  | wrongKind (key shown path kind : String)
  /-- The section has a kind that holds nothing. -/
  | notIterable (kind : String)
  /-- The section is an array with an item that cannot be a key. -/
  | unhashable (kind : String)
  /-- The section is an array with items that have no common order. -/
  | unordered (reason : Unordered)
  /-- The section is no table. -/
  | noItems (kind : String)
  /-- A number is too long to be shown. -/
  | tooLong (e : Decimal.TooLong)
  deriving DecidableEq, Repr

/-- The wording of an error; a text that is no settings file has none. -/
def LoadError.message? : LoadError → Option String
  | config .malformed => none
  | config (.tooLong e) => some e.message
  | unknown shown path =>
    some ("Unknown interpreter settings " ++ Text.bracketed shown ++ " in " ++ path)
  | wrongKind key shown path kind =>
    some ("Setting " ++ key ++ " = " ++ shown ++ " in " ++ path ++ " is not " ++ kind)
  | notIterable kind => some ("'" ++ kind ++ "' object is not iterable")
  | unhashable kind => some ("unhashable type: '" ++ kind ++ "'")
  | unordered reason => some reason.message
  | noItems kind => some ("'" ++ kind ++ "' object has no attribute 'items'")
  | tooLong e => some e.message

/-- The known settings and the kind of their values. -/
def kinds : List (String × String) :=
  [("verbose", "bool"), ("trace", "bool"), ("dump", "bool"), ("split_crlf", "bool"),
    ("heap_default", "int")]

/-- Whether a setting is known. -/
def isKnown (key : String) : Bool := kinds.any (·.1 = key)

/-- Sorted without repetitions. -/
def sortedKeys (keys : List String) : List String := keys.eraseDups.mergeSort (· ≤ ·)

/-- Give one setting its value. -/
def Patch.set (p : Patch) (key : String) (v : Value) : Patch :=
  match key, v with
  | "verbose", .bool b => { p with verbose := some b }
  | "trace", .bool b => { p with trace := some b }
  | "dump", .bool b => { p with dump := some b }
  | "split_crlf", .bool b => { p with splitCrlf := some b }
  | "heap_default", .integer n => { p with heapDefault := some n }
  | _, _ => p

/-- Check that every value has the kind its setting wants. -/
def checkKinds (path : String) : Entries → Except LoadError Unit
  | [] => .ok ()
  | (key, v) :: rest =>
    let wanted := ((kinds.find? (·.1 = key)).map (·.2)).getD ""
    if v.kind = wanted then checkKinds path rest
    else
      match v.text with
      | .ok shown => .error (.wrongKind key shown path wanted)
      | .error e => .error (.tooLong e)

/-- The changes that a table asks for. -/
def loadTable (path : String) (entries : Entries) : Except LoadError (Patch × Record) := do
  let unknown := (entries.map (·.1)).filter (!isKnown ·)
  if unknown ≠ [] then throw (.unknown ((sortedKeys unknown).map Text.quote) path)
  checkKinds path entries
  match (Value.table entries).text with
  | .ok shown =>
    let patch := entries.foldl (fun p e => p.set e.1 e.2) {}
    return (patch, ⟨.debug, "Settings from " ++ path ++ ": " ++ shown⟩)
  | .error e => throw (.tooLong e)

/-! ## Sections that are no tables -/

/-- Values that can be put in order with each other. -/
inductive Family where
  | text
  | number
  | day
  | timeOfDay
  | unzoned
  | zoned
  deriving DecidableEq, Repr

/-- The family of a value; those that hold others have none. -/
def family? : Value → Option Family
  | .bool _ | .integer _ | .float _ => some .number
  | .string _ => some .text
  | .moment (.date _) => some .day
  | .moment (.time _) => some .timeOfDay
  | .moment (.dateTime _ _ none) => some .unzoned
  | .moment (.dateTime _ _ (some _)) => some .zoned
  | .array _ | .table _ => none

/-- Why there is no order between two values of different families. -/
def unordered (v w : Value) : Unordered :=
  match family? v, family? w with
  | some .unzoned, some .zoned | some .zoned, some .unzoned => .offsets
  | some .day, some .unzoned | some .day, some .zoned => .days
  | some .unzoned, some .day | some .zoned, some .day => .days
  | _, _ => .kinds v.kind w.kind

/-- The place of a value in its family. A number is first on one side of all others or not, then it
has its value in units of the least positive fraction. -/
def place : Value → Int × Int
  | .bool b => (0, if b then Nat.pow 2 1074 else 0)
  | .integer v => (0, v * Nat.pow 2 1074)
  | .float (.infinite negative) => (if negative then -1 else 1, 0)
  | .float (.finite negative m e) =>
    (0, (if negative then -1 else 1) * (m * Nat.pow 2 (e + 1074).toNat : Nat))
  | .moment m => (0, m.place)
  | _ => (0, 0)

/-- Whether a value is the fraction that has no place among the numbers and equals none, not even
itself. -/
def isNan : Value → Bool
  | .float .nan => true
  | _ => false

/-- Numbers, dates or times in increasing order, the first of those that are equal, and behind them
those that have no place in the order. -/
def sortedItems (vs : List Value) : List Value :=
  let placed := (vs.filter (!isNan ·)).foldl (fun seen v =>
    if seen.any fun w => place w = place v then seen else seen ++ [v]) []
  let sorted := placed.mergeSort fun v w =>
    let (s, a) := place v
    let (t, b) := place w
    s < t || (s = t && a ≤ b)
  sorted ++ vs.filter isNan

/-- The text of a value that is a string. -/
def string? : Value → Option String
  | .string s => some s
  | _ => none

/-- The items that are no settings in the order in which they are met: numbers come first, strings
last. -/
def unknownItems (items : List Value) : List Value :=
  let unknown := items.filter fun v => !(string? v).any isKnown
  sortedItems (unknown.filter (family? · = some .number)) ++
    unknown.filter (fun v => family? v ≠ some .number && family? v ≠ some .text) ++
    unknown.filter (family? · = some .text)

/-- Refuse a section that is an array: an item that cannot be a key is the first reason, then the
items that are no settings, and last that it is no table. The items that are no settings are shown
in order. For this each is compared with the one met before it, which has to be of its family. -/
def arrayError (path : String) (items : List Value) : LoadError :=
  match items.find? Value.isNested with
  | some v => .unhashable v.kind
  | none =>
    let unknown := unknownItems items
    match unknown, (unknown.zip unknown.tail).find? fun (v, w) => family? v ≠ family? w with
    | [], _ => .noItems "list"
    | _ :: _, some (v, w) => .unordered (unordered w v)
    | v :: _, none =>
      if family? v = some .text then
        .unknown ((sortedKeys (unknown.filterMap string?)).map Text.quote) path
      else
        match (sortedItems unknown).mapM Value.text with
        | .ok shown => .unknown shown path
        | .error e => .tooLong e

/-- Refuse a section that is no table. -/
def sectionError (path : String) : Value → LoadError
  | .string s =>
    if s.isEmpty then .noItems "str"
    else .unknown ((sortedKeys (s.toList.map String.singleton)).map Text.quote) path
  | .array items => arrayError path items
  | v => .notIterable v.kind

/-- The changes that the settings file called `path` asks for, and the log record of them. -/
def load (path : String) (text : List Char) : Except LoadError (Patch × Record) :=
  match Config.parse text with
  | .error e => .error (.config e)
  | .ok entries =>
    match entries.valueOf? "interpreter" with
    | none => loadTable path []
    | some (.table section_) => loadTable path section_
    | some v => .error (sectionError path v)

end Whitespace.Settings
