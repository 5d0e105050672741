import Whitespace.Config.Binary64
import Whitespace.Config.Moment
import Whitespace.Decimal
import Whitespace.Text.Quoted

/-!
# Values of settings files

## Main definitions

* `Value` — what a key of a settings file can stand for.
* `Value.text` — a value as messages show it.
-/

namespace Whitespace.Config

/-- What a key of a settings file can stand for. Tables keep the order of their keys. -/
inductive Value where
  | bool (b : Bool)
  | integer (v : Int)
  | float (x : Binary64)
  | string (s : String)
  | moment (m : Moment)
  | array (items : List Value)
  | table (entries : List (String × Value))

/-- The entries of a table. -/
abbrev Entries := List (String × Value)

namespace Value

/-- The name of the kind of a value. -/
def kind : Value → String
  | bool _ => "bool"
  | integer _ => "int"
  | float _ => "float"
  | string _ => "str"
  | moment m => m.kind
  | array _ => "list"
  | table _ => "dict"

/-- The texts of items with commas between them. -/
def commaText : List String → String := ", ".intercalate

mutual

/-- A value as messages show it. -/
def text : Value → Except Decimal.TooLong String
  | bool b => .ok (if b then "True" else "False")
  | integer v => Decimal.write v
  | float x => .ok x.text
  | string s => .ok (Text.quote s)
  | moment m => .ok m.text
  | array items => (itemTexts items).map Text.bracketed
  | table entries => (entryTexts entries).map fun ts => "\x7b" ++ commaText ts ++ "\x7d"

/-- The texts of the items of an array. -/
def itemTexts : List Value → Except Decimal.TooLong (List String)
  | [] => .ok []
  | v :: rest => do
    let first ← text v
    let others ← itemTexts rest
    return first :: others

/-- The texts of the entries of a table. -/
def entryTexts : List (String × Value) → Except Decimal.TooLong (List String)
  | [] => .ok []
  | (key, v) :: rest => do
    let first ← text v
    let others ← entryTexts rest
    return (Text.quote key ++ ": " ++ first) :: others

end

end Value

/-- The value of a key in a table. -/
def Entries.valueOf? (entries : Entries) (key : String) : Option Value :=
  (List.find? (fun e => e.1 = key) entries).map (·.2)

/-- Replace the value of a key that is present. -/
def Entries.replace (entries : Entries) (key : String) (v : Value) : Entries :=
  entries.map fun e => if e.1 = key then (key, v) else e

end Whitespace.Config
