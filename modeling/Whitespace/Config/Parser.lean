import Whitespace.Config.Document
import Whitespace.Text.Literal

/-!
# Reading settings files

Settings files are TOML: comments, table headers, dotted and quoted keys, booleans, integers,
fractions, strings on one line or on several, dates and times, arrays and tables between braces.

Readers take the text and give back what follows what they have read. Those that call each other
take a number of calls that the length of the text bounds.

## Main definitions

* `value` — one value.
* `keyPath` — one dotted key.
* `parse` — a whole file.
-/

namespace Whitespace.Config

/-- Why a settings file cannot be read. -/
inductive Error where
  /-- The text is no settings file. -/
  | malformed
  /-- A decimal integer has too many digits. -/
  | tooLong (e : Decimal.TooLong)
  deriving DecidableEq, Repr

/-- A result that is there, or a malformed text. -/
def orMalformed {α : Type} : Option α → Except Error α
  | some a => .ok a
  | none => .error .malformed

/-- Whether a character may stand between tokens of a line. -/
def isLineGap (c : Char) : Bool := c = ' ' || c = '\t'

/-- Control characters other than the tab, which neither comments nor strings may hold. -/
def isControl (c : Char) : Bool := (c.toNat < 32 && c ≠ '\t') || c.toNat = 127

/-- Move over spaces and tabs. -/
def skipLineGap (s : List Char) : List Char := s.dropWhile isLineGap

/-- Move over a comment, if there is one, up to the end of the line. -/
def skipComment (s : List Char) : Except Error (List Char) :=
  match s with
  | '#' :: rest =>
    if (rest.takeWhile (· ≠ '\n')).any isControl then .error .malformed
    else .ok (rest.dropWhile (· ≠ '\n'))
  | _ => .ok s

/-- Move over gaps, line ends and comments. -/
def skipLines (inComment : Bool) : List Char → Except Error (List Char)
  | [] => .ok []
  | c :: rest =>
    if c = '\n' then skipLines false rest
    else if inComment then
      if isControl c then .error .malformed else skipLines true rest
    else if isLineGap c then skipLines false rest
    else if c = '#' then skipLines true rest
    else .ok (c :: rest)

/-! ## Strings and keys -/

/-- Read a string between single quotes, behind the first of them. -/
def literalString (s : List Char) : Except Error (String × List Char) :=
  let body := s.takeWhile (· ≠ '\'')
  match s.dropWhile (· ≠ '\'') with
  | [] => .error .malformed
  | _ :: rest => if body.any isControl then .error .malformed else .ok (String.ofList body, rest)

/-- The character whose code point is written with `width` hexadecimal digits. -/
def codePoint? (width : Nat) (s : List Char) : Option (Char × List Char) := do
  let digits ← (s.take width).mapM Text.hexDigit?
  let n := digits.foldl (16 * · + ·) 0
  if digits.length = width && n.isValidChar then some (Char.ofNat n, s.drop width) else none

/-- Move over the end of a line, which only gaps may stand before, and over the gaps and line ends
behind it. -/
def foldedLine? (s : List Char) : Option (List Char) :=
  match skipLineGap s with
  | '\n' :: rest => some (rest.dropWhile fun c => isLineGap c || c = '\n')
  | _ => none

/-- What the text behind a backslash spells. In a string on several lines a backslash takes the end
of its line with it. -/
def escape? (multiline : Bool) : List Char → Option (List Char × List Char)
  | 'b' :: rest => some (['\x08'], rest)
  | 't' :: rest => some (['\t'], rest)
  | 'n' :: rest => some (['\n'], rest)
  | 'f' :: rest => some (['\x0c'], rest)
  | 'r' :: rest => some (['\r'], rest)
  | '"' :: rest => some (['"'], rest)
  | '\\' :: rest => some (['\\'], rest)
  | 'u' :: rest => (codePoint? 4 rest).map fun (c, rest) => ([c], rest)
  | 'U' :: rest => (codePoint? 8 rest).map fun (c, rest) => ([c], rest)
  | s => if multiline then (foldedLine? s).map fun rest => ([], rest) else none

/-- Move over the end of a string between double quotes, if the text starts with it. -/
def closing? : (multiline : Bool) → List Char → Option (List Char)
  | false, '"' :: rest => some rest
  | true, '"' :: '"' :: '"' :: rest => some rest
  | _, _ => none

/-- Whether a string may hold a character as it is. -/
def isAllowed (multiline : Bool) (c : Char) : Bool := !isControl c || (multiline && c = '\n')

/-- Read the characters of a string between double quotes, behind the first of them. -/
def basicChars (multiline : Bool) : (fuel : Nat) → List Char → Except Error (List Char × List Char)
  | 0, _ => .error .malformed
  | fuel + 1, s =>
    match closing? multiline s, s with
    | some rest, _ => .ok ([], rest)
    | none, [] => .error .malformed
    | none, '\\' :: rest => do
      let (spelled, rest) ← orMalformed (escape? multiline rest)
      let (cs, rest) ← basicChars multiline fuel rest
      return (spelled ++ cs, rest)
    | none, c :: rest => do
      if !isAllowed multiline c then throw .malformed
      let (cs, rest) ← basicChars multiline fuel rest
      return (c :: cs, rest)

/-- Read a string between double quotes, behind the first of them. -/
def basicString (s : List Char) : Except Error (String × List Char) := do
  let (cs, rest) ← basicChars false (s.length + 1) s
  return (String.ofList cs, rest)

/-- The text before the first three single quotes in a row, and what follows these. -/
def untilThreeQuotes? : List Char → Option (List Char × List Char)
  | [] => none
  | '\'' :: '\'' :: '\'' :: rest => some ([], rest)
  | c :: rest => (untilThreeQuotes? rest).map fun (body, rest) => (c :: body, rest)

/-- The quotes behind the last three that belong to the string, two at most, and what follows. -/
def extraQuotes (quote : Char) (s : List Char) : List Char × List Char :=
  let extra := (s.takeWhile (· = quote)).take 2
  (extra, s.drop extra.length)

/-- A string on several lines may start with a line end that does not belong to it. -/
def skipLineEnd : List Char → List Char
  | '\n' :: rest => rest
  | s => s

/-- Read a string between three double quotes, behind the first three. -/
def longBasicString (s : List Char) : Except Error (String × List Char) := do
  let s := skipLineEnd s
  let (cs, rest) ← basicChars true (s.length + 1) s
  let (extra, rest) := extraQuotes '"' rest
  return (String.ofList (cs ++ extra), rest)

/-- Read a string between three single quotes, behind the first three. -/
def longLiteralString (s : List Char) : Except Error (String × List Char) := do
  let (body, rest) ← orMalformed (untilThreeQuotes? (skipLineEnd s))
  if !body.all (isAllowed true) then throw .malformed
  let (extra, rest) := extraQuotes '\'' rest
  return (String.ofList (body ++ extra), rest)

/-- The characters of a key without quotes. -/
def isBareKeyChar (c : Char) : Bool := c.isAlphanum || c = '-' || c = '_'

/-- Read one part of a dotted key. -/
def keyPart (s : List Char) : Except Error (String × List Char) :=
  match s with
  | '\'' :: rest => literalString rest
  | '"' :: rest => basicString rest
  | _ =>
    match s.takeWhile isBareKeyChar with
    | [] => .error .malformed
    | part => .ok (String.ofList part, s.dropWhile isBareKeyChar)

/-- Read a dotted key and the gap behind it. -/
def keyPath : (fuel : Nat) → List Char → Except Error (Key × List Char)
  | 0, _ => .error .malformed
  | fuel + 1, s => do
    let (part, rest) ← keyPart s
    match skipLineGap rest with
    | '.' :: rest =>
      let (parts, rest) ← keyPath fuel (skipLineGap rest)
      return (part :: parts, rest)
    | rest => return ([part], rest)

/-! ## Numbers -/

/-- Read digits that may have single underscores between them, behind the first digit. -/
def moreDigits (p : Char → Bool) : List Char → List Char × List Char
  | [] => ([], [])
  | '_' :: c :: rest =>
    if p c then
      let (digits, rest) := moreDigits p rest
      (c :: digits, rest)
    else ([], '_' :: c :: rest)
  | c :: rest =>
    if p c then
      let (digits, rest) := moreDigits p rest
      (c :: digits, rest)
    else ([], c :: rest)

/-- Read one or more digits that may have single underscores between them. -/
def someDigits? (p : Char → Bool) : List Char → Option (List Char × List Char)
  | [] => none
  | c :: rest =>
    if p c then
      let (digits, rest) := moreDigits p rest
      some (c :: digits, rest)
    else none

/-- Read an integer in base sixteen, two or eight, behind the zero it starts with. -/
def radixInteger? (s : List Char) : Option (Value × List Char) := do
  let (base, rest) ←
    match s with
    | 'x' :: rest => some (16, rest)
    | 'b' :: rest => some (2, rest)
    | 'o' :: rest => some (8, rest)
    | _ => none
  let (digits, rest) ← someDigits? (fun c => (Text.hexDigit? c).any (· < base)) rest
  let n := (digits.filterMap Text.hexDigit?).foldl (base * · + ·) 0
  return (.integer n, rest)

/-- Read the fraction of a number, without the point. -/
def fraction (s : List Char) : List Char × List Char :=
  match s with
  | '.' :: rest => (someDigits? Decimal.isDigit rest).getD ([], s)
  | _ => ([], s)

/-- Read the exponent of a number. -/
def exponent? (s : List Char) : Option (Int × List Char) :=
  match s with
  | c :: rest =>
    if c = 'e' || c = 'E' then
      let (negative, rest) : Bool × List Char :=
        match rest with
        | '-' :: rest => (true, rest)
        | '+' :: rest => (false, rest)
        | rest => (false, rest)
      (someDigits? Decimal.isDigit rest).map fun (digits, rest) =>
        let n : Int := Decimal.value digits
        (if negative then -n else n, rest)
    else none
  | [] => none

/-- Read the digits before the point: a single zero, or digits that start with another one. -/
def wholePart? (s : List Char) : Option (List Char × List Char) :=
  match s with
  | '0' :: rest => some (['0'], rest)
  | _ => someDigits? Decimal.isDigit s

/-- Read a decimal number. It is an integer if it has neither fraction nor exponent. -/
def decimalNumber? (negative : Bool) (s : List Char) :
    Option (Except Error (Value × List Char)) := do
  let (whole, rest) ← wholePart? s
  let (part, rest₁) := fraction rest
  let digits := Decimal.value (whole ++ part)
  match exponent? rest₁ with
  | some (e, rest₂) =>
    return .ok (.float (.ofDecimal negative digits (e - part.length)), rest₂)
  | none =>
    if part = [] then
      match Decimal.read negative whole with
      | .ok v => return .ok (.integer v, rest₁)
      | .error e => return .error (.tooLong e)
    else return .ok (.float (.ofDecimal negative digits (-part.length)), rest₁)

/-- The words that stand for numbers beyond all others. -/
def specialFloat? (negative : Bool) : List Char → Option (Value × List Char)
  | 'i' :: 'n' :: 'f' :: rest => some (.float (.infinite negative), rest)
  | 'n' :: 'a' :: 'n' :: rest => some (.float .nan, rest)
  | _ => none

/-- Read a number with or without a sign. -/
def number (s : List Char) : Except Error (Value × List Char) :=
  let signed (negative : Bool) (rest : List Char) : Except Error (Value × List Char) :=
    match decimalNumber? negative rest with
    | some r => r
    | none => orMalformed (specialFloat? negative rest)
  match s with
  | '-' :: rest => signed true rest
  | '+' :: rest => signed false rest
  | '0' :: rest =>
    match radixInteger? rest with
    | some r => .ok r
    | none => signed false s
  | _ => signed false s

/-! ## Dates and times -/

/-- Read a number of exactly `width` digits. -/
def fixedDigits? (width : Nat) (s : List Char) : Option (Nat × List Char) :=
  let digits := s.take width
  if digits.length = width && digits.all Decimal.isDigit then
    some (Decimal.value digits, s.drop width)
  else none

/-- Read one character. -/
def token? (c : Char) : List Char → Option (List Char)
  | [] => none
  | d :: rest => if d = c then some rest else none

/-- Read the fraction of a second in microseconds. Digits behind the sixth do not count. -/
def microseconds (s : List Char) : Nat × List Char :=
  match s with
  | '.' :: rest =>
    match rest.takeWhile Decimal.isDigit with
    | [] => (0, s)
    | digits =>
      (Decimal.value ((digits ++ List.replicate 6 '0').take 6), rest.dropWhile Decimal.isDigit)
  | _ => (0, s)

/-- Read a time of day. -/
def time? (s : List Char) : Option (Time × List Char) := do
  let (hour, rest) ← fixedDigits? 2 s
  let (minute, rest) ← fixedDigits? 2 (← token? ':' rest)
  let (second, rest) ← fixedDigits? 2 (← token? ':' rest)
  let (micro, rest) := microseconds rest
  let t ← Time.ofParts? hour minute second micro
  return (t, rest)

/-- Read an offset from universal time. -/
def offset? : List Char → Option (Offset × List Char)
  | [] => none
  | c :: rest =>
    if c = 'Z' || c = 'z' then some (.zero, rest)
    else if c = '+' || c = '-' then do
      let (hours, rest) ← fixedDigits? 2 rest
      let (minutes, rest) ← fixedDigits? 2 (← token? ':' rest)
      let z ← Offset.ofParts? (c = '-') hours minutes
      return (z, rest)
    else none

/-- Read the numbers of a day: the year, a month, and a day that some month has. -/
def dateParts? (s : List Char) : Option ((Nat × Nat × Nat) × List Char) := do
  let (year, rest) ← fixedDigits? 4 s
  let (month, rest) ← fixedDigits? 2 (← token? '-' rest)
  let (day, rest) ← fixedDigits? 2 (← token? '-' rest)
  if 1 ≤ month && month ≤ 12 && 1 ≤ day && day ≤ 31 then some ((year, month, day), rest) else none

/-- Read the time that may follow a day. -/
def timeBehind? : List Char → Option (Time × List Char)
  | [] => none
  | c :: rest => if c = 'T' || c = 't' || c = ' ' then time? rest else none

/-- Read what may follow a day: a time, and behind it an offset. -/
def momentFrom (d : Date) (s : List Char) : Moment × List Char :=
  match timeBehind? s with
  | none => (.date d, s)
  | some (t, rest) =>
    match offset? rest with
    | none => (.dateTime d t none, rest)
    | some (z, rest) => (.dateTime d t (some z), rest)

/-- Read a date or a time, if the text looks like one. The numbers of a day may still name none. -/
def moment? (s : List Char) : Option (Except Error (Moment × List Char)) :=
  match dateParts? s with
  | some ((year, month, day), rest) =>
    some ((orMalformed (Date.ofParts? year month day)).map fun d => momentFrom d rest)
  | none => (time? s).map fun (t, rest) => .ok (.time t, rest)

/-! ## Values -/

mutual

/-- Read a value. -/
def value : (fuel : Nat) → List Char → Except Error (Value × List Char)
  | 0, _ => .error .malformed
  | fuel + 1, s =>
    match s with
    | '"' :: '"' :: '"' :: rest => (longBasicString rest).map fun (t, rest) => (.string t, rest)
    | '"' :: rest => (basicString rest).map fun (t, rest) => (.string t, rest)
    | '\'' :: '\'' :: '\'' :: rest =>
      (longLiteralString rest).map fun (t, rest) => (.string t, rest)
    | '\'' :: rest => (literalString rest).map fun (t, rest) => (.string t, rest)
    | 't' :: 'r' :: 'u' :: 'e' :: rest => .ok (.bool true, rest)
    | 'f' :: 'a' :: 'l' :: 's' :: 'e' :: rest => .ok (.bool false, rest)
    | '[' :: rest => do
      let rest ← skipLines false rest
      let (items, rest) ← arrayItems fuel rest
      return (.array items, rest)
    | '\x7b' :: rest =>
      match skipLineGap rest with
      | '\x7d' :: rest => .ok (.table [], rest)
      | rest => inlineEntries fuel {} rest
    | _ =>
      match moment? s with
      | some r => r.map fun (m, rest) => (.moment m, rest)
      | none => number s

/-- Read the items of an array up to its end. A comma may follow the last one. -/
def arrayItems : (fuel : Nat) → List Char → Except Error (List Value × List Char)
  | 0, _ => .error .malformed
  | fuel + 1, s =>
    match s with
    | ']' :: rest => .ok ([], rest)
    | _ => do
      let (v, rest) ← value fuel s
      match ← skipLines false rest with
      | ']' :: rest => return ([v], rest)
      | ',' :: rest =>
        let rest ← skipLines false rest
        let (vs, rest) ← arrayItems fuel rest
        return (v :: vs, rest)
      | _ => throw .malformed

/-- Read the entries of a table between braces up to its end. No comma follows the last one. -/
def inlineEntries : (fuel : Nat) → Inline → List Char → Except Error (Value × List Char)
  | 0, _, _ => .error .malformed
  | fuel + 1, t, s => do
    let (key, rest) ← keyPath (s.length + 1) s
    match rest with
    | '=' :: rest =>
      let (v, rest) ← value fuel (skipLineGap rest)
      let t ← orMalformed (t.put key v)
      match skipLineGap rest with
      | '\x7d' :: rest => return (.table t.entries, rest)
      | ',' :: rest => inlineEntries fuel t (skipLineGap rest)
      | _ => throw .malformed
    | _ => throw .malformed

end

/-! ## Files -/

/-- Read an entry of the current table. -/
def entry (d : Document) (s : List Char) : Except Error (Document × List Char) := do
  let (key, rest) ← keyPath (s.length + 1) s
  match rest with
  | '=' :: rest =>
    let (v, rest) ← value (2 * rest.length + 2) (skipLineGap rest)
    let d ← orMalformed (d.put key v)
    return (d, rest)
  | _ => throw .malformed

/-- Read a header behind its first bracket. -/
def header (d : Document) (s : List Char) : Except Error (Document × List Char) :=
  match s with
  | '[' :: rest => do
    let s := skipLineGap rest
    let (key, rest) ← keyPath (s.length + 1) s
    match rest with
    | ']' :: ']' :: rest => return (← orMalformed (d.openArray key), rest)
    | _ => throw .malformed
  | _ => do
    let s := skipLineGap s
    let (key, rest) ← keyPath (s.length + 1) s
    match rest with
    | ']' :: rest => return (← orMalformed (d.openTable key), rest)
    | _ => throw .malformed

/-- Read what one line starts with, nothing perhaps. -/
def statement (d : Document) (s : List Char) : Except Error (Document × List Char) :=
  match s with
  | [] => .ok (d, [])
  | c :: rest =>
    if c = '\n' || c = '#' then .ok (d, s)
    else if c = '[' then header d rest
    else entry d s

/-- Read the lines of a file. -/
def lines : (fuel : Nat) → Document → List Char → Except Error Document
  | 0, _, _ => .error .malformed
  | fuel + 1, d, s => do
    let (d, rest) ← statement d (skipLineGap s)
    match ← skipComment (skipLineGap rest) with
    | [] => return d
    | '\n' :: rest => lines fuel d rest
    | _ => throw .malformed

/-- The table that a settings file holds. -/
def parse (text : List Char) : Except Error Entries :=
  (lines (text.length + 1) {} text).map (·.entries)

end Whitespace.Config
