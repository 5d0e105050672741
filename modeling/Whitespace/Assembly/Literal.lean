import Whitespace.Text.Literal

/-!
# Character literals

A character literal stands between single quotes, and a backslash takes the next character with it.

## Main definitions

* `literalBody?` — the text between the quotes, and what follows.
* `unescape` — the text that a literal spells.
-/

namespace Whitespace.Assembly

/-- The text up to the closing quote, and what follows the quote. A line ending is not allowed, a
carriage return after a backslash excepted. -/
def literalBody? : List Char → Option (List Char × List Char)
  | [] => none
  | '\'' :: rest => some ([], rest)
  | '\\' :: c :: rest =>
    if c = '\n' then none
    else (literalBody? rest).map fun (body, rest) => ('\\' :: c :: body, rest)
  | c :: rest =>
    if c = '\\' || c = '\n' || c = '\r' then none
    else (literalBody? rest).map fun (body, rest) => (c :: body, rest)

/-- What a backslash and the text behind it spell, and what is left of that text. Besides the
control characters there are three numeric forms: an octal digit and a `3` spell themselves, and a
hexadecimal digit behind `x` or `u` takes a `2` or a `4` as its second digit. -/
def escape : List Char → List Char × List Char
  | [] => (['\\'], [])
  | 't' :: rest => (['\t'], rest)
  | 'n' :: rest => (['\n'], rest)
  | 'f' :: rest => (['\x0c'], rest)
  | 'r' :: rest => (['\r'], rest)
  | 'x' :: h :: '2' :: rest =>
    match Text.hexDigit? h with
    | some v => ([Char.ofNat (16 * v + 2)], rest)
    | none => (['x'], h :: '2' :: rest)
  | 'u' :: h :: '4' :: rest =>
    match Text.hexDigit? h with
    | some v => ([Char.ofNat (16 * v + 4)], rest)
    | none => (['u'], h :: '4' :: rest)
  | c :: '3' :: rest =>
    if '0' ≤ c && c ≤ '7' then ([c, '3'], rest)
    else ([c], '3' :: rest)
  | c :: rest => ([if c = '0' then '\x00' else c], rest)

theorem length_escape_le (s : List Char) : (escape s).2.length ≤ s.length := by
  unfold escape
  split <;> try split
  all_goals simp <;> omega

/-- The text that the body of a literal spells. -/
def unescape (s : List Char) : List Char :=
  match s with
  | [] => []
  | c :: rest =>
    if c = '\\' then (escape rest).1 ++ unescape (escape rest).2
    else c :: unescape rest
termination_by s.length
decreasing_by
  · have := length_escape_le rest
    simp
    omega
  · simp

end Whitespace.Assembly
