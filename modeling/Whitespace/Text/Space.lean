/-!
# Space characters

The characters that count as space in text that people type: the ASCII controls and separators,
and the space, line and paragraph separators beyond ASCII.

## Main definitions

* `Text.isSpace` — the space characters.
* `Text.stripRight` — text without the space at its end.
-/

namespace Whitespace.Text

/-- Space characters, ASCII and beyond. -/
def isSpace (c : Char) : Bool :=
  let n := c.toNat
  (9 ≤ n && n ≤ 13) || (0x1C ≤ n && n ≤ 0x20) || n == 0x85 || n == 0xA0 || n == 0x1680 ||
    (0x2000 ≤ n && n ≤ 0x200A) || n == 0x2028 || n == 0x2029 || n == 0x202F || n == 0x205F ||
    n == 0x3000

/-- Text without the space at its end. -/
def stripRight (s : List Char) : List Char := (s.reverse.dropWhile isSpace).reverse

end Whitespace.Text
