/-!
# Text in UTF-8

Bytes are turned into characters one byte at a time. The first byte of a character fixes how many
bytes follow and the range of the second one.

## Main definitions

* `Utf8.Error` — where and why bytes are no text.
* `Utf8.decode` — the characters before the first error, and that error.
-/

namespace Whitespace.Utf8

/-- Why bytes are no text. -/
inductive Reason where
  /-- No character starts with this byte. -/
  | start
  /-- A character is broken off by a byte that does not continue it. -/
  | continuation
  /-- The bytes end inside a character. -/
  | cutOff
  deriving DecidableEq, Repr

/-- The wording of a reason. -/
def Reason.message : Reason → String
  | start => "invalid start byte"
  | continuation => "invalid continuation byte"
  | cutOff => "unexpected end of data"

/-- Bytes that are no text: `count` bytes from `position` on, of which `first` is the first. -/
structure Error where
  first : UInt8
  position : Nat
  count : Nat
  reason : Reason
  deriving DecidableEq, Repr

/-- Two lower-case hexadecimal digits of a byte. -/
def byteText (b : UInt8) : String :=
  let digits := Nat.toDigits 16 b.toNat
  String.ofList (List.replicate (2 - digits.length) '0' ++ digits)

/-- The wording of an error. -/
def Error.message (e : Error) : String :=
  let place :=
    if e.count = 1 then "byte 0x" ++ byteText e.first ++ " in position " ++ e.position.repr
    else "bytes in position " ++ e.position.repr ++ "-" ++ (e.position + e.count - 1).repr
  "'utf-8' codec can't decode " ++ place ++ ": " ++ e.reason.message

/-- A character of which `taken` bytes have been read and `owed + 1` are missing. The next byte lies
between `low` and `high`. -/
structure Unfinished where
  first : UInt8
  taken : Nat
  owed : Nat
  low : Nat
  high : Nat
  bits : Nat

/-- What a byte between characters starts: `inl` is a whole character. -/
def start? (b : UInt8) : Option (Char ⊕ Unfinished) :=
  let n := b.toNat
  if n < 0x80 then some (.inl (Char.ofNat n))
  else if n < 0xC2 then none
  else if n < 0xE0 then some (.inr ⟨b, 1, 0, 0x80, 0xBF, n - 0xC0⟩)
  else if n < 0xF0 then
    some (.inr ⟨b, 1, 1, if n = 0xE0 then 0xA0 else 0x80, if n = 0xED then 0x9F else 0xBF,
      n - 0xE0⟩)
  else if n < 0xF5 then
    some (.inr ⟨b, 1, 2, if n = 0xF0 then 0x90 else 0x80, if n = 0xF4 then 0x8F else 0xBF,
      n - 0xF0⟩)
  else none

/-- Read bytes from position `pos` on; `done` holds the characters read so far, the last one
first. -/
def decodeFrom (pos : Nat) (open? : Option Unfinished) (done : List Char) :
    List UInt8 → List Char × Option Error
  | [] =>
    match open? with
    | none => (done.reverse, none)
    | some u => (done.reverse, some ⟨u.first, pos - u.taken, u.taken, .cutOff⟩)
  | b :: rest =>
    match open? with
    | none =>
      match start? b with
      | none => (done.reverse, some ⟨b, pos, 1, .start⟩)
      | some (.inl c) => decodeFrom (pos + 1) none (c :: done) rest
      | some (.inr u) => decodeFrom (pos + 1) (some u) done rest
    | some u =>
      if u.low ≤ b.toNat && b.toNat ≤ u.high then
        let bits := 64 * u.bits + (b.toNat - 0x80)
        match u.owed with
        | 0 => decodeFrom (pos + 1) none (Char.ofNat bits :: done) rest
        | owed + 1 =>
          decodeFrom (pos + 1) (some ⟨u.first, u.taken + 1, owed, 0x80, 0xBF, bits⟩) done rest
      else (done.reverse, some ⟨u.first, pos - u.taken, u.taken, .continuation⟩)

/-- The characters before the first error, and that error. -/
def decode (bytes : List UInt8) : List Char × Option Error := decodeFrom 0 none [] bytes

/-- The text that the bytes are, or their first error. -/
def read (bytes : List UInt8) : Except Error (List Char) :=
  match decode bytes with
  | (text, none) => .ok text
  | (_, some e) => .error e

end Whitespace.Utf8
