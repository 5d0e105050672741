import Whitespace.Blank

/-!
# The bytes of a text

A source is read as bytes and written as text. Blanks are ASCII characters, so the bytes of a row
of blanks are the blanks one by one.

## Main statements

* `Text.bytes_ofList` — the bytes of a text are those of its characters.
* `Blank.bytes_text` — the bytes of a row of blanks.
-/

namespace Whitespace

namespace Text

/-- The bytes a text is stored as. -/
def bytes (s : String) : List UInt8 := s.toUTF8.toList

/-- The loop that lists the bytes of an array lists those from its index on. -/
theorem toList_loop (b : ByteArray) (i : Nat) (listed : List UInt8) :
    ByteArray.toList.loop b i listed = listed.reverse ++ b.data.toList.drop i := by
  fun_induction ByteArray.toList.loop b i listed with
  | case1 i listed h ih =>
    have hi : i < b.data.toList.length := by simpa using h
    have hget : b.get! i = b.data.toList[i] := getElem!_pos b.data i h
    rw [ih, hget, List.drop_eq_getElem_cons hi, List.reverse_cons, List.append_assoc,
      List.singleton_append]
  | case2 i listed h =>
    have hi : b.data.toList.length ≤ i := by simpa using h
    rw [List.drop_eq_nil_of_le hi, List.append_nil]

theorem toList_eq (b : ByteArray) : b.toList = b.data.toList := by
  rw [ByteArray.toList, toList_loop, List.reverse_nil, List.nil_append, List.drop_zero]

/-- The bytes of a list of characters are the bytes of the characters. -/
theorem bytes_ofList (cs : List Char) :
    bytes (String.ofList cs) = cs.flatMap String.utf8EncodeChar := by
  rw [bytes, toList_eq, String.toUTF8_eq_toByteArray, String.toByteArray_ofList, List.utf8Encode,
    List.toList_data_toByteArray]

end Text

namespace Blank

/-- The bytes of a row of blanks. -/
@[simp] theorem bytes_text (row : List Blank) : Text.bytes (text row) = row.map byte := by
  rw [text, Text.bytes_ofList]
  induction row with
  | nil => rfl
  | cons c row ih =>
    have hc : String.utf8EncodeChar c.char = [c.byte] := by cases c <;> decide
    rw [List.map_cons, List.flatMap_cons, ih, hc, List.map_cons, List.singleton_append]

theorem text_append (s t : List Blank) : text (s ++ t) = text s ++ text t := by
  simp [text, String.ofList_append]

end Blank

end Whitespace
