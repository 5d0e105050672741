/-!
# Lines of text

## Main definitions

* `Text.unifyNewlines` — every line ending becomes a line feed.
* `Text.expandTabs` — tabs become spaces up to the next multiple of eight columns.
-/

namespace Whitespace.Text

/-- Turn carriage returns into line feeds, and a return with its line feed into one. -/
def unifyNewlines : List Char → List Char
  | [] => []
  | '\r' :: '\n' :: rest => '\n' :: unifyNewlines rest
  | c :: rest => (if c = '\r' then '\n' else c) :: unifyNewlines rest

/-- Replace tabs by spaces when the text starts in column `column`. Every line starts in column
zero. -/
def expandTabsFrom (column : Nat) : List Char → List Char
  | [] => []
  | c :: rest =>
    if c = '\t' then
      let width := 8 - column % 8
      List.replicate width ' ' ++ expandTabsFrom (column + width) rest
    else
      c :: expandTabsFrom (if c = '\n' || c = '\r' then 0 else column + 1) rest

/-- Replace each tab by spaces up to the next multiple of eight columns. -/
def expandTabs (s : List Char) : List Char := expandTabsFrom 0 s

theorem expandTabsFrom_of_no_tab (column : Nat) (s : List Char) (h : '\t' ∉ s) :
    expandTabsFrom column s = s := by
  induction s generalizing column with
  | nil => rfl
  | cons c rest ih =>
    simp only [List.mem_cons, not_or] at h
    simp [expandTabsFrom, Ne.symm h.1, ih _ h.2]

end Whitespace.Text
