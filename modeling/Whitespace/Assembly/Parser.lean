import Whitespace.Assembly.Cursor
import Whitespace.Assembly.Literal
import Whitespace.Assembly.Statement
import Whitespace.Decimal
import Whitespace.Text.Lines
import Whitespace.Text.Space

/-!
# Reading assembly text

Assembly text is a row of statements and comments, with gaps of spaces, tabs and line endings
anywhere between tokens. At each place the reader takes the longest of a statement, a comment and
an unknown word. It stops where none of the three is found: at the end of the text, or at a space
character that is no gap.

## Main definitions

* `Cursor.label`, `Cursor.command`, `Cursor.comment`, `Cursor.unknown` — what can be read at a
  place.
* `Cursor.statement`, `Cursor.item` — the longest of them.
* `Cursor.statements`, `parse` — everything up to the place where the reader stops.
-/

namespace Whitespace.Assembly

/-- The characters that a name can start with. -/
def isNameStart (c : Char) : Bool := c.isAlpha || c = '_'

/-- The characters of a name. -/
def isNameChar (c : Char) : Bool := c.isAlphanum || c = '_'

/-- The characters that must not touch a keyword. -/
def isWordChar (c : Char) : Bool := isNameChar c || c = '$'

namespace Cursor

/-- Read one given character. -/
def symbol (wanted : Char) (c : Cursor) : Option Cursor :=
  match c.skip.next? with
  | some (h, c') => if h = wanted then some c' else none
  | none => none

/-- Read a name. -/
def name (c : Cursor) : Option (String × Cursor) :=
  match c.skip.rest with
  | h :: _ =>
    if isNameStart h then
      let row := c.skip.span isNameChar
      some (String.ofList row.1, row.2)
    else none
  | [] => none

/-- Read a mnemonic that no word character touches. -/
def keyword (c : Cursor) : Option (Opcode × Cursor) :=
  if c.skip.before.any isWordChar then none
  else
    let row := c.skip.span isWordChar
    match Opcode.ofMnemonic? (String.ofList row.1) with
    | some op => some (op, row.2)
    | none => none

/-- Move over a sign, if there is one; `true` is a minus. -/
def sign (c : Cursor) : Bool × Cursor :=
  match c.next? with
  | some ('-', c') => (true, c')
  | some ('+', c') => (false, c')
  | _ => (false, c)

/-- Read a decimal number: its sign and its digits. -/
def number (c : Cursor) : Option ((Bool × List Char) × Cursor) :=
  let sign := c.skip.sign
  let digits := sign.2.span Decimal.isDigit
  if digits.1 = [] then none else some ((sign.1, digits.1), digits.2)

/-- Read a character literal: the text it spells. -/
def literal (c : Cursor) : Option (List Char × Cursor) :=
  match c.symbol '\'' with
  | some c₁ =>
    match literalBody? c₁.rest with
    | some (body, rest) =>
      some (unescape body, ⟨c₁.position + body.length + 1, some '\'', rest⟩)
    | none => none
  | none => none

/-- Read a label that stands at this place: a name and a colon. -/
def label (c : Cursor) : Option (String × Cursor) :=
  match c.name with
  | some (name, c₁) =>
    match c₁.symbol ':' with
    | some c₂ => some (name, c₂)
    | none => none
  | none => none

/-- Read the operand of `op` and what it makes of the command. -/
def operand (op : Opcode) (c : Cursor) : Option (Statement × Cursor) :=
  match op.operandKind with
  | .none => some (.plain op, c)
  | .number =>
    longest [
      c.number.map fun ((negative, digits), c') => (.number op negative digits, c'),
      c.literal.map fun (text, c') => (.character op text, c')]
  | .label =>
    c.name.map fun (name, c') => (if op = .mark then .mark name else .jump op name, c')

/-- Read a command: a mnemonic and the operand it needs. -/
def command (c : Cursor) : Option (Statement × Cursor) :=
  match c.keyword with
  | some (op, c') => c'.operand op
  | none => none

/-- Read a comment: two slashes and everything up to the next line feed. -/
def comment (c : Cursor) : Option Cursor :=
  match c.skip.rest with
  | '/' :: '/' :: _ => some (c.skip.span (· ≠ '\n')).2
  | _ => none

theorem rest_comment_lt {c c' : Cursor} (h : c.comment = some c') :
    c'.rest.length < c.rest.length := by
  unfold comment at h
  split at h
  · next t e =>
    have := c.rest_skip_le
    have : (c.skip.span (· ≠ '\n')).2.rest.length < c.skip.rest.length :=
      rest_span_lt (by simp [span, e])
    rw [← Option.some.inj h]
    omega
  · simp at h

/-- Move over all comments at this place. -/
def comments (c : Cursor) : Cursor :=
  match _h : c.comment with
  | some c' => c'.comments
  | none => c
termination_by c.rest.length
decreasing_by exact rest_comment_lt _h

/-- Read a statement: a command with a label in front or without one, or a label alone; comments
behind it belong to it. -/
def statement (c : Cursor) : Option (List Statement × Cursor) :=
  longest [
    match c.label with
    | some (name, c₁) => c₁.command.map fun (s, c₂) => ([.mark name, s], c₂.comments)
    | none => c.command.map fun (s, c₁) => ([s], c₁.comments),
    c.label.map fun (name, c₁) => ([.mark name], c₁.comments)]

/-- Read a word of any characters but space. -/
def unknown (c : Cursor) : Option (List Statement × Cursor) :=
  let row := c.skip.span (!Text.isSpace ·)
  if row.1 = [] then none else some ([.unknown row.1], row.2)

/-- Read the longest of a statement, a comment and an unknown word. -/
def item (c : Cursor) : Option (List Statement × Cursor) :=
  longest [c.statement, c.comment.map fun c' => ([], c'), c.unknown]

/-! ## Reading makes the rest shorter -/

theorem rest_symbol_lt {wanted : Char} {c c' : Cursor} (h : c.symbol wanted = some c') :
    c'.rest.length < c.rest.length := by
  unfold symbol at h
  split at h
  · next e =>
    have := rest_next?_lt e
    have := c.rest_skip_le
    split at h
    · cases h
      omega
    · simp at h
  · simp at h

theorem rest_name_lt {c c' : Cursor} {name : String} (h : c.name = some (name, c')) :
    c'.rest.length < c.rest.length := by
  unfold Cursor.name at h
  split at h
  · next a t e =>
    have := c.rest_skip_le
    split at h
    · next ha =>
      have : (c.skip.span isNameChar).2.rest.length < c.skip.rest.length := by
        refine rest_span_lt ?_
        have : isNameChar a := by
          simp only [isNameStart, Bool.or_eq_true, decide_eq_true_eq] at ha
          simp only [isNameChar, Char.isAlphanum, Bool.or_eq_true, decide_eq_true_eq]
          exact ha.imp_left .inl
        simp [span, e, this]
      simp only [Option.some.injEq, Prod.mk.injEq] at h
      rw [← h.2]
      omega
    · simp at h
  · simp at h

theorem rest_keyword_lt {c c' : Cursor} {op : Opcode} (h : c.keyword = some (op, c')) :
    c'.rest.length < c.rest.length := by
  unfold keyword at h
  dsimp only at h
  split at h
  · simp at h
  · have := c.rest_skip_le
    split at h
    · next e =>
      have : (c.skip.span isWordChar).2.rest.length < c.skip.rest.length := by
        refine rest_span_lt fun e' => ?_
        have none : Opcode.ofMnemonic? (String.ofList []) = none := by decide
        rw [e', none] at e
        cases e
      simp only [Option.some.injEq, Prod.mk.injEq] at h
      rw [← h.2]
      omega
    · simp at h

theorem rest_sign_le (c : Cursor) : c.sign.2.rest.length ≤ c.rest.length := by
  unfold sign
  split
  · next e => exact Nat.le_of_lt (rest_next?_lt e)
  · next e => exact Nat.le_of_lt (rest_next?_lt e)
  · exact Nat.le_refl _

theorem rest_number_lt {c c' : Cursor} {v : Bool × List Char} (h : c.number = some (v, c')) :
    c'.rest.length < c.rest.length := by
  unfold number at h
  dsimp only at h
  split at h
  · simp at h
  · next e =>
    have := rest_span_lt e
    have := c.skip.rest_sign_le
    have := c.rest_skip_le
    simp only [Option.some.injEq, Prod.mk.injEq] at h
    rw [← h.2]
    omega

theorem length_literalBody?_lt {s body rest : List Char} (h : literalBody? s = some (body, rest)) :
    rest.length < s.length := by
  fun_induction literalBody? s generalizing body rest with
  | case1 => simp at h
  | case2 t =>
    simp only [Option.some.injEq, Prod.mk.injEq] at h
    simp [h.2]
  | case3 => simp at h
  | case4 c t _ ih =>
    simp only [Option.map_eq_some_iff, Prod.exists, Prod.mk.injEq] at h
    obtain ⟨b, r, e, -, rfl⟩ := h
    have := ih e
    simp
    omega
  | case5 => simp at h
  | case6 c t _ _ _ ih =>
    simp only [Option.map_eq_some_iff, Prod.exists, Prod.mk.injEq] at h
    obtain ⟨b, r, e, -, rfl⟩ := h
    have := ih e
    simp
    omega

theorem rest_literal_lt {c c' : Cursor} {text : List Char} (h : c.literal = some (text, c')) :
    c'.rest.length < c.rest.length := by
  unfold literal at h
  split at h
  · next e =>
    have := rest_symbol_lt e
    split at h
    · next e' =>
      have := length_literalBody?_lt e'
      simp only [Option.some.injEq, Prod.mk.injEq] at h
      simp only [← h.2]
      omega
    · simp at h
  · simp at h

theorem rest_label_lt {c c' : Cursor} {name : String} (h : c.label = some (name, c')) :
    c'.rest.length < c.rest.length := by
  unfold label at h
  split at h
  · next e =>
    have := rest_name_lt e
    split at h
    · next e' =>
      have := rest_symbol_lt e'
      simp only [Option.some.injEq, Prod.mk.injEq] at h
      rw [← h.2]
      omega
    · simp at h
  · simp at h

theorem rest_operand_le {op : Opcode} {c c' : Cursor} {s : Statement}
    (h : c.operand op = some (s, c')) : c'.rest.length ≤ c.rest.length := by
  unfold operand at h
  split at h
  · cases h
    exact Nat.le_refl _
  · have := longest_mem h
    simp only [List.mem_cons, List.not_mem_nil, or_false, eq_comm (a := some (s, c')),
      Option.map_eq_some_iff, Prod.exists, Prod.mk.injEq] at this
    rcases this with ⟨n, d, c₁, e, -, rfl⟩ | ⟨t, c₁, e, -, rfl⟩
    · exact Nat.le_of_lt (rest_number_lt e)
    · exact Nat.le_of_lt (rest_literal_lt e)
  · simp only [Option.map_eq_some_iff, Prod.exists, Prod.mk.injEq] at h
    obtain ⟨n, c₁, e, -, rfl⟩ := h
    exact Nat.le_of_lt (rest_name_lt e)

theorem rest_command_lt {c c' : Cursor} {s : Statement} (h : c.command = some (s, c')) :
    c'.rest.length < c.rest.length := by
  unfold command at h
  split at h
  · next e =>
    have := rest_keyword_lt e
    have := rest_operand_le h
    omega
  · simp at h

theorem rest_comments_le (c : Cursor) : c.comments.rest.length ≤ c.rest.length := by
  fun_induction comments c with
  | case1 c c' h ih =>
    have := rest_comment_lt h
    omega
  | case2 => exact Nat.le_refl _

theorem rest_statement_lt {c c' : Cursor} {ss : List Statement}
    (h : c.statement = some (ss, c')) : c'.rest.length < c.rest.length := by
  have := longest_mem h
  simp only [List.mem_cons, List.not_mem_nil, or_false] at this
  rcases this with e | e
  · split at e
    · next e₁ =>
      simp only [eq_comm (a := some (ss, c')), Option.map_eq_some_iff, Prod.exists,
        Prod.mk.injEq] at e
      obtain ⟨s, c₂, e₂, -, rfl⟩ := e
      have := rest_label_lt e₁
      have := rest_command_lt e₂
      have := c₂.rest_comments_le
      omega
    · simp only [eq_comm (a := some (ss, c')), Option.map_eq_some_iff, Prod.exists,
        Prod.mk.injEq] at e
      obtain ⟨s, c₂, e₂, -, rfl⟩ := e
      have := rest_command_lt e₂
      have := c₂.rest_comments_le
      omega
  · simp only [eq_comm (a := some (ss, c')), Option.map_eq_some_iff, Prod.exists,
      Prod.mk.injEq] at e
    obtain ⟨s, c₂, e₂, -, rfl⟩ := e
    have := rest_label_lt e₂
    have := c₂.rest_comments_le
    omega

theorem rest_unknown_lt {c c' : Cursor} {ss : List Statement} (h : c.unknown = some (ss, c')) :
    c'.rest.length < c.rest.length := by
  unfold unknown at h
  dsimp only at h
  split at h
  · simp at h
  · next e =>
    have := rest_span_lt e
    have := c.rest_skip_le
    simp only [Option.some.injEq, Prod.mk.injEq] at h
    rw [← h.2]
    omega

/-- Whatever is read, something is read. -/
theorem rest_item_lt {c c' : Cursor} {ss : List Statement} (h : c.item = some (ss, c')) :
    c'.rest.length < c.rest.length := by
  have := longest_mem h
  simp only [List.mem_cons, List.not_mem_nil, or_false] at this
  rcases this with e | e | e
  · exact rest_statement_lt e.symm
  · simp only [eq_comm (a := some (ss, c')), Option.map_eq_some_iff, Prod.mk.injEq] at e
    obtain ⟨c₁, e₁, -, rfl⟩ := e
    exact rest_comment_lt e₁
  · exact rest_unknown_lt e.symm

/-- Read statements as long as there are any, and tell where they end. -/
def statements (c : Cursor) : List Statement × Cursor :=
  match _h : c.item with
  | some (ss, c') =>
    let more := c'.statements
    (ss ++ more.1, more.2)
  | none => ([], c)
termination_by c.rest.length
decreasing_by exact rest_item_lt _h

end Cursor

/-- The statements of a text, tabs being taken as spaces up to the next multiple of eight columns,
and the place where the reader stops. -/
def parse (text : List Char) : List Statement × Cursor :=
  (Cursor.ofText (Text.expandTabs text)).statements

end Whitespace.Assembly
