import Whitespace.Proofs.Assembly.Draft
import Whitespace.Proofs.Assembly.Items

/-!
# Where the reader stops

Reading goes forward: what is left behind a token, a statement or an item is the end of what was
left in front of it. The reader stops where there is no item, which is at the end of the text or in
front of a space character.

## Main statements

* `Cursor.isSpace_of_item_eq_none` — what stands where there is no item.
* `Cursor.suffix_item`, `Cursor.suffix_statements` — what an item, and the reader, leave.
-/

namespace Whitespace.Assembly.Cursor

variable {c c' : Cursor}

/-! ## No item -/

theorem further_eq_none {α : Type} {a b : Option (α × Cursor)} (h : further a b = none) :
    a = none ∧ b = none := by
  unfold further at h
  split at h
  · split at h <;> cases h
  · exact ⟨rfl, h⟩
  · exact ⟨h, rfl⟩

theorem foldl_further_eq_none {α : Type} {ways : List (Option (α × Cursor))}
    {best : Option (α × Cursor)} (h : ways.foldl further best = none) :
    best = none ∧ ∀ way ∈ ways, way = none := by
  induction ways generalizing best with
  | nil => exact ⟨h, by simp⟩
  | cons way ways ih =>
    obtain ⟨hfurther, hways⟩ := ih h
    obtain ⟨hbest, hway⟩ := further_eq_none hfurther
    exact ⟨hbest, List.forall_mem_cons.2 ⟨hway, hways⟩⟩

/-- Where nothing can be read, a space character follows or the text ends. -/
theorem isSpace_of_item_eq_none {a : Char} {t : List Char} (h : c.item = none)
    (hrest : c.skip.rest = a :: t) : Text.isSpace a := by
  have hunknown : c.unknown = none := (foldl_further_eq_none h).2 _ (by simp)
  by_contra ha
  have hrow : (c.skip.span (!Text.isSpace ·)).1 ≠ [] := by simp [span, hrest, ha]
  simp [unknown, hrow] at hunknown

theorem item_statements (c : Cursor) : c.statements.2.item = none := by
  induction c using statements.induct with
  | case1 c ss c' hitem ih => rwa [statements_of_some hitem]
  | case2 c hitem => rwa [statements_of_none hitem]

/-! ## The rest is the end of the text -/

theorem suffix_span (p : Char → Bool) (c : Cursor) : (c.span p).2.rest <:+ c.rest :=
  List.dropWhile_suffix p

theorem suffix_skip (c : Cursor) : c.skip.rest <:+ c.rest := suffix_span isGap c

theorem suffix_next? {a : Char} (h : c.next? = some (a, c')) : c'.rest <:+ c.rest := by
  unfold next? at h
  split at h
  · cases h
  · next b t hrest =>
    cases h
    rw [hrest]
    exact List.suffix_cons a t

theorem suffix_symbol {a : Char} (h : c.symbol a = some c') : c'.rest <:+ c.rest := by
  unfold symbol at h
  split at h
  · next hnext =>
    split at h
    · cases h
      exact (suffix_next? hnext).trans c.suffix_skip
    · cases h
  · cases h

theorem suffix_name {name : String} (h : c.name = some (name, c')) : c'.rest <:+ c.rest := by
  unfold Cursor.name at h
  split at h
  · split at h
    · cases h
      exact (suffix_span _ _).trans c.suffix_skip
    · cases h
  · cases h

theorem suffix_keyword {op : Opcode} (h : c.keyword = some (op, c')) : c'.rest <:+ c.rest := by
  unfold keyword at h
  dsimp only at h
  split at h
  · cases h
  · split at h
    · cases h
      exact (suffix_span _ _).trans c.suffix_skip
    · cases h

theorem suffix_sign (c : Cursor) : c.sign.2.rest <:+ c.rest := by
  unfold sign
  split
  · next hnext => exact suffix_next? hnext
  · next hnext => exact suffix_next? hnext
  · exact List.suffix_rfl

theorem suffix_number {v : Bool × List Char} (h : c.number = some (v, c')) :
    c'.rest <:+ c.rest := by
  unfold number at h
  dsimp only at h
  split at h
  · cases h
  · cases h
    exact ((suffix_span _ _).trans (suffix_sign _)).trans c.suffix_skip

theorem suffix_literalBody? {s body rest : List Char} (h : literalBody? s = some (body, rest)) :
    rest <:+ s := by
  fun_induction literalBody? s generalizing body rest with
  | case1 => cases h
  | case2 t =>
    cases h
    exact List.suffix_cons _ _
  | case3 => cases h
  | case4 c t _ ih =>
    obtain ⟨⟨b, r⟩, hbody, heq⟩ := Option.map_eq_some_iff.1 h
    cases heq
    exact ((ih hbody).trans (List.suffix_cons _ _)).trans (List.suffix_cons _ _)
  | case5 => cases h
  | case6 c t _ _ _ ih =>
    obtain ⟨⟨b, r⟩, hbody, heq⟩ := Option.map_eq_some_iff.1 h
    cases heq
    exact (ih hbody).trans (List.suffix_cons _ _)

theorem suffix_literal {text : List Char} (h : c.literal = some (text, c')) :
    c'.rest <:+ c.rest := by
  unfold literal at h
  split at h
  · next hquote =>
    split at h
    · next hbody =>
      cases h
      exact (suffix_literalBody? hbody).trans (suffix_symbol hquote)
    · cases h
  · cases h

theorem suffix_label {name : String} (h : c.label = some (name, c')) : c'.rest <:+ c.rest := by
  unfold label at h
  split at h
  · next hname =>
    split at h
    · next hcolon =>
      cases h
      exact (suffix_symbol hcolon).trans (suffix_name hname)
    · cases h
  · cases h

theorem suffix_operand {op : Opcode} {s : Statement} (h : c.operand op = some (s, c')) :
    c'.rest <:+ c.rest := by
  unfold operand at h
  split at h
  · cases h
    exact List.suffix_rfl
  · have hway := longest_mem h
    simp only [List.mem_cons, List.not_mem_nil, or_false] at hway
    rcases hway with hway | hway
    · obtain ⟨v, hnumber, heq⟩ := Option.map_eq_some_iff.1 hway.symm
      cases heq
      exact suffix_number hnumber
    · obtain ⟨v, hliteral, heq⟩ := Option.map_eq_some_iff.1 hway.symm
      cases heq
      exact suffix_literal hliteral
  · obtain ⟨v, hname, heq⟩ := Option.map_eq_some_iff.1 h
    cases heq
    exact suffix_name hname

theorem suffix_command {s : Statement} (h : c.command = some (s, c')) : c'.rest <:+ c.rest := by
  unfold command at h
  split at h
  · next hkeyword => exact (suffix_operand h).trans (suffix_keyword hkeyword)
  · cases h

theorem comment_eq (c : Cursor) :
    c.comment = if ['/', '/'] <+: c.skip.rest then some (c.skip.span (· ≠ '\n')).2 else none := by
  unfold comment
  split
  · next t hrest => rw [hrest, if_pos ⟨t, rfl⟩]
  · next hrest =>
    rw [if_neg]
    rintro ⟨t, ht⟩
    exact hrest t ht.symm

theorem suffix_comment (h : c.comment = some c') : c'.rest <:+ c.rest := by
  rw [comment_eq] at h
  split at h
  · cases h
    exact (suffix_span _ _).trans c.suffix_skip
  · cases h

theorem suffix_comments (c : Cursor) : c.comments.rest <:+ c.rest := by
  fun_induction comments c with
  | case1 c c' hcomment ih => exact ih.trans (suffix_comment hcomment)
  | case2 => exact List.suffix_rfl

theorem suffix_statement {ss : List Statement} (h : c.statement = some (ss, c')) :
    c'.rest <:+ c.rest := by
  obtain ⟨name, c₁, s, c₂, hlabel, hcommand, -, rfl⟩ | ⟨s, c₁, -, hcommand, -, rfl⟩ |
    ⟨name, c₁, hlabel, -, rfl⟩ := statement_cases h
  · exact (c₂.suffix_comments.trans (suffix_command hcommand)).trans (suffix_label hlabel)
  · exact c₁.suffix_comments.trans (suffix_command hcommand)
  · exact c₁.suffix_comments.trans (suffix_label hlabel)

theorem suffix_item {ss : List Statement} (h : c.item = some (ss, c')) : c'.rest <:+ c.rest := by
  have hway := longest_mem h
  simp only [List.mem_cons, List.not_mem_nil, or_false] at hway
  rcases hway with hway | hway | hway
  · exact suffix_statement hway.symm
  · obtain ⟨c₁, hcomment, heq⟩ := Option.map_eq_some_iff.1 hway.symm
    cases heq
    exact suffix_comment hcomment
  · simp only [unknown] at hway
    split at hway
    · cases hway
    · cases hway
      exact (suffix_span _ _).trans c.suffix_skip

/-- What the reader leaves is the end of the text. -/
theorem suffix_statements (c : Cursor) : c.statements.2.rest <:+ c.rest := by
  induction c using statements.induct with
  | case1 c ss c' hitem ih =>
    rw [statements_of_some hitem]
    exact ih.trans (suffix_item hitem)
  | case2 c hitem =>
    simp only [statements_of_none hitem, List.suffix_rfl]

end Whitespace.Assembly.Cursor
