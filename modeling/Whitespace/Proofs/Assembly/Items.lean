import Whitespace.Proofs.Assembly.Layout

/-!
# Reading a layout

The reader takes the longest of what it can read at each place. In a layout this is always a
statement or a comment: a word of any characters goes no further, since the comments behind a
statement belong to it. A label and the command behind it are one item.

## Main definitions

* `Cursor.Free` — a mnemonic may start at a place.

## Main statements

* `longest_cons` — the first way wins if no other goes further.
* `Layout.item` — one item takes statements from the front and leaves a layout.
* `Layout.statements_eq`, `parse_of_layout` — the reader finds the statements of a layout.
-/

namespace Whitespace.Assembly

/-! ## The longest way -/

theorem foldl_further {α : Type} {ways : List (Option (α × Cursor))} {best : α × Cursor}
    (h : ∀ r, some r ∈ ways → r.2.position ≤ best.2.position) :
    ways.foldl further (some best) = some best := by
  induction ways with
  | nil => rfl
  | cons way ways ih =>
    have hbest : further (some best) way = some best := by
      cases way with
      | none => rfl
      | some r =>
        have hr := h r List.mem_cons_self
        simp [further, Nat.not_lt.2 hr]
    rw [List.foldl_cons, hbest]
    exact ih fun r hr => h r (List.mem_cons_of_mem way hr)

/-- The first way wins if no other goes further. -/
theorem longest_cons {α : Type} {ways : List (Option (α × Cursor))} {best : α × Cursor}
    (h : ∀ r, some r ∈ ways → r.2.position ≤ best.2.position) :
    longest (some best :: ways) = some best :=
  foldl_further h

@[simp] theorem longest_none_cons {α : Type} (ways : List (Option (α × Cursor))) :
    longest (none :: ways) = longest ways := rfl

@[simp] theorem longest_nil {α : Type} : longest ([] : List (Option (α × Cursor))) = none := rfl

theorem length_takeWhile_append_le (p : Char → Bool) (w t : List Char) :
    ((w ++ t).takeWhile p).length ≤ w.length + (t.takeWhile p).length := by
  induction w with
  | nil => simp
  | cons a w ih =>
    rw [List.cons_append, List.takeWhile_cons]
    split
    · simp only [List.length_cons]
      omega
    · simp

theorem length_takeWhile_le {p q : Char → Bool} (hpq : ∀ a, p a → q a) (t : List Char) :
    (t.takeWhile p).length ≤ (t.takeWhile q).length := by
  induction t with
  | nil => simp
  | cons a t ih =>
    by_cases hp : p a
    · simpa [hp, hpq a hp] using ih
    · simp [hp]

/-! ## Commands and labels -/

namespace Cursor

variable {c c' : Cursor} {n : Nat} {s : Statement} {ss : List Statement} {w t : List Char}

/-- A command that is there is read, whatever separates it from the rest. -/
theorem At.command (hc : c.At n (w ++ t)) (hs : Spelled s w)
    (hbefore : c.before.any isWordChar = false) (ht : Separate t) :
    ∃ c', c.command = some (s, c') ∧ c'.At (n + w.length) t := by
  cases hs with
  | @plain op hkind =>
    obtain ⟨c₁, hkeyword, hc₁⟩ := hc.keyword hbefore ht.stops
    exact ⟨c₁, by simp only [Cursor.command, hkeyword, operand, hkind], hc₁⟩
  | @number op g sign digits negative hkind hne hg hsign hdne hdigits =>
    simp only [List.append_assoc] at hc
    obtain ⟨c₁, hkeyword, hc₁⟩ := hc.keyword hbefore (stops_gap hne hg)
    obtain ⟨c₂, hnumber, hc₂⟩ :=
      hc₁.number hg hsign hdne hdigits (ht.stops.nameChar.imp fun _ => isNameChar_of_isDigit)
    have hliteral : c₁.literal = none := by
      have hquote : c₁.symbol '\'' = none :=
        symbol_eq_none hc₁ hg (hsign.stops_gap hdne hdigits)
          (hsign.stops_eq hdne hdigits (by decide))
      simp only [literal, hquote]
    refine ⟨c₂, ?_, by simpa [Nat.add_assoc] using hc₂⟩
    simp [Cursor.command, hkeyword, operand, hkind, hnumber, hliteral, longest_cons]
  | @name op g w hkind hne hg hw =>
    simp only [List.append_assoc] at hc
    obtain ⟨c₁, hkeyword, hc₁⟩ := hc.keyword hbefore (stops_gap hne hg)
    obtain ⟨c₂, hname, hc₂⟩ := hc₁.name hg hw ht.stops.nameChar
    refine ⟨c₂, ?_, by simpa [Nat.add_assoc] using hc₂⟩
    simp [Cursor.command, hkeyword, operand, hkind, hname]

/-- The comments behind a statement go at least as far as a word does. -/
theorem At.le_position_comments (hc : c.At n t) (ht : Separate t) :
    n + (t.takeWhile (!Text.isSpace ·)).length ≤ c.comments.position := by
  rcases ht with ht | ⟨v, rfl⟩
  · have hrow : t.takeWhile (!Text.isSpace ·) = [] := by
      cases t with
      | nil => rfl
      | cons a t =>
        have ha : isGap a := by simpa using stops_cons.1 ht
        simp [isSpace_of_isGap ha]
    rw [hrow, List.length_nil, Nat.add_zero, ← hc.position]
    exact c.position_le_comments
  · obtain ⟨c', hcomment, hposition⟩ := hc.comment_slashes
    have hle : (('/' :: '/' :: v).takeWhile (!Text.isSpace ·)).length ≤
        (('/' :: '/' :: v).takeWhile (· ≠ '\n')).length :=
      length_takeWhile_le (fun _ => ne_feed_of_not_isSpace) _
    have hmore := c'.position_le_comments
    rw [comments_of_some hcomment]
    omega

/-- A mnemonic may start here: no word character is in front, or a gap or the end follows. -/
def Free (c : Cursor) : Prop := c.before.any isWordChar = false ∨ Stops (!isGap ·) c.rest

theorem Free.before (h : c.Free) (hc : c.At n t) (hgap : Stops isGap t) (hne : t ≠ []) :
    c.before.any isWordChar = false := by
  rcases h with h | h
  · exact h
  · rw [hc.rest] at h
    obtain ⟨a, v, rfl⟩ := List.exists_cons_of_ne_nil hne
    simp [stops_cons.1 hgap, stops_cons] at h

theorem free_comments (h : Separate c.rest) : c.comments.Free := by
  fun_induction Cursor.comments c with
  | case1 c c' hcomment ih =>
    refine ih (.inl fun a ha => ?_)
    have hfeed : a = '\n' := by simpa using stops_comment hcomment a ha
    subst hfeed
    decide
  | case2 c hnone =>
    rcases h with h | ⟨v, hv⟩
    · exact .inr h
    · obtain ⟨c', hcomment, -⟩ := At.comment_slashes ⟨rfl, hv⟩
      rw [hnone] at hcomment
      cases hcomment

theorem statements_congr (h : c.item = c'.item) :
    c.statements.1 = c'.statements.1 := by
  cases hitem : c'.item with
  | none => rw [statements_of_none (h.trans hitem), statements_of_none hitem]
  | some r => rw [statements_of_some (h.trans hitem), statements_of_some hitem]

/-- A gap can be passed over to its end. -/
theorem At.skip_gaps {g : List Char} (hc : c.At n (g ++ t)) (hg : ∀ a ∈ g, isGap a)
    (hfree : c.Free) :
    ∃ c' : Cursor, c'.At (n + g.length) t ∧ c'.Free ∧ c.skip = c'.skip := by
  induction g generalizing c n with
  | nil => exact ⟨c, hc, hfree, rfl⟩
  | cons a g ih =>
    obtain ⟨ha, hg⟩ := List.forall_mem_cons.1 hg
    obtain ⟨c₁, hskip, hc₁, hbefore⟩ := hc.skip_gap ha
    have hfree₁ : c₁.Free := .inl (by simp [hbefore, not_isWordChar_of_isGap ha])
    obtain ⟨c', hc', hfree', hsame⟩ := ih hc₁ hg hfree₁
    exact ⟨c', by simpa [Nat.add_assoc, Nat.add_comm 1] using hc', hfree', hskip.trans hsame⟩

/-- The statements behind a gap. -/
theorem At.statements_gaps {g : List Char} (hc : c.At n (g ++ t)) (hg : ∀ a ∈ g, isGap a)
    (hfree : c.Free) :
    ∃ c' : Cursor, c'.At (n + g.length) t ∧ c'.Free ∧ c.statements.1 = c'.statements.1 := by
  obtain ⟨c', hc', hfree', hskip⟩ := hc.skip_gaps hg hfree
  exact ⟨c', hc', hfree', statements_congr (by rw [← item_skip, hskip, item_skip])⟩

end Cursor

open Cursor

namespace Layout

variable {c c' : Cursor} {n : Nat} {s : Statement} {ss : List Statement} {w g t : List Char}

/-- No layout starts with a colon. -/
theorem symbol_colon (h : Layout ss t) (hc : c.At n t) : c.symbol ':' = none := by
  induction h generalizing c n with
  | done => exact symbol_eq_none (g := []) hc (by simp) (stops_nil _) (stops_nil _)
  | gap ha _ ih =>
    obtain ⟨c₁, hskip, hc₁, -⟩ := hc.skip_gap ha
    rw [← symbol_skip, hskip, symbol_skip]
    exact ih hc₁
  | comment =>
    exact symbol_eq_none (g := []) hc (by simp) (stops_cons.2 (by decide))
      (stops_cons.2 (by decide))
  | @label w g t ss hw =>
    have hstart := hw.startsName (g ++ ':' :: t)
    exact symbol_eq_none (g := []) hc (by simp) hstart.stops_gap (hstart.stops_eq (by decide))
  | @command s w t ss hs =>
    have hstart := hs.startsName t
    exact symbol_eq_none (g := []) hc (by simp) hstart.stops_gap (hstart.stops_eq (by decide))

/-- A mnemonic is no label, since no colon follows it. -/
theorem label_eq_none (h : Layout ss t) (hc : c.At n (w ++ t)) (hs : Spelled s w)
    (ht : Separate t) : c.label = none := by
  have hmnemonic (op : Opcode) {v : List Char} (hc : c.At n (op.mnemonic.toList ++ v))
      (hv : Stops isNameChar v)
      (hcolon : ∀ (c₁ : Cursor) m, c₁.At m v → c₁.symbol ':' = none) : c.label = none := by
    obtain ⟨c₁, hname, hc₁⟩ := At.name (g := []) hc (by simp) (isName_mnemonic op) hv
    simp only [Cursor.label, hname, hcolon c₁ _ hc₁]
  cases hs with
  | @plain op hkind =>
    exact hmnemonic op hc ht.stops.nameChar fun _ _ hc₁ => h.symbol_colon hc₁
  | @number op g sign digits negative hkind hne hg hsign hdne hdigits =>
    simp only [List.append_assoc] at hc
    refine hmnemonic op hc (stops_gap hne hg).nameChar fun _ _ hc₁ => symbol_eq_none hc₁ hg ?_ ?_
    · exact hsign.stops_gap hdne hdigits
    · exact hsign.stops_eq hdne hdigits (by decide)
  | @name op g w hkind hne hg hw =>
    simp only [List.append_assoc] at hc
    refine hmnemonic op hc (stops_gap hne hg).nameChar fun _ _ hc₁ => symbol_eq_none hc₁ hg ?_ ?_
    · exact (hw.startsName t).stops_gap
    · exact (hw.startsName t).stops_eq (by decide)

/-- What follows a comment is a layout of the same statements. -/
theorem of_comment (h : Layout ss t) (hc : c.At n t) (hcomment : c.comment = some c') :
    Layout ss c'.rest := by
  induction h generalizing c n with
  | done => simp [comment_eq_none hc (stops_nil _) (stops_nil _)] at hcomment
  | gap ha _ ih =>
    obtain ⟨c₁, hskip, hc₁, -⟩ := hc.skip_gap ha
    rw [← comment_skip, hskip, comment_skip] at hcomment
    exact ih hc₁ hcomment
  | comment htext ht h =>
    obtain ⟨c₁, hcomment₁, hc₁⟩ := hc.comment htext ht
    rw [hcomment] at hcomment₁
    cases hcomment₁
    rwa [hc₁.rest]
  | @label w g t ss hw =>
    have hstart := hw.startsName (g ++ ':' :: t)
    simp [comment_eq_none hc hstart.stops_gap (hstart.stops_eq (by decide))] at hcomment
  | @command s w t ss hs =>
    have hstart := hs.startsName t
    simp [comment_eq_none hc hstart.stops_gap (hstart.stops_eq (by decide))] at hcomment

theorem comments (h : Layout ss c.rest) : Layout ss c.comments.rest := by
  fun_induction Cursor.comments c with
  | case1 c c' hcomment ih => exact ih (h.of_comment ⟨rfl, rfl⟩ hcomment)
  | case2 => exact h

/-! ## Items -/

theorem command_eq_none (hc : c.At n t) (hgap : Stops isGap t) (ht : Stops isWordChar t) :
    c.command = none := by
  have hnone := keyword_eq_none (w := []) hc hgap (by simp) ht (by decide)
  simp only [Cursor.command, hnone]

theorem statement_eq_none (hc : c.At n t) (hgap : Stops isGap t) (ht : Stops isWordChar t) :
    c.statement = none := by
  have hname : c.name = none :=
    name_eq_none hc hgap (ht.nameChar.imp fun _ => isNameChar_of_isNameStart)
  have hcommand : c.command = none := command_eq_none hc hgap ht
  simp [Cursor.statement, Cursor.label, hname, hcommand]

/-- Where nothing is left there is no item. -/
theorem item_eq_none (h : c.skip.rest = []) : c.item = none := by
  have hstatement : c.skip.statement = none :=
    statement_eq_none ⟨rfl, h⟩ (stops_nil _) (stops_nil _)
  have hcomment : c.skip.comment = none := comment_eq_none ⟨rfl, h⟩ (stops_nil _) (stops_nil _)
  have hunknown : c.unknown = none := by simp [unknown, span, h]
  rw [← item_skip, item, hstatement, hcomment, unknown_skip, hunknown]
  rfl

/-- At a layout there is a command or there is none, and the command is the first statement. -/
theorem command_cases (h : Layout ss t) (hc : c.At n t) (hfree : c.Free) :
    c.command = none ∨
    ∃ s ss' c', ss = s :: ss' ∧ c.command = some (s, c') ∧ n ≤ c'.position ∧
      Layout ss' c'.rest ∧ Separate c'.rest ∧ c.comment = none := by
  induction h generalizing c n with
  | done => exact .inl (command_eq_none hc (stops_nil _) (stops_nil _))
  | gap ha _ ih =>
    obtain ⟨c₁, hskip, hc₁, hbefore⟩ := hc.skip_gap ha
    have hfree₁ : c₁.Free := .inl (by simp [hbefore, not_isWordChar_of_isGap ha])
    rw [← command_skip, hskip, command_skip, ← comment_skip, hskip, comment_skip]
    obtain hnone | ⟨s, ss', c', hss, hcommand, hle, hrest⟩ := ih hc₁ hfree₁
    · exact .inl hnone
    · exact .inr ⟨s, ss', c', hss, hcommand, by omega, hrest⟩
  | comment =>
    exact .inl (command_eq_none hc (stops_cons.2 (by decide)) (stops_cons.2 (by decide)))
  | @label w g t ss hw hmnemonic hg ht h =>
    have hnone := keyword_eq_none hc (hw.startsName (g ++ ':' :: t)).stops_gap
      (fun a ha => isWordChar_of_isNameChar (hw.2 a ha)) (stops_colon hg) hmnemonic
    exact .inl (by simp only [Cursor.command, hnone])
  | @command s w t ss hs ht h =>
    have hstart := hs.startsName t
    obtain ⟨c', hcommand, hc'⟩ :=
      hc.command hs (hfree.before hc hstart.stops_gap hstart.ne_nil) ht
    refine .inr ⟨s, ss, c', rfl, hcommand, ?_, by rwa [hc'.rest], by rwa [hc'.rest], ?_⟩
    · rw [hc'.position]
      omega
    · exact comment_eq_none hc hstart.stops_gap (hstart.stops_eq (by decide))

/-- A label is read together with the command that follows it, if one does. -/
theorem statement_label (h : Layout ss t) (hc : c.At n (w ++ (g ++ ':' :: t))) (hw : IsName w)
    (hg : ∀ a ∈ g, isGap a) (ht : Separate t) :
    ∃ ss₁ ss₂ c', ss = ss₁ ++ ss₂ ∧
      c.statement = some (.mark (String.ofList w) :: ss₁, c') ∧
      n + ((w ++ (g ++ ':' :: t)).takeWhile (!Text.isSpace ·)).length ≤ c'.position ∧
      Layout ss₂ c'.rest ∧ c'.Free := by
  obtain ⟨c₁, hlabel, hc₁, hbefore⟩ := hc.label hw hg
  have hfree₁ : c₁.Free := .inl (by rw [hbefore]; decide)
  -- a word that starts at the label ends in it or in the comments behind it
  have hword := length_takeWhile_append_le (!Text.isSpace ·) (w ++ (g ++ [':'])) t
  have hcomments := hc₁.le_position_comments ht
  have hle : n + ((w ++ (g ++ ':' :: t)).takeWhile (!Text.isSpace ·)).length ≤
      c₁.comments.position := by
    simp only [List.append_assoc, List.singleton_append, List.length_append,
      List.length_singleton] at hword
    omega
  obtain hnone | ⟨s, ss', c₂, rfl, hcommand, hle₂, hrest, hseparate, hnocomment⟩ :=
    h.command_cases hc₁ hfree₁
  · refine ⟨[], ss, c₁.comments, rfl, ?_, hle, ?_, ?_⟩
    · simp [Cursor.statement, hlabel, hnone, longest_cons]
    · exact Layout.comments (by rwa [hc₁.rest])
    · exact free_comments (by rwa [hc₁.rest])
  · -- the label alone would end in front of the command
    have hmore := c₂.position_le_comments
    rw [comments_of_none hnocomment, hc₁.position] at hle
    refine ⟨[s], ss', c₂.comments, rfl, ?_, by omega, hrest.comments, free_comments hseparate⟩
    simp only [Cursor.statement, hlabel, hcommand, Option.map_some]
    apply longest_cons
    intro r hr
    simp only [List.mem_singleton, Option.some.injEq] at hr
    rw [hr, comments_of_none hnocomment, hc₁.position]
    exact Nat.le_trans hle₂ hmore

theorem statement_command (h : Layout ss t) (hc : c.At n (w ++ t)) (hs : Spelled s w)
    (hbefore : c.before.any isWordChar = false) (ht : Separate t) :
    ∃ c', c.statement = some ([s], c') ∧
      n + ((w ++ t).takeWhile (!Text.isSpace ·)).length ≤ c'.position ∧
      Layout ss c'.rest ∧ c'.Free := by
  obtain ⟨c₁, hcommand, hc₁⟩ := hc.command hs hbefore ht
  have hnone := h.label_eq_none hc hs ht
  have hword := length_takeWhile_append_le (!Text.isSpace ·) w t
  have hcomments := hc₁.le_position_comments ht
  refine ⟨c₁.comments, ?_, by omega, Layout.comments (by rwa [hc₁.rest]),
    free_comments (by rwa [hc₁.rest])⟩
  simp [Cursor.statement, hnone, hcommand, longest_cons]

/-- A statement that goes as far as a word does is an item. -/
theorem item_of_statement (hc : c.At n t) (ht : StartsName t)
    (hstatement : c.statement = some (ss, c'))
    (hle : n + (t.takeWhile (!Text.isSpace ·)).length ≤ c'.position) :
    c.item = some (ss, c') := by
  rw [Cursor.item, hstatement, comment_eq_none hc ht.stops_gap (ht.stops_eq (by decide))]
  apply longest_cons
  intro r hr
  simp only [Option.map_none, List.mem_cons, reduceCtorEq, List.not_mem_nil, or_false,
    false_or] at hr
  rw [hc.position_unknown ht.stops_gap hr.symm]
  exact hle

/-- One item takes the first statement, or a label and the command behind it, or only a comment, and
leaves a layout of the others. -/
theorem item (h : Layout ss t) (hc : c.At n t) (hfree : c.Free) :
    (c.item = none ∧ ss = []) ∨
    ∃ ss₁ ss₂ c', ss = ss₁ ++ ss₂ ∧ c.item = some (ss₁, c') ∧ Layout ss₂ c'.rest ∧ c'.Free := by
  induction h generalizing c n with
  | done =>
    exact .inl ⟨item_eq_none (by simp [skip, Cursor.span, hc.rest]), rfl⟩
  | gap ha _ ih =>
    obtain ⟨c₁, hskip, hc₁, hbefore⟩ := hc.skip_gap ha
    have hfree₁ : c₁.Free := .inl (by simp [hbefore, not_isWordChar_of_isGap ha])
    -- the item behind the first character of a gap is the item in front of it
    rw [← item_skip, hskip, item_skip]
    exact ih hc₁ hfree₁
  | @comment text t ss htext ht h =>
    have hgap : Stops isGap ('/' :: '/' :: (text ++ t)) := stops_cons.2 (by decide)
    have hstatement : c.statement = none := statement_eq_none hc hgap (stops_cons.2 (by decide))
    obtain ⟨c', hcomment, hposition⟩ := hc.comment_slashes
    refine .inr ⟨[], ss, c', rfl, ?_, Layout.of_comment (.comment htext ht h) hc hcomment,
      .inr ((stops_comment hcomment).imp fun a ha => ?_)⟩
    · rw [Cursor.item, hstatement, hcomment, longest_none_cons]
      apply longest_cons
      intro r hr
      rw [hc.position_unknown hgap (List.mem_singleton.1 hr).symm, hposition]
      exact Nat.add_le_add_left (length_takeWhile_le (fun _ => ne_feed_of_not_isSpace) _) n
    · refine decide_eq_true ?_
      rintro rfl
      simp [isGap] at ha
  | @label w g t ss hw hmnemonic hg ht h =>
    obtain ⟨ss₁, ss₂, c', rfl, hstatement, hle, hrest, hfree'⟩ := h.statement_label hc hw hg ht
    refine .inr ⟨.mark (String.ofList w) :: ss₁, ss₂, c', rfl, ?_, hrest, hfree'⟩
    exact item_of_statement hc (hw.startsName (g ++ ':' :: t)) hstatement hle
  | @command s w t ss hs ht h =>
    have hstart := hs.startsName t
    obtain ⟨c', hstatement, hle, hrest, hfree'⟩ :=
      h.statement_command hc hs (hfree.before hc hstart.stops_gap hstart.ne_nil) ht
    refine .inr ⟨[s], ss, c', rfl, ?_, hrest, hfree'⟩
    exact item_of_statement hc hstart hstatement hle

/-- Item by item the reader finds all statements of a layout. -/
theorem statements_eq (h : Layout ss c.rest) (hfree : c.Free) : c.statements.1 = ss := by
  induction c using Cursor.statements.induct generalizing ss with
  | case1 c ss₁ c' hitem ih =>
    obtain ⟨hnone, -⟩ | ⟨ss₁', ss₂, c'', rfl, hitem', hrest, hfree'⟩ := h.item ⟨rfl, rfl⟩ hfree
    · rw [hnone] at hitem
      cases hitem
    · rw [hitem] at hitem'
      cases hitem'
      rw [Cursor.statements_of_some hitem, ih hrest hfree']
  | case2 c hitem =>
    obtain ⟨-, rfl⟩ | ⟨ss₁, ss₂, c', rfl, hitem', -⟩ := h.item ⟨rfl, rfl⟩ hfree
    · rw [Cursor.statements_of_none hitem]
    · rw [hitem] at hitem'
      cases hitem'

end Layout

/-- The reader finds the statements of every layout. -/
theorem parse_of_layout {ss : List Statement} {text : List Char} (h : Layout ss text) :
    (parse text).1 = ss :=
  Layout.statements_eq (h.expandTabs 0) (.inl rfl)

end Whitespace.Assembly
