import Whitespace.Proofs.Assembly.Resolution
import Whitespace.Proofs.Assembly.Rest

/-!
# Text that is left unread

The reader stops where it finds neither a statement nor a comment nor a word, and what follows is
not looked at. A probe tells whether this happens before the end of the text: a line feed and a
question mark are put behind it, which no statement and no comment can reach. If all of the text is
read, the reader finds the question mark too and refuses it; if the reader stops earlier, the probe
makes no difference.

## Main definitions

* `probe` — a line feed and a question mark.
* `Cursor.probed` — the same place in the text with the probe behind it.
* `ReadsAll` — the reader leaves nothing but a gap unread.

## Main statements

* `Cursor.item_probed` — one item is the same with the probe behind the text.
* `Cursor.statements_probed`, `parse_probe` — the reader finds the probe exactly if it reads all.
* `readsAll_of_gaps` — the reader stops early only at a space character that is no gap.
* `assemble_probe` — assembling a text with the probe behind it.
-/

namespace Whitespace.Assembly

/-- A line feed and a word that is no statement. -/
def probe : List Char := ['\n', '?']

/-- The reader leaves nothing but a gap unread. -/
def ReadsAll (text : List Char) : Prop := ∀ a ∈ (parse text).2.rest, Cursor.isGap a

instance (text : List Char) : Decidable (ReadsAll text) :=
  List.decidableBAll (fun a => Cursor.isGap a = true) (parse text).2.rest

namespace Cursor

/-- The same place in the text with the probe behind it. -/
def probed (c : Cursor) : Cursor := { c with rest := c.rest ++ probe }

/-- What was read and the place behind it, in the text with the probe. -/
def probedWay {α : Type} (way : Option (α × Cursor)) : Option (α × Cursor) :=
  way.map fun r => (r.1, r.2.probed)

@[simp] theorem probedWay_none {α : Type} : probedWay (none : Option (α × Cursor)) = none := rfl

@[simp] theorem probedWay_some {α : Type} (r : α × Cursor) :
    probedWay (some r) = some (r.1, r.2.probed) := rfl

@[simp] theorem rest_probed (c : Cursor) : c.probed.rest = c.rest ++ probe := rfl

/-! ## Tokens -/

theorem takeWhile_probe {p : Char → Bool} (hp : p '\n' = false) (s : List Char) :
    (s ++ probe).takeWhile p = s.takeWhile p := by
  induction s with
  | nil => simp [probe, hp]
  | cons a s ih => cases ha : p a <;> simp [ha, ih]

theorem dropWhile_probe {p : Char → Bool} (hp : p '\n' = false) (s : List Char) :
    (s ++ probe).dropWhile p = s.dropWhile p ++ probe := by
  induction s with
  | nil => simp [probe, hp]
  | cons a s ih => cases ha : p a <;> simp [ha, ih]

/-- A row of characters that are no line feed ends at the same place. -/
theorem span_probed {p : Char → Bool} (hp : p '\n' = false) (c : Cursor) :
    c.probed.span p = ((c.span p).1, (c.span p).2.probed) := by
  simp [span, probed, takeWhile_probe hp, dropWhile_probe hp]

/-- Skipping ends at the same place, unless the text ends in the gap. -/
theorem skip_probed {c : Cursor} (h : c.skip.rest ≠ []) : c.probed.skip = c.skip.probed := by
  have hrest : c.rest.dropWhile isGap ≠ [] := h
  have hdrop : (c.rest ++ probe).dropWhile isGap = c.rest.dropWhile isGap ++ probe := by
    simp [List.dropWhile_append, hrest]
  have htake : (c.rest ++ probe).takeWhile isGap = c.rest.takeWhile isGap := by
    have hsplit := List.takeWhile_append_dropWhile (p := isGap) (l := c.rest ++ probe)
    have hsplit' := List.takeWhile_append_dropWhile (p := isGap) (l := c.rest)
    rw [hdrop, ← List.append_assoc] at hsplit
    exact List.append_cancel_right (List.append_cancel_right hsplit |>.trans hsplit'.symm)
  simp [skip, span, probed, hdrop, htake]

/-- Behind a gap that ends the text comes the question mark. -/
theorem rest_skip_probed {c : Cursor} (h : c.skip.rest = []) : c.probed.skip.rest = ['?'] := by
  have hrest : c.rest.dropWhile isGap = [] := h
  simp [skip, span, probed, List.dropWhile_append, hrest, probe, isGap]

theorem symbol_probed {a : Char} (ha : a ≠ '?') (c : Cursor) :
    c.probed.symbol a = (c.symbol a).map probed := by
  by_cases h : c.skip.rest = []
  · simp [symbol, next?, h, rest_skip_probed h, ha.symm]
  · obtain ⟨b, t, hrest⟩ := List.exists_cons_of_ne_nil h
    by_cases hb : b = a
    · simp only [symbol, next?, skip_probed h, rest_probed, hrest, List.cons_append, hb, if_true]
      rfl
    · simp [symbol, next?, skip_probed h, hrest, hb]

theorem name_probed (c : Cursor) : c.probed.name = probedWay c.name := by
  by_cases h : c.skip.rest = []
  · have hquestion : isNameStart '?' = false := by decide
    simp [name, h, rest_skip_probed h, hquestion]
  · obtain ⟨b, t, hrest⟩ := List.exists_cons_of_ne_nil h
    have hspan := span_probed (p := isNameChar) (by decide) c.skip
    by_cases hb : isNameStart b <;> simp [name, skip_probed h, hspan, hrest, hb]

theorem keyword_probed (c : Cursor) : c.probed.keyword = probedWay c.keyword := by
  have hnone : Opcode.ofMnemonic? (String.ofList []) = none := by decide
  by_cases h : c.skip.rest = []
  · have hquestion : isWordChar '?' = false := by decide
    simp [keyword, span, h, rest_skip_probed h, hquestion, hnone]
  · have hspan := span_probed (p := isWordChar) (by decide) c.skip
    have hbefore : c.skip.probed.before = c.skip.before := rfl
    simp only [keyword, skip_probed h, hspan, hbefore]
    split
    · rfl
    · split <;> rfl

theorem sign_of_stops {c : Cursor} (h : Stops (fun a => a = '+' || a = '-') c.rest) :
    c.sign = (false, c) := by
  obtain ⟨position, before, rest⟩ := c
  cases rest with
  | nil => rfl
  | cons a t =>
    obtain ⟨hplus, hminus⟩ : a ≠ '+' ∧ a ≠ '-' := by simpa using stops_cons.1 h
    simp [sign, next?, hplus, hminus]

theorem sign_probed (c : Cursor) : c.probed.sign = (c.sign.1, c.sign.2.probed) := by
  obtain ⟨position, before, rest⟩ := c
  cases rest with
  | nil => rfl
  | cons a t =>
    by_cases hminus : a = '-'
    · subst hminus
      rfl
    by_cases hplus : a = '+'
    · subst hplus
      rfl
    simp [sign, next?, probed, hminus, hplus]

theorem number_probed (c : Cursor) : c.probed.number = probedWay c.number := by
  by_cases h : c.skip.rest = []
  · have hsign : c.skip.sign = (false, c.skip) := sign_of_stops (by rw [h]; exact stops_nil _)
    have hsign' : c.probed.skip.sign = (false, c.probed.skip) :=
      sign_of_stops (by rw [rest_skip_probed h]; exact stops_cons.2 (by decide))
    have hquestion : Decimal.isDigit '?' = false := by decide
    simp [number, span, hsign, hsign', h, rest_skip_probed h, hquestion]
  · have hspan := span_probed (p := Decimal.isDigit) (by decide) c.skip.sign.2
    simp only [number, skip_probed h, sign_probed, hspan]
    split <;> rfl

/-- A literal does not reach beyond its line. -/
theorem literalBody?_probe (s : List Char) :
    literalBody? (s ++ probe) = (literalBody? s).map fun r => (r.1, r.2 ++ probe) := by
  fun_induction literalBody? s with
  | case1 => rfl
  | case2 rest => rfl
  | case3 rest => rfl
  | case4 c rest hc ih =>
    simp only [List.cons_append, literalBody?, hc, if_false, ih, Option.map_map]
    rfl
  | case5 c rest hquote hescape hc =>
    by_cases hback : c = '\\'
    · subst hback
      cases rest with
      | nil => rfl
      | cons a rest => exact absurd rfl (hescape a rest rfl)
    · rw [List.cons_append, literalBody?, if_pos hc, Option.map_none]
      · exact hquote
      · exact fun _ _ h => absurd h hback
  | case6 c rest hquote hescape hc ih =>
    have hback : c ≠ '\\' := by
      rintro rfl
      simp at hc
    rw [List.cons_append, literalBody?, if_neg hc, ih, Option.map_map, Option.map_map]
    · rfl
    · exact hquote
    · exact fun _ _ h => absurd h hback

theorem literal_probed (c : Cursor) : c.probed.literal = probedWay c.literal := by
  rw [literal, literal, symbol_probed (by decide)]
  cases c.symbol '\'' with
  | none => rfl
  | some c₁ =>
    simp only [Option.map_some, rest_probed, literalBody?_probe]
    cases literalBody? c₁.rest <;> rfl

theorem label_probed (c : Cursor) : c.probed.label = probedWay c.label := by
  rw [label, label, name_probed]
  cases c.name with
  | none => rfl
  | some r =>
    simp only [probedWay_some, symbol_probed (a := ':') (by decide)]
    cases r.2.symbol ':' <;> rfl

/-! ## Items -/

theorem further_probedWay {α : Type} (a b : Option (α × Cursor)) :
    further (probedWay a) (probedWay b) = probedWay (further a b) := by
  cases a with
  | none => rfl
  | some r =>
    cases b with
    | none => rfl
    | some r' =>
      have hposition (d : Cursor) : d.probed.position = d.position := rfl
      simp only [probedWay_some, further, hposition]
      split <;> rfl

/-- The probe leaves every place as far from the start as it was, so it changes no choice. -/
theorem longest_probedWay {α : Type} (ways : List (Option (α × Cursor))) :
    longest (ways.map probedWay) = probedWay (longest ways) := by
  have key (best : Option (α × Cursor)) :
      (ways.map probedWay).foldl further (probedWay best) =
        probedWay (ways.foldl further best) := by
    induction ways generalizing best with
    | nil => rfl
    | cons way ways ih =>
      rw [List.map_cons, List.foldl_cons, further_probedWay, ih, List.foldl_cons]
  exact key none

theorem operand_probed (op : Opcode) (c : Cursor) :
    c.probed.operand op = probedWay (c.operand op) := by
  unfold operand
  cases op.operandKind with
  | none => rfl
  | number =>
    dsimp only
    rw [← longest_probedWay, number_probed, literal_probed]
    simp only [List.map_cons, List.map_nil, probedWay, Option.map_map]
    rfl
  | label =>
    dsimp only
    rw [name_probed]
    simp only [probedWay, Option.map_map]
    rfl

theorem command_probed (c : Cursor) : c.probed.command = probedWay c.command := by
  rw [command, command, keyword_probed]
  cases c.keyword with
  | none => rfl
  | some r => exact operand_probed r.1 r.2

theorem comment_probed (c : Cursor) : c.probed.comment = c.comment.map probed := by
  rw [comment_eq, comment_eq]
  by_cases h : c.skip.rest = []
  · simp [h, rest_skip_probed h]
  · have hspan := span_probed (p := (· ≠ '\n')) (by decide) c.skip
    have hslashes : ['/', '/'] <+: c.skip.rest ++ probe ↔ ['/', '/'] <+: c.skip.rest := by
      obtain ⟨a, t, hrest⟩ := List.exists_cons_of_ne_nil h
      cases t <;> simp [hrest, probe]
    simp only [skip_probed h, rest_probed, hspan, hslashes]
    split <;> rfl

theorem comments_probed (c : Cursor) : c.probed.comments = c.comments.probed := by
  fun_induction comments c with
  | case1 c c' hcomment ih =>
    have hprobed : c.probed.comment = some c'.probed := by
      rw [comment_probed, hcomment, Option.map_some]
    rw [comments_of_some hprobed, ih]
  | case2 c hcomment => exact comments_of_none (by rw [comment_probed, hcomment, Option.map_none])

theorem statement_probed (c : Cursor) : c.probed.statement = probedWay c.statement := by
  have hcommand (d : Cursor) (f : Statement → List Statement) :
      (probedWay d.command).map (fun r => (f r.1, r.2.comments)) =
        probedWay (d.command.map fun r => (f r.1, r.2.comments)) := by
    cases d.command with
    | none => rfl
    | some r => simp [comments_probed]
  rw [statement, statement, ← longest_probedWay, label_probed]
  cases c.label with
  | none =>
    simp only [probedWay_none, Option.map_none, List.map_cons, List.map_nil, command_probed]
    rw [← hcommand c fun s => [s]]
  | some r =>
    simp only [probedWay_some, Option.map_some, List.map_cons, List.map_nil, command_probed,
      comments_probed]
    rw [← hcommand r.2 fun s => [.mark r.1, s]]

theorem unknown_probed {c : Cursor} (h : c.skip.rest ≠ []) :
    c.probed.unknown = probedWay c.unknown := by
  have hspan := span_probed (p := (!Text.isSpace ·)) (by decide) c.skip
  simp only [unknown, skip_probed h, hspan]
  split <;> rfl

/-- One item is the same with the probe behind the text. -/
theorem item_probed {c : Cursor} (h : c.skip.rest ≠ []) : c.probed.item = probedWay c.item := by
  rw [item, item, ← longest_probedWay, statement_probed, comment_probed, unknown_probed h]
  simp only [List.map_cons, List.map_nil, probedWay, Option.map_map]
  rfl

/-- Where nothing is left, the probe is the next item, and nothing comes behind it. -/
theorem statements_question {c : Cursor} (h : c.skip.rest = []) :
    c.probed.statements.1 = [.unknown ['?']] := by
  have hrest := rest_skip_probed h
  have hstatement : c.probed.skip.statement = none :=
    Layout.statement_eq_none ⟨rfl, hrest⟩ (stops_cons.2 (by decide)) (stops_cons.2 (by decide))
  have hcomment : c.probed.skip.comment = none :=
    comment_eq_none ⟨rfl, hrest⟩ (stops_cons.2 (by decide)) (stops_cons.2 (by decide))
  have hquestion : Text.isSpace '?' = false := by decide
  have hitem : c.probed.item = some ([.unknown ['?']],
      ⟨c.probed.skip.position + 1, some '?', []⟩) := by
    rw [← item_skip, item, hstatement, hcomment]
    simp [unknown, span, hrest, hquestion, longest_cons]
  have hend : (Cursor.mk (c.probed.skip.position + 1) (some '?') []).item = none :=
    Layout.item_eq_none rfl
  rw [statements_of_some hitem, statements_of_none hend, List.append_nil]

/-- The reader finds what it found without the probe, and the probe itself if it comes to the end of
the text. -/
theorem statements_probed (c : Cursor) :
    c.probed.statements.1 =
      c.statements.1 ++ if c.statements.2.skip.rest = [] then [.unknown ['?']] else [] := by
  induction c using statements.induct with
  | case1 c ss c' hitem ih =>
    have hrest : c.skip.rest ≠ [] := fun h => by
      rw [Layout.item_eq_none h] at hitem
      cases hitem
    have hprobed : c.probed.item = some (ss, c'.probed) := by
      rw [item_probed hrest, hitem]
      rfl
    rw [statements_of_some hprobed, statements_of_some hitem, ih, List.append_assoc]
  | case2 c hitem =>
    rw [statements_of_none hitem, List.nil_append]
    by_cases hrest : c.skip.rest = []
    · rw [statements_question hrest, if_pos hrest]
    · have hprobed : c.probed.item = none := by
        rw [item_probed hrest, hitem]
        rfl
      rw [statements_of_none hprobed, if_neg hrest]

end Cursor

/-! ## Whole texts -/

theorem readsAll_iff (text : List Char) : ReadsAll text ↔ (parse text).2.skip.rest = [] :=
  List.dropWhile_eq_nil_iff.symm

theorem expandTabs_probe (text : List Char) :
    Text.expandTabs (text ++ probe) = Text.expandTabs text ++ probe := by
  obtain ⟨⟨column, happend⟩, -⟩ := expandTabs_append text
  rw [happend, Text.expandTabsFrom_of_no_tab column probe (by decide)]

/-- The probe is found exactly if the reader comes to the end of the text. -/
theorem parse_probe (text : List Char) :
    (parse (text ++ probe)).1 =
      (parse text).1 ++ if ReadsAll text then [.unknown ['?']] else [] := by
  have hprobed : parse (text ++ probe) =
      (Cursor.ofText (Text.expandTabs text)).probed.statements := by
    rw [parse, expandTabs_probe]
    rfl
  rw [hprobed, Cursor.statements_probed]
  simp only [readsAll_iff]
  rfl

/-- If the reader leaves more than a gap, it stops in front of a space character that is no gap. -/
theorem exists_space_of_not_readsAll {text : List Char} (h : ¬ ReadsAll text) :
    ∃ a rest, (parse text).2.skip.rest = a :: rest ∧ Text.isSpace a ∧ Cursor.isGap a = false := by
  rw [readsAll_iff] at h
  obtain ⟨a, rest, hrest⟩ := List.exists_cons_of_ne_nil h
  have hgap := (parse text).2.stops_skip
  rw [hrest] at hgap
  exact ⟨a, rest, hrest, Cursor.isSpace_of_item_eq_none (Cursor.item_statements _) hrest,
    stops_cons.1 hgap⟩

/-- A text whose space characters are all gaps is read to its end. -/
theorem readsAll_of_gaps {text : List Char} (h : ∀ a ∈ text, Text.isSpace a → Cursor.isGap a) :
    ReadsAll text := by
  by_contra hread
  obtain ⟨a, rest, hrest, hspace, hgap⟩ := exists_space_of_not_readsAll hread
  have hmem : a ∈ Text.expandTabs text := by
    have hunread : a ∈ (parse text).2.rest :=
      (Cursor.suffix_skip _).subset (by rw [hrest]; exact List.mem_cons_self)
    exact (Cursor.suffix_statements _).subset hunread
  obtain ⟨-, hkeep⟩ := expandTabs_append text
  have hall := hkeep (fun a => Text.isSpace a → Cursor.isGap a) (fun _ => rfl) h a hmem hspace
  rw [hgap] at hall
  cases hall

namespace Draft

variable {d d' : Draft} {ss ss' : List Statement}

theorem addAll_append (h : d.addAll ss = .ok () d') : d.addAll (ss ++ ss') = d'.addAll ss' := by
  induction ss generalizing d with
  | nil =>
    cases h
    rfl
  | cons s ss ih =>
    rw [List.cons_append, addAll]
    rw [addAll] at h
    split at h
    · exact ih h
    · cases h

end Draft

/-- What is left unread is not noticed. A text that can be assembled is refused with the probe
behind it exactly if the reader comes to its end. Otherwise the reader stops in front of a space
character that is no gap, and the text is assembled as if it ended there; this does not happen to a
text whose space characters are all gaps. -/
theorem assemble_probe {text : List Char} {s : String} (h : assemble false text = .ok s) :
    (ReadsAll text → assemble false (text ++ probe) = .error (.unknown ['?'])) ∧
    (¬ ReadsAll text → assemble false (text ++ probe) = .ok s ∧
      ∃ a rest, (parse text).2.skip.rest = a :: rest ∧ Text.isSpace a ∧
        Cursor.isGap a = false) ∧
    ((∀ a ∈ text, Text.isSpace a → Cursor.isGap a) → ReadsAll text) := by
  have hprobe := parse_probe text
  refine ⟨fun hread => ?_, fun hread => ⟨?_, exists_space_of_not_readsAll hread⟩,
    readsAll_of_gaps⟩
  · obtain ⟨d, hdraft, -⟩ := draft_of_assemble h
    have hrefused : draft (text ++ probe) = .error (.unknown ['?']) d := by
      rw [draft, hprobe, if_pos hread, Draft.addAll_append hdraft]
      rfl
    simp only [assemble, assembleLogged, hrefused]
  · have hdraft : draft (text ++ probe) = draft text := by
      rw [draft, hprobe, if_neg hread, List.append_nil, draft]
    rw [← h]
    simp only [assemble, assembleLogged, hdraft]

/-- Behind a comment the probe is noticed. -/
theorem assemble_probe_comment :
    assemble false "dup // twice".toList = .ok " \n " ∧ ReadsAll "dup // twice".toList ∧
      assemble false ("dup // twice".toList ++ probe) = .error (.unknown ['?']) := by
  have hassemble : assemble false "dup // twice".toList = .ok " \n " := by decide +kernel
  have hall : ReadsAll "dup // twice".toList := by decide +kernel
  obtain ⟨hrefused, -⟩ := assemble_probe hassemble
  exact ⟨hassemble, hall, hrefused hall⟩

/-- Behind a form feed a command is ignored, and so is the probe. -/
theorem assemble_formFeed :
    assemble false "push 1\x0cdup".toList = .ok "   \t\n" ∧
      ¬ ReadsAll "push 1\x0cdup".toList ∧
      assemble false ("push 1\x0cdup".toList ++ probe) = .ok "   \t\n" := by
  decide +kernel

end Whitespace.Assembly
