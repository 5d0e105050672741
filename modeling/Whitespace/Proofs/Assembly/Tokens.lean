import Whitespace.Assembly.Parser

/-!
# Tokens at a place

What the reader finds where a token stands: gaps in front of it are passed over, and the token ends
where a character follows that cannot belong to it.

## Main definitions

* `Stops` — a text does not go on with a character of a class.
* `IsName`, `StartsName` — the texts of names, and what starts like one.
* `Cursor.At` — the cursor stands at a given place in front of a given text.

## Main statements

* `Cursor.item_skip` — a gap in front of an item makes no difference.
* `Cursor.At.name`, `Cursor.At.keyword`, `Cursor.At.number`, `Cursor.At.comment` — reading a token
  that is there.
-/

namespace Whitespace.Assembly

/-- A text does not go on with a character of the class. -/
def Stops (p : Char → Bool) (t : List Char) : Prop := ∀ a ∈ t.head?, p a = false

theorem stops_nil (p : Char → Bool) : Stops p [] := by simp [Stops]

theorem stops_cons {p : Char → Bool} {a : Char} {t : List Char} : Stops p (a :: t) ↔ p a = false := by
  simp [Stops]

theorem Stops.imp {p q : Char → Bool} {t : List Char} (h : Stops q t) (hpq : ∀ a, p a → q a) :
    Stops p t := by
  intro a ha
  cases hp : p a with
  | false => rfl
  | true => exact absurd (hpq a hp) (by simp [h a ha])

theorem takeWhile_append_of_stops {p : Char → Bool} {w t : List Char} (hw : ∀ a ∈ w, p a)
    (ht : Stops p t) : (w ++ t).takeWhile p = w := by
  rw [List.takeWhile_append_of_pos hw]
  cases t with
  | nil => simp
  | cons a t => simp [stops_cons.1 ht]

theorem dropWhile_append_of_stops {p : Char → Bool} {w t : List Char} (hw : ∀ a ∈ w, p a)
    (ht : Stops p t) : (w ++ t).dropWhile p = t := by
  rw [List.dropWhile_append_of_pos hw]
  cases t with
  | nil => simp
  | cons a t => simp [stops_cons.1 ht]

/-! ## Classes of characters -/

/-- The texts of names. -/
def IsName (w : List Char) : Prop := w.head?.any isNameStart ∧ ∀ a ∈ w, isNameChar a

instance (w : List Char) : Decidable (IsName w) :=
  decidable_of_iff ((w.head?.any isNameStart && w.all isNameChar) = true) (by simp [IsName])

theorem isGap_iff {a : Char} :
    Cursor.isGap a ↔ a = ' ' ∨ a = '\t' ∨ a = '\n' ∨ a = '\r' := by
  simp [Cursor.isGap, or_assoc]

theorem not_isWordChar_of_isGap {a : Char} (h : Cursor.isGap a) : isWordChar a = false := by
  rcases isGap_iff.1 h with rfl | rfl | rfl | rfl <;> decide

theorem isSpace_of_isGap {a : Char} (h : Cursor.isGap a) : Text.isSpace a := by
  rcases isGap_iff.1 h with rfl | rfl | rfl | rfl <;> decide

theorem isWordChar_of_isNameChar {a : Char} (h : isNameChar a) : isWordChar a := by
  simp [isWordChar, h]

theorem isNameChar_of_isNameStart {a : Char} (h : isNameStart a) : isNameChar a := by
  simp only [isNameStart, Bool.or_eq_true] at h
  simp only [isNameChar, Char.isAlphanum, Bool.or_eq_true]
  exact h.imp_left .inl

theorem not_isGap_of_isWordChar {a : Char} (h : isWordChar a) : Cursor.isGap a = false := by
  cases hgap : Cursor.isGap a with
  | false => rfl
  | true => simp [not_isWordChar_of_isGap hgap] at h

theorem not_isGap_of_isDigit {a : Char} (h : Decimal.isDigit a) : Cursor.isGap a = false := by
  cases hgap : Cursor.isGap a with
  | false => rfl
  | true => rcases isGap_iff.1 hgap with rfl | rfl | rfl | rfl <;> simp [Decimal.isDigit] at h

theorem Stops.nameChar {t : List Char} (h : Stops isWordChar t) : Stops isNameChar t :=
  h.imp fun _ => isWordChar_of_isNameChar

/-- A word ends in front of a colon, and in front of a gap before the colon. -/
theorem stops_colon {g t : List Char} (hg : ∀ a ∈ g, Cursor.isGap a) :
    Stops isWordChar (g ++ ':' :: t) := by
  cases g with
  | nil => exact stops_cons.2 (by decide)
  | cons a g => exact stops_cons.2 (not_isWordChar_of_isGap (hg a List.mem_cons_self))

theorem isNameChar_of_isDigit {a : Char} (h : Decimal.isDigit a) : isNameChar a := by
  have : a.isDigit := by simpa [Decimal.isDigit, Char.isDigit, Char.le_def] using h
  simp [isNameChar, Char.isAlphanum, this]

theorem ne_feed_of_not_isSpace {a : Char} (h : !Text.isSpace a) : decide (a ≠ '\n') := by
  refine decide_eq_true ?_
  rintro rfl
  simp [Text.isSpace] at h

theorem isName_mnemonic (op : Opcode) : IsName op.mnemonic.toList := by
  cases op <;> decide

/-- A text that starts like a name. -/
def StartsName (t : List Char) : Prop := ∃ a v, t = a :: v ∧ isNameStart a

theorem IsName.startsName {w : List Char} (h : IsName w) (t : List Char) : StartsName (w ++ t) := by
  cases w with
  | nil => simp [IsName] at h
  | cons a v => exact ⟨a, v ++ t, rfl, by simpa [IsName] using h.1⟩

namespace StartsName

variable {t : List Char}

theorem ne_nil (h : StartsName t) : t ≠ [] := by
  obtain ⟨a, v, rfl, -⟩ := h
  simp

theorem stops_gap (h : StartsName t) : Stops Cursor.isGap t := by
  obtain ⟨a, v, rfl, ha⟩ := h
  exact stops_cons.2
    (not_isGap_of_isWordChar (isWordChar_of_isNameChar (isNameChar_of_isNameStart ha)))

theorem stops_eq (h : StartsName t) {b : Char} (hb : isNameStart b = false) : Stops (· = b) t := by
  obtain ⟨a, v, rfl, ha⟩ := h
  refine stops_cons.2 (decide_eq_false ?_)
  rintro rfl
  simp [hb] at ha

end StartsName

namespace Cursor

/-- The cursor stands `n` characters from the start, in front of `t`. -/
structure At (c : Cursor) (n : Nat) (t : List Char) : Prop where
  position : c.position = n
  rest : c.rest = t

variable {c : Cursor} {n : Nat} {g w t : List Char} {a : Char} {p : Char → Bool}

theorem At.span (hc : c.At n (w ++ t)) (hw : ∀ a ∈ w, p a) (ht : Stops p t) :
    ∃ c', c.span p = (w, c') ∧ c'.At (n + w.length) t := by
  obtain ⟨rfl, hrest⟩ := hc
  have htake := takeWhile_append_of_stops hw ht
  have hdrop := dropWhile_append_of_stops hw ht
  refine ⟨(c.span p).2, ?_, ?_, ?_⟩
  · simp [Cursor.span, hrest, htake]
  · simp [Cursor.span, hrest, htake]
  · simp [Cursor.span, hrest, hdrop]

/-! ## Gaps -/

theorem skip_of_stops (h : Stops isGap c.rest) : c.skip = c := by
  obtain ⟨position, before, rest⟩ := c
  cases rest with
  | nil => rfl
  | cons a t =>
    have ha : isGap a = false := stops_cons.1 h
    simp [skip, Cursor.span, ha]

theorem stops_skip (c : Cursor) : Stops isGap c.skip.rest := by
  intro a ha
  have h := List.head?_dropWhile_not isGap c.rest
  simp only [skip, Cursor.span] at ha
  rw [Option.mem_def.1 ha] at h
  simpa using h

@[simp] theorem skip_skip (c : Cursor) : c.skip.skip = c.skip := skip_of_stops c.stops_skip

/-- Skipping can start behind the first character of a gap. -/
theorem skip_cons (hrest : c.rest = a :: t) (ha : isGap a) :
    c.skip = (Cursor.mk (c.position + 1) (some a) t).skip := by
  obtain ⟨position, before, rest⟩ := c
  subst hrest
  have hlast : ((a :: t.takeWhile isGap).getLast?.or before) =
      (t.takeWhile isGap).getLast?.or (some a) := by
    cases hrow : (t.takeWhile isGap).getLast? <;> simp [List.getLast?_cons, hrow]
  simp [skip, Cursor.span, ha, hlast, Nat.add_assoc, Nat.add_comm 1]

theorem At.skip_gap {a : Char} (hc : c.At n (a :: t)) (ha : isGap a) :
    ∃ c₁ : Cursor, c.skip = c₁.skip ∧ c₁.At (n + 1) t ∧ c₁.before = some a := by
  obtain ⟨rfl, hrest⟩ := hc
  exact ⟨_, skip_cons hrest ha, ⟨rfl, rfl⟩, rfl⟩

theorem At.skip (hc : c.At n (g ++ t)) (hg : ∀ a ∈ g, isGap a) (ht : Stops isGap t) :
    c.skip.At (n + g.length) t := by
  obtain ⟨c', hspan, hc'⟩ := hc.span hg ht
  rw [Cursor.skip, hspan]
  exact hc'

/-- Whatever is read, gaps in front of it make no difference. -/
@[simp] theorem symbol_skip (a : Char) (c : Cursor) : c.skip.symbol a = c.symbol a := by
  simp only [symbol, skip_skip]

@[simp] theorem name_skip (c : Cursor) : c.skip.name = c.name := by
  simp only [name, skip_skip]

@[simp] theorem keyword_skip (c : Cursor) : c.skip.keyword = c.keyword := by
  simp only [keyword, skip_skip]

@[simp] theorem label_skip (c : Cursor) : c.skip.label = c.label := by
  simp only [label, name_skip]

@[simp] theorem command_skip (c : Cursor) : c.skip.command = c.command := by
  simp only [command, keyword_skip]

@[simp] theorem comment_skip (c : Cursor) : c.skip.comment = c.comment := by
  simp only [comment, skip_skip]

@[simp] theorem statement_skip (c : Cursor) : c.skip.statement = c.statement := by
  simp only [statement, label_skip, command_skip]

@[simp] theorem unknown_skip (c : Cursor) : c.skip.unknown = c.unknown := by
  simp only [unknown, skip_skip]

@[simp] theorem item_skip (c : Cursor) : c.skip.item = c.item := by
  simp only [item, statement_skip, comment_skip, unknown_skip]

/-! ## Tokens that are there -/

/-- A name behind a gap. -/
theorem At.name (hc : c.At n (g ++ (w ++ t))) (hg : ∀ a ∈ g, isGap a) (hw : IsName w)
    (ht : Stops isNameChar t) :
    ∃ c', c.name = some (String.ofList w, c') ∧ c'.At (n + (g.length + w.length)) t := by
  have hstart := hw.startsName t
  have hskip := hc.skip hg hstart.stops_gap
  obtain ⟨c', hspan, hc'⟩ := hskip.span hw.2 ht
  refine ⟨c', ?_, by rwa [← Nat.add_assoc]⟩
  obtain ⟨a, v, hv, ha⟩ := hstart
  simp only [Cursor.name, hskip.rest, hv, ha, if_true, hspan]

/-- A mnemonic that no word character touches. -/
theorem At.keyword {op : Opcode} (hc : c.At n (op.mnemonic.toList ++ t))
    (hbefore : c.before.any isWordChar = false) (ht : Stops isWordChar t) :
    ∃ c', c.keyword = some (op, c') ∧ c'.At (n + op.mnemonic.toList.length) t := by
  have hname := isName_mnemonic op
  have hword : ∀ a ∈ op.mnemonic.toList, isWordChar a := fun a ha =>
    isWordChar_of_isNameChar (hname.2 a ha)
  have hskip : c.skip = c := skip_of_stops (by rw [hc.rest]; exact (hname.startsName t).stops_gap)
  obtain ⟨c', hspan, hc'⟩ := hc.span hword ht
  refine ⟨c', ?_, hc'⟩
  simp only [Cursor.keyword, hskip, hbefore, Bool.false_eq_true, if_false, hspan,
    String.ofList_toList, Opcode.ofMnemonic?_mnemonic]

/-- A label that is there is read up to its colon. -/
theorem At.label (hc : c.At n (w ++ (g ++ ':' :: t))) (hw : IsName w) (hg : ∀ a ∈ g, isGap a) :
    ∃ c', c.label = some (String.ofList w, c') ∧ c'.At (n + (w.length + (g.length + 1))) t ∧
      c'.before = some ':' := by
  obtain ⟨c₁, hname, hc₁⟩ := At.name (g := []) hc (by simp) hw (stops_colon hg).nameChar
  have hskip := hc₁.skip hg (stops_cons.2 (by decide))
  refine ⟨⟨c₁.skip.position + 1, some ':', t⟩, ?_, ⟨?_, rfl⟩, rfl⟩
  · simp [Cursor.label, hname, symbol, next?, hskip.rest]
  · rw [hskip.position, List.length_nil, Nat.zero_add]
    simp only [Nat.add_assoc]

/-- The ways to write a sign. -/
def IsSign (negative : Bool) (sign : List Char) : Prop :=
  (negative = false ∧ (sign = [] ∨ sign = ['+'])) ∨ (negative = true ∧ sign = ['-'])

/-- The sign that numbers are written with. -/
theorem isSign_decimal (v : Int) : IsSign (decide (v < 0)) (if v < 0 then ['-'] else []) := by
  by_cases hv : v < 0 <;> simp [IsSign, hv]

theorem At.sign {negative : Bool} {sign : List Char} (hc : c.At n (sign ++ t))
    (hsign : IsSign negative sign) (ht : ∃ a v, t = a :: v ∧ Decimal.isDigit a) :
    ∃ c', c.sign = (negative, c') ∧ c'.At (n + sign.length) t := by
  obtain ⟨position, before, rest⟩ := c
  obtain ⟨rfl, rfl⟩ := hc
  rcases hsign with ⟨rfl, rfl | rfl⟩ | ⟨rfl, rfl⟩
  · obtain ⟨a, v, rfl, ha⟩ := ht
    refine ⟨⟨position, before, a :: v⟩, ?_, rfl, rfl⟩
    have hminus : a ≠ '-' := by
      rintro rfl
      simp [Decimal.isDigit] at ha
    have hplus : a ≠ '+' := by
      rintro rfl
      simp [Decimal.isDigit] at ha
    simp [Cursor.sign, next?, hminus, hplus]
  · exact ⟨_, rfl, rfl, rfl⟩
  · exact ⟨_, rfl, rfl, rfl⟩

/-- What a number can start with. -/
theorem IsSign.stops {negative : Bool} {sign digits : List Char} (hsign : IsSign negative sign)
    (hne : digits ≠ []) (hdigits : ∀ a ∈ digits, Decimal.isDigit a)
    (hp : ∀ a, a = '+' ∨ a = '-' ∨ Decimal.isDigit a → p a = false) :
    Stops p (sign ++ (digits ++ t)) := by
  rcases hsign with ⟨-, rfl | rfl⟩ | ⟨-, rfl⟩
  · obtain ⟨a, v, rfl⟩ := List.exists_cons_of_ne_nil hne
    exact stops_cons.2 (hp a (.inr (.inr (hdigits a List.mem_cons_self))))
  · exact stops_cons.2 (hp '+' (.inl rfl))
  · exact stops_cons.2 (hp '-' (.inr (.inl rfl)))

theorem IsSign.stops_gap {negative : Bool} {sign digits : List Char} (hsign : IsSign negative sign)
    (hne : digits ≠ []) (hdigits : ∀ a ∈ digits, Decimal.isDigit a) :
    Stops isGap (sign ++ (digits ++ t)) := by
  refine hsign.stops hne hdigits ?_
  rintro a (rfl | rfl | ha)
  · decide
  · decide
  · exact not_isGap_of_isDigit ha

theorem IsSign.stops_eq {negative : Bool} {sign digits : List Char} (hsign : IsSign negative sign)
    (hne : digits ≠ []) (hdigits : ∀ a ∈ digits, Decimal.isDigit a) {b : Char}
    (hb : b ≠ '+' ∧ b ≠ '-' ∧ Decimal.isDigit b = false) :
    Stops (· = b) (sign ++ (digits ++ t)) := by
  refine hsign.stops hne hdigits fun a ha => decide_eq_false ?_
  rintro rfl
  simp [hb] at ha

/-- A decimal number behind a gap. -/
theorem At.number {negative : Bool} {sign digits : List Char}
    (hc : c.At n (g ++ (sign ++ (digits ++ t)))) (hg : ∀ a ∈ g, isGap a)
    (hsign : IsSign negative sign) (hne : digits ≠ []) (hdigits : ∀ a ∈ digits, Decimal.isDigit a)
    (ht : Stops Decimal.isDigit t) :
    ∃ c', c.number = some ((negative, digits), c') ∧
      c'.At (n + (g.length + (sign.length + digits.length))) t := by
  have hgap : Stops isGap (sign ++ (digits ++ t)) := hsign.stops_gap hne hdigits
  obtain ⟨a, v, rfl⟩ := List.exists_cons_of_ne_nil hne
  have ha : Decimal.isDigit a := hdigits a List.mem_cons_self
  obtain ⟨c₁, hsigned, hc₁⟩ := (hc.skip hg hgap).sign hsign ⟨a, v ++ t, rfl, ha⟩
  obtain ⟨c₂, hspan, hc₂⟩ := hc₁.span hdigits ht
  refine ⟨c₂, ?_, by simpa only [Nat.add_assoc] using hc₂⟩
  simp [Cursor.number, hsigned, hspan]

/-- A comment, up to the end of its line. -/
theorem At.comment {text : List Char} (hc : c.At n ('/' :: '/' :: (text ++ t)))
    (htext : '\n' ∉ text) (ht : Stops (· ≠ '\n') t) :
    ∃ c', c.comment = some c' ∧ c'.At (n + (text.length + 2)) t := by
  have hskip : c.skip = c := by
    refine skip_of_stops ?_
    rw [hc.rest]
    exact stops_cons.2 (by decide)
  have hrow : ∀ a ∈ '/' :: '/' :: text, decide (a ≠ '\n') := by
    intro a ha
    simp only [List.mem_cons] at ha
    rcases ha with rfl | rfl | ha
    · decide
    · decide
    · exact decide_eq_true fun h => htext (h ▸ ha)
  obtain ⟨c', hspan, hc'⟩ := At.span (w := '/' :: '/' :: text) hc hrow ht
  refine ⟨c', ?_, hc'⟩
  simp only [Cursor.comment, hskip, hc.rest, hspan]

/-! ## Tokens that are not there -/

theorem symbol_eq_none (hc : c.At n (g ++ t)) (hg : ∀ a ∈ g, isGap a) (hgap : Stops isGap t)
    (ht : Stops (· = a) t) : c.symbol a = none := by
  have hskip := hc.skip hg hgap
  unfold symbol
  cases t with
  | nil => simp [next?, hskip.rest]
  | cons b t =>
    have hne : b ≠ a := by simpa using stops_cons.1 ht
    simp [next?, hskip.rest, hne]

theorem name_eq_none (hc : c.At n t) (hgap : Stops isGap t) (ht : Stops isNameStart t) :
    c.name = none := by
  have hskip : c.skip = c := skip_of_stops (by rwa [hc.rest])
  unfold Cursor.name
  rw [hskip, hc.rest]
  cases t with
  | nil => rfl
  | cons a t => simp [stops_cons.1 ht]

theorem keyword_eq_none (hc : c.At n (w ++ t)) (hgap : Stops isGap (w ++ t))
    (hw : ∀ a ∈ w, isWordChar a) (ht : Stops isWordChar t)
    (hnone : Opcode.ofMnemonic? (String.ofList w) = none) : c.keyword = none := by
  have hskip : c.skip = c := skip_of_stops (by rwa [hc.rest])
  obtain ⟨c', hspan, -⟩ := hc.span hw ht
  unfold Cursor.keyword
  simp only [hskip, hspan, hnone, ite_self]

theorem comment_eq_none (hc : c.At n t) (hgap : Stops isGap t) (ht : Stops (· = '/') t) :
    c.comment = none := by
  have hskip : c.skip = c := skip_of_stops (by rwa [hc.rest])
  unfold Cursor.comment
  rw [hskip, hc.rest]
  split
  · simp [stops_cons] at ht
  · rfl

/-! ## Comments, words and items -/

variable {c' : Cursor}

theorem comments_of_some (h : c.comment = some c') : c.comments = c'.comments := by
  rw [Cursor.comments]
  split
  · next e =>
    rw [h] at e
    cases e
    rfl
  · next e =>
    rw [h] at e
    cases e

theorem comments_of_none (h : c.comment = none) : c.comments = c := by
  rw [Cursor.comments]
  split
  · next e =>
    rw [h] at e
    cases e
  · rfl

/-- A comment goes up to the end of its line. -/
theorem At.comment_slashes {v : List Char} (hc : c.At n ('/' :: '/' :: v)) :
    ∃ c', c.comment = some c' ∧
      c'.position = n + (('/' :: '/' :: v).takeWhile (· ≠ '\n')).length := by
  have hskip : c.skip = c := skip_of_stops (by rw [hc.rest]; exact stops_cons.2 (by decide))
  refine ⟨(c.span (· ≠ '\n')).2, by simp only [Cursor.comment, hskip, hc.rest], ?_⟩
  simp only [Cursor.span, hc.rest, hc.position]

theorem position_le_comment (h : c.comment = some c') : c.position ≤ c'.position := by
  unfold Cursor.comment at h
  split at h
  · cases h
    simp only [Cursor.span, skip]
    omega
  · cases h

theorem stops_comment (h : c.comment = some c') : Stops (· ≠ '\n') c'.rest := by
  unfold Cursor.comment at h
  split at h
  · cases h
    intro a ha
    have hhead := List.head?_dropWhile_not (· ≠ '\n') c.skip.rest
    simp only [Cursor.span] at ha
    rw [Option.mem_def.1 ha] at hhead
    simpa using hhead
  · cases h

theorem position_le_comments (c : Cursor) : c.position ≤ c.comments.position := by
  fun_induction Cursor.comments c with
  | case1 c c' hcomment ih => exact Nat.le_trans (position_le_comment hcomment) ih
  | case2 => exact Nat.le_refl _

theorem At.position_unknown (hc : c.At n t) (hgap : Stops isGap t) {r : List Statement × Cursor}
    (h : c.unknown = some r) :
    r.2.position = n + (t.takeWhile (!Text.isSpace ·)).length := by
  have hskip : c.skip = c := skip_of_stops (by rwa [hc.rest])
  simp only [unknown, hskip] at h
  split at h
  · cases h
  · cases h
    simp only [Cursor.span, hc.rest, hc.position]

theorem statements_of_some {ss : List Statement} (h : c.item = some (ss, c')) :
    c.statements = (ss ++ c'.statements.1, c'.statements.2) := by
  rw [Cursor.statements]
  split
  · next e =>
    rw [h] at e
    cases e
    rfl
  · next e =>
    rw [h] at e
    cases e

theorem statements_of_none (h : c.item = none) : c.statements = ([], c) := by
  rw [Cursor.statements]
  split
  · next e =>
    rw [h] at e
    cases e
  · rfl

end Cursor

end Whitespace.Assembly
