import Whitespace.Proofs.Assembly.Tokens

/-!
# Layouts of assembly text

A list of statements can be laid out in many ways: gaps of any size between tokens, comments
anywhere between statements, labels on lines of their own or not. Replacing tabs by spaces leads
from one layout of the statements to another one.

## Main definitions

* `Spelled` — the texts of a command.
* `Layout` — the texts of a list of statements.

## Main statements

* `Layout.expandTabs` — a layout stays one when its tabs are replaced.
-/

namespace Whitespace.Assembly

/-- The texts of a command: its mnemonic, and behind a gap the operand. -/
inductive Spelled : Statement → List Char → Prop where
  | plain {op : Opcode} (hkind : op.operandKind = .none) : Spelled (.plain op) op.mnemonic.toList
  | number {op : Opcode} {g sign digits : List Char} {negative : Bool}
      (hkind : op.operandKind = .number) (hne : g ≠ []) (hg : ∀ a ∈ g, Cursor.isGap a)
      (hsign : Cursor.IsSign negative sign) (hdne : digits ≠ [])
      (hdigits : ∀ a ∈ digits, Decimal.isDigit a) :
      Spelled (.number op negative digits) (op.mnemonic.toList ++ (g ++ (sign ++ digits)))
  | name {op : Opcode} {g w : List Char} (hkind : op.operandKind = .label) (hne : g ≠ [])
      (hg : ∀ a ∈ g, Cursor.isGap a) (hw : IsName w) :
      Spelled (if op = .mark then .mark (String.ofList w) else .jump op (String.ofList w))
        (op.mnemonic.toList ++ (g ++ w))

/-- A text that ends a statement in front of it: it starts with a gap or a comment, if it starts at
all. -/
def Separate (t : List Char) : Prop := Stops (!Cursor.isGap ·) t ∨ ∃ v, t = '/' :: '/' :: v

/-- The texts of a list of statements. Gaps and comments may stand in front of every statement and
behind the last one, and a gap may stand in front of the colon of a label; a label is not called
like a mnemonic. -/
inductive Layout : List Statement → List Char → Prop where
  | done : Layout [] []
  | gap {a : Char} {t : List Char} {ss : List Statement} (ha : Cursor.isGap a) (h : Layout ss t) :
      Layout ss (a :: t)
  | comment {text t : List Char} {ss : List Statement} (htext : '\n' ∉ text)
      (ht : Stops (· ≠ '\n') t) (h : Layout ss t) : Layout ss ('/' :: '/' :: (text ++ t))
  | label {w g t : List Char} {ss : List Statement} (hw : IsName w)
      (hfree : Opcode.ofMnemonic? (String.ofList w) = none) (hg : ∀ a ∈ g, Cursor.isGap a)
      (ht : Separate t) (h : Layout ss t) :
      Layout (.mark (String.ofList w) :: ss) (w ++ (g ++ ':' :: t))
  | command {s : Statement} {w t : List Char} {ss : List Statement} (hs : Spelled s w)
      (ht : Separate t) (h : Layout ss t) : Layout (s :: ss) (w ++ t)

theorem Separate.stops {t : List Char} (h : Separate t) : Stops isWordChar t := by
  rcases h with h | ⟨v, rfl⟩
  · intro a ha
    exact not_isWordChar_of_isGap (by simpa using h a ha)
  · exact stops_cons.2 (by decide)

/-- A word ends in front of a gap. -/
theorem stops_gap {g t : List Char} (hne : g ≠ []) (hg : ∀ a ∈ g, Cursor.isGap a) :
    Stops isWordChar (g ++ t) := by
  obtain ⟨a, v, rfl⟩ := List.exists_cons_of_ne_nil hne
  exact stops_cons.2 (not_isWordChar_of_isGap (hg a List.mem_cons_self))

theorem Spelled.startsName {s : Statement} {w : List Char} (h : Spelled s w) (t : List Char) :
    StartsName (w ++ t) := by
  cases h with
  | plain => exact (isName_mnemonic _).startsName t
  | number =>
    rw [List.append_assoc]
    exact (isName_mnemonic _).startsName _
  | name =>
    rw [List.append_assoc]
    exact (isName_mnemonic _).startsName _

theorem Layout.gaps {ss : List Statement} {g t : List Char} (hg : ∀ a ∈ g, Cursor.isGap a)
    (h : Layout ss t) : Layout ss (g ++ t) := by
  induction g with
  | nil => exact h
  | cons a g ih =>
    obtain ⟨ha, hg⟩ := List.forall_mem_cons.1 hg
    exact .gap ha (ih hg)

/-! ## Tabs -/

/-- The tabs of a text can be replaced part by part. A part keeps its characters, spaces apart, and
stays as it is if it has no tab. -/
theorem expandTabsFrom_append (column : Nat) (u : List Char) :
    ∃ u' column', (∀ t, Text.expandTabsFrom column (u ++ t) =
        u' ++ Text.expandTabsFrom column' t) ∧
      (∀ p : Char → Prop, p ' ' → (∀ a ∈ u, p a) → ∀ a ∈ u', p a) ∧
      ('\t' ∉ u → u' = u) ∧ (u ≠ [] → u' ≠ []) := by
  induction u generalizing column with
  | nil => exact ⟨[], column, by simp⟩
  | cons a u ih =>
    by_cases ha : a = '\t'
    · subst ha
      obtain ⟨u', column', happend, hkeep, -⟩ := ih (column + (8 - column % 8))
      refine ⟨List.replicate (8 - column % 8) ' ' ++ u', column', fun t => ?_, fun p hp hall => ?_,
        by simp, fun _ => ?_⟩
      · simp [Text.expandTabsFrom, happend]
      · intro a ha
        rcases List.mem_append.1 ha with ha | ha
        · rwa [List.eq_of_mem_replicate ha]
        · exact hkeep p hp (List.forall_mem_cons.1 hall).2 a ha
      · have hlt := Nat.mod_lt column (show 0 < 8 by omega)
        simp only [ne_eq, List.append_eq_nil_iff, List.replicate_eq_nil_iff]
        omega
    · obtain ⟨u', column', happend, hkeep, hsame, -⟩ :=
        ih (if a = '\n' || a = '\r' then 0 else column + 1)
      refine ⟨a :: u', column', fun t => ?_, fun p hp hall => ?_, fun htab => ?_, by simp⟩
      · rw [List.cons_append, Text.expandTabsFrom, if_neg ha, happend, List.cons_append]
      · obtain ⟨hpa, hall⟩ := List.forall_mem_cons.1 hall
        exact List.forall_mem_cons.2 ⟨hpa, hkeep p hp hall⟩
      · rw [hsame fun hmem => htab (List.mem_cons_of_mem a hmem)]

/-- Replacing tabs up to some place does not depend on what follows, and brings in spaces only. -/
theorem expandTabs_append (text : List Char) :
    (∃ column, ∀ t, Text.expandTabs (text ++ t) =
      Text.expandTabs text ++ Text.expandTabsFrom column t) ∧
    ∀ p : Char → Prop, p ' ' → (∀ a ∈ text, p a) → ∀ a ∈ Text.expandTabs text, p a := by
  obtain ⟨text', column, happend, hkeep, -⟩ := expandTabsFrom_append 0 text
  have hsame : Text.expandTabs text = text' := by
    simpa [Text.expandTabs, Text.expandTabsFrom] using happend []
  rw [hsame]
  exact ⟨⟨column, happend⟩, hkeep⟩

theorem expandTabsFrom_cons {a : Char} (ha : a ≠ '\t') (column : Nat) (t : List Char) :
    ∃ column', Text.expandTabsFrom column (a :: t) = a :: Text.expandTabsFrom column' t :=
  ⟨_, by rw [Text.expandTabsFrom, if_neg ha]⟩

theorem Separate.expandTabs {t : List Char} (h : Separate t) (column : Nat) :
    Separate (Text.expandTabsFrom column t) := by
  rcases h with h | ⟨v, rfl⟩
  · cases t with
    | nil => exact .inl (stops_nil _)
    | cons a t =>
      have ha : Cursor.isGap a := by simpa using stops_cons.1 h
      obtain ⟨g, column', happend, hkeep, -, hne⟩ := expandTabsFrom_append column [a]
      have hg := hkeep (fun a => Cursor.isGap a) (by decide) (by simpa using ha)
      obtain ⟨b, g, rfl⟩ := List.exists_cons_of_ne_nil (hne (by simp))
      rw [← List.singleton_append, happend, List.cons_append]
      exact .inl (stops_cons.2 (by simpa using hg b List.mem_cons_self))
  · obtain ⟨column₁, h₁⟩ := expandTabsFrom_cons (a := '/') (by decide) column ('/' :: v)
    obtain ⟨column₂, h₂⟩ := expandTabsFrom_cons (a := '/') (by decide) column₁ v
    exact .inr ⟨_, by rw [h₁, h₂]⟩

theorem tab_not_mem {p : Char → Bool} {w : List Char} (hw : ∀ a ∈ w, p a) (hp : p '\t' = false) :
    '\t' ∉ w := fun hmem => Bool.false_ne_true (hp.symm.trans (hw _ hmem))

/-- A gap between two words may become wider, and the words stay. -/
theorem expandTabsFrom_operand (column : Nat) {m g v : List Char} (hm : '\t' ∉ m) (hv : '\t' ∉ v)
    (hne : g ≠ []) (hg : ∀ a ∈ g, Cursor.isGap a) :
    ∃ g' column', g' ≠ [] ∧ (∀ a ∈ g', Cursor.isGap a) ∧
      ∀ t, Text.expandTabsFrom column (m ++ (g ++ v) ++ t) =
        m ++ (g' ++ v) ++ Text.expandTabsFrom column' t := by
  obtain ⟨m', column₁, happend₁, -, hsame₁, -⟩ := expandTabsFrom_append column m
  obtain ⟨g', column₂, happend₂, hkeep, -, hne'⟩ := expandTabsFrom_append column₁ g
  obtain ⟨v', column₃, happend₃, -, hsame₃, -⟩ := expandTabsFrom_append column₂ v
  refine ⟨g', column₃, hne' hne, hkeep (fun a => Cursor.isGap a) (by decide) hg, fun t => ?_⟩
  simp only [List.append_assoc, happend₁, happend₂, happend₃, hsame₁ hm, hsame₃ hv]

theorem Spelled.expandTabs {s : Statement} {w : List Char} (h : Spelled s w) (column : Nat) :
    ∃ w' column', Spelled s w' ∧
      ∀ t, Text.expandTabsFrom column (w ++ t) = w' ++ Text.expandTabsFrom column' t := by
  have hmnemonic (op : Opcode) : '\t' ∉ op.mnemonic.toList :=
    tab_not_mem (isName_mnemonic op).2 (by decide)
  cases h with
  | @plain op hkind =>
    obtain ⟨w', column', happend, -, hsame, -⟩ :=
      expandTabsFrom_append column op.mnemonic.toList
    rw [hsame (hmnemonic op)] at happend
    exact ⟨_, column', .plain hkind, happend⟩
  | @number op g sign digits negative hkind hne hg hsign hdne hdigits =>
    have hv : '\t' ∉ sign ++ digits := by
      rw [List.mem_append, not_or]
      refine ⟨?_, tab_not_mem hdigits (by decide)⟩
      rcases hsign with ⟨-, rfl | rfl⟩ | ⟨-, rfl⟩ <;> decide
    obtain ⟨g', column', hne', hg', happend⟩ :=
      expandTabsFrom_operand column (hmnemonic op) hv hne hg
    exact ⟨_, column', .number hkind hne' hg' hsign hdne hdigits, happend⟩
  | @name op g w hkind hne hg hw =>
    obtain ⟨g', column', hne', hg', happend⟩ :=
      expandTabsFrom_operand column (hmnemonic op) (tab_not_mem hw.2 (by decide)) hne hg
    exact ⟨_, column', .name hkind hne' hg' hw, happend⟩

/-- Replacing tabs leads from a layout to a layout of the same statements. -/
theorem Layout.expandTabs {ss : List Statement} {t : List Char} (h : Layout ss t) (column : Nat) :
    Layout ss (Text.expandTabsFrom column t) := by
  induction h generalizing column with
  | done => exact .done
  | @gap a t ss ha h ih =>
    obtain ⟨g, column', happend, hkeep, -⟩ := expandTabsFrom_append column [a]
    rw [← List.singleton_append, happend]
    exact (ih column').gaps (hkeep (fun a => Cursor.isGap a) (by decide) (by simpa using ha))
  | @comment text t ss htext ht h ih =>
    obtain ⟨column₁, h₁⟩ := expandTabsFrom_cons (a := '/') (by decide) column ('/' :: (text ++ t))
    obtain ⟨column₂, h₂⟩ := expandTabsFrom_cons (a := '/') (by decide) column₁ (text ++ t)
    obtain ⟨text', column₃, happend, hkeep, -⟩ := expandTabsFrom_append column₂ text
    have htext' := hkeep (· ≠ '\n') (by decide) fun a ha hfeed => htext (hfeed ▸ ha)
    rw [h₁, h₂, happend]
    refine .comment (fun hmem => htext' _ hmem rfl) ?_ (ih column₃)
    cases t with
    | nil => exact stops_nil _
    | cons a t =>
      have ha : a = '\n' := by simpa using stops_cons.1 ht
      subst ha
      obtain ⟨column₄, h₄⟩ := expandTabsFrom_cons (a := '\n') (by decide) column₃ t
      rw [h₄]
      exact stops_cons.2 (by decide)
  | @label w g t ss hw hfree hg ht h ih =>
    have hno : '\t' ∉ w := tab_not_mem hw.2 (by decide)
    obtain ⟨w', column₁, happend₁, -, hsame, -⟩ := expandTabsFrom_append column w
    obtain ⟨g', column₂, happend₂, hkeep, -⟩ := expandTabsFrom_append column₁ g
    obtain ⟨column₃, h₃⟩ := expandTabsFrom_cons (a := ':') (by decide) column₂ t
    rw [happend₁, hsame hno, happend₂, h₃]
    exact .label hw hfree (hkeep (fun a => Cursor.isGap a) (by decide) hg) (ht.expandTabs column₃)
      (ih column₃)
  | @command s w t ss hs ht h ih =>
    obtain ⟨w', column', hs', happend⟩ := hs.expandTabs column
    rw [happend]
    exact .command hs' (ht.expandTabs column') (ih column')

end Whitespace.Assembly
