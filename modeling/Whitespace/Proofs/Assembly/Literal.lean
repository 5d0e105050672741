import Whitespace.Proofs.Assembly.FirstPass

/-!
# Character literals

A character between quotes stands for itself, apart from the quote, the backslash and the ends of
lines. But tabs are replaced before the text is read, also between quotes: a tab becomes as many
spaces as there are columns up to the next multiple of eight. Where this is one space, the literal
means the space; elsewhere it is no single character.

## Main definitions

* `PlainBody` — a text that can stand between quotes as it is.
* `literalText` — a command with a literal, behind spaces.

## Main statements

* `Cursor.At.literal`, `Cursor.At.command_literal` — reading a literal that is there.
* `statements_literalText` — what the reader finds in such a text.
* `expandTabs_literalText` — what becomes of a tab between quotes.
* `assemble_literal` — a literal means its character, unless it is a tab.
-/

namespace Whitespace.Assembly

/-- The text can stand between quotes as it is. -/
def PlainBody (body : List Char) : Prop :=
  ∀ a ∈ body, a ≠ '\'' ∧ a ≠ '\\' ∧ a ≠ '\n' ∧ a ≠ '\r'

theorem literalBody?_of_plain {body : List Char} (h : PlainBody body) (t : List Char) :
    literalBody? (body ++ '\'' :: t) = some (body, t) := by
  induction body with
  | nil => rfl
  | cons a body ih =>
    obtain ⟨⟨hquote, hback, hfeed, hreturn⟩, hbody⟩ := List.forall_mem_cons.1 h
    rw [List.cons_append, literalBody?, ih hbody]
    · simp [hback, hfeed, hreturn]
    · exact hquote
    · exact fun _ _ hcontra => absurd hcontra hback

theorem unescape_of_plain {body : List Char} (h : PlainBody body) : unescape body = body := by
  induction body with
  | nil => rw [unescape]
  | cons a body ih =>
    obtain ⟨⟨-, hback, -⟩, hbody⟩ := List.forall_mem_cons.1 h
    rw [unescape, if_neg hback, ih hbody]

namespace Cursor

variable {c : Cursor} {n : Nat} {g body t : List Char} {op : Opcode}

/-- A literal behind a gap. -/
theorem At.literal (hc : c.At n (g ++ '\'' :: (body ++ '\'' :: t))) (hg : ∀ a ∈ g, isGap a)
    (hbody : PlainBody body) :
    ∃ c', c.literal = some (body, c') ∧ c'.At (n + (g.length + (body.length + 2))) t := by
  have hskip := hc.skip hg (stops_cons.2 (by decide))
  have hsymbol : c.symbol '\'' =
      some ⟨c.skip.position + 1, some '\'', body ++ '\'' :: t⟩ := by
    simp [symbol, next?, hskip.rest]
  refine ⟨⟨c.skip.position + 1 + body.length + 1, some '\'', t⟩, ?_, ?_, rfl⟩
  · simp only [Cursor.literal, hsymbol, literalBody?_of_plain hbody, unescape_of_plain hbody]
  · have hposition := hskip.position
    dsimp only
    omega

theorem number_eq_none (hc : c.At n (g ++ t)) (hg : ∀ a ∈ g, isGap a) (hgap : Stops isGap t)
    (hsign : Stops (fun a => a = '+' || a = '-') t) (hdigit : Stops Decimal.isDigit t) :
    c.number = none := by
  have hskip := hc.skip hg hgap
  have hsign' : c.skip.sign = (false, c.skip) := sign_of_stops (by rwa [hskip.rest])
  have hdigits : t.takeWhile Decimal.isDigit = [] := by
    simpa using takeWhile_append_of_stops (w := []) (by simp) hdigit
  simp [Cursor.number, hsign', Cursor.span, hskip.rest, hdigits]

/-- A command with a literal. -/
theorem At.command_literal (hop : op.operandKind = .number)
    (hc : c.At n (op.mnemonic.toList ++ (g ++ '\'' :: (body ++ '\'' :: t)))) (hne : g ≠ [])
    (hg : ∀ a ∈ g, isGap a) (hbody : PlainBody body)
    (hbefore : c.before.any isWordChar = false) :
    ∃ c', c.command = some (.character op body, c') ∧
      c'.At (n + (op.mnemonic.toList.length + (g.length + (body.length + 2)))) t := by
  obtain ⟨c₁, hkeyword, hc₁⟩ := hc.keyword hbefore (stops_gap hne hg)
  obtain ⟨c₂, hliteral, hc₂⟩ := hc₁.literal hg hbody
  have hnumber : c₁.number = none := by
    apply number_eq_none hc₁ hg <;> exact stops_cons.2 (by decide)
  refine ⟨c₂, ?_, by rwa [Nat.add_assoc] at hc₂⟩
  simp [Cursor.command, hkeyword, operand, hop, hnumber, hliteral, longest_cons]

/-- A mnemonic in front of a literal is no label. -/
theorem label_eq_none_of_literal
    (hc : c.At n (op.mnemonic.toList ++ (g ++ '\'' :: t))) (hne : g ≠ [])
    (hg : ∀ a ∈ g, isGap a) : c.label = none := by
  obtain ⟨c₁, hname, hc₁⟩ :=
    At.name (g := []) hc (by simp) (isName_mnemonic op) (stops_gap hne hg).nameChar
  have hcolon : c₁.symbol ':' = none := by
    apply symbol_eq_none hc₁ hg <;> exact stops_cons.2 (by decide)
  simp only [Cursor.label, hname, hcolon]

/-- A command with a literal at the end of a text is an item, and the last one. -/
theorem statements_literal (hop : op.operandKind = .number)
    (hc : c.At n (op.mnemonic.toList ++ (g ++ '\'' :: (body ++ ['\''])))) (hne : g ≠ [])
    (hg : ∀ a ∈ g, isGap a) (hbody : PlainBody body)
    (hbefore : c.before.any isWordChar = false) : c.statements.1 = [.character op body] := by
  obtain ⟨c', hcommand, hc'⟩ := hc.command_literal hop hne hg hbody hbefore
  have hend : c'.skip.rest = [] := (At.skip (g := []) hc' (by simp) (stops_nil _)).rest
  have hcomments : c'.comments = c' :=
    comments_of_none (comment_eq_none hc' (stops_nil _) (stops_nil _))
  have hstatement : c.statement = some ([.character op body], c') := by
    simp [Cursor.statement, label_eq_none_of_literal hc hne hg, hcommand, hcomments, longest_cons]
  -- no word goes beyond the end of the text
  have hitem : c.item = some ([.character op body], c') := by
    refine Layout.item_of_statement hc ((isName_mnemonic op).startsName _) hstatement ?_
    have hle := (List.takeWhile_sublist (l := op.mnemonic.toList ++
      (g ++ '\'' :: (body ++ ['\'']))) (!Text.isSpace ·)).length_le
    have hposition := hc'.position
    simp only [List.length_append, List.length_cons, List.length_nil] at hle
    omega
  rw [statements_of_some hitem, statements_of_none (Layout.item_eq_none hend)]
  rfl

end Cursor

/-! ## Whole texts -/

/-- A command with a literal, behind `n` spaces. -/
def literalText (n : Nat) (op : Opcode) (body : List Char) : List Char :=
  List.replicate n ' ' ++ (op.mnemonic.toList ++ ([' '] ++ '\'' :: (body ++ ['\''])))

theorem statements_literalText (n : Nat) {op : Opcode} (hop : op.operandKind = .number)
    {body : List Char} (hbody : PlainBody body) :
    (Cursor.ofText (literalText n op body)).statements.1 = [.character op body] := by
  have hspaces : ∀ a ∈ List.replicate n ' ', Cursor.isGap a := by
    intro a ha
    rw [List.eq_of_mem_replicate ha]
    rfl
  obtain ⟨c, hc, hfree, hsame⟩ :=
    Cursor.At.statements_gaps (c := .ofText (literalText n op body)) ⟨rfl, rfl⟩ hspaces (.inl rfl)
  have hstart := (isName_mnemonic op).startsName ([' '] ++ '\'' :: (body ++ ['\'']))
  rw [hsame]
  exact Cursor.statements_literal hop hc (by simp) (by simp [Cursor.isGap]) hbody
    (hfree.before hc hstart.stops_gap hstart.ne_nil)

/-- In front of the first tab every character of a line takes up one column. -/
theorem expandTabsFrom_line (column : Nat) {u : List Char}
    (hu : ∀ a ∈ u, a ≠ '\t' ∧ a ≠ '\n' ∧ a ≠ '\r') (t : List Char) :
    Text.expandTabsFrom column (u ++ t) = u ++ Text.expandTabsFrom (column + u.length) t := by
  induction u generalizing column with
  | nil => rfl
  | cons a u ih =>
    obtain ⟨⟨htab, hfeed, hreturn⟩, hu⟩ := List.forall_mem_cons.1 hu
    simp [Text.expandTabsFrom, htab, hfeed, hreturn, ih _ hu, Nat.add_assoc, Nat.add_comm 1]

/-- A tab between quotes becomes spaces up to the next multiple of eight columns. -/
theorem expandTabs_literalText (n : Nat) (op : Opcode) :
    Text.expandTabs (literalText n op ['\t']) =
      literalText n op (List.replicate (8 - (n + op.mnemonic.length + 2) % 8) ' ') := by
  have hline : ∀ a ∈ List.replicate n ' ' ++ (op.mnemonic.toList ++ [' ', '\'']),
      a ≠ '\t' ∧ a ≠ '\n' ∧ a ≠ '\r' := by
    intro a ha
    simp only [List.mem_append, List.mem_replicate, List.mem_cons, List.not_mem_nil, or_false] at ha
    rcases ha with ⟨-, rfl⟩ | ha | rfl | rfl
    · decide
    · have hchar := (isName_mnemonic op).2 a ha
      refine ⟨?_, ?_, ?_⟩ <;>
        · rintro rfl
          revert hchar
          decide
    · decide
    · decide
  have hsplit (body : List Char) : literalText n op body =
      (List.replicate n ' ' ++ (op.mnemonic.toList ++ [' ', '\''])) ++ (body ++ ['\'']) := by
    simp [literalText]
  rw [hsplit, hsplit, Text.expandTabs, expandTabsFrom_line 0 hline]
  simp [Text.expandTabsFrom, Nat.add_assoc, String.length_toList]

/-- One character between quotes is assembled to its code point. -/
theorem assemble_of_character {text : List Char} {op : Opcode} (hop : op.operandKind = .number)
    {a : Char} (h : (parse text).1 = [.character op [a]]) :
    assemble false text = .ok (Blank.text (op.code ++ numberWord a.toNat)) ∧
      ∀ split, ∃ p, decode split (Text.bytes (Blank.text (op.code ++ numberWord a.toNat))) = .ok p ∧
        p.instructions.toList = [⟨op, some a.toNat⟩] := by
  have hcommands : List.Forall₂ (fun s c => s.command = .ok c) (parse text).1
      [⟨op, .number a.toNat⟩] := by
    rw [h]
    exact .cons rfl .nil
  obtain ⟨d, -, hwf, hassemble⟩ := assemble_of_forall₂ hcommands (by simp)
  have hword : Instruction.word ⟨op, some a.toNat⟩ = op.code ++ numberWord a.toNat := by
    simp [Instruction.word, Instruction.encode?, hop]
  have hdecode (split : Bool) := decode_commands split (d := d) hwf (by simp)
  simp only [List.map_cons, List.map_nil, Command.instruction, hword, List.flatten_cons,
    List.flatten_nil, List.append_nil] at hassemble hdecode
  exact ⟨hassemble, fun split => ⟨_, hdecode split, Program.toList_ofInstructions _⟩⟩

/-- A character literal means its character. Behind any number of spaces, a mnemonic that takes a
number and a character between quotes are assembled to the code point of the character, for all
characters that can stand between quotes except the tab. A tab that stands in the last column before
a multiple of eight is taken for a space, and anywhere else it is taken for several spaces and
refused. -/
theorem assemble_literal (n : Nat) {op : Opcode} (hop : op.operandKind = .number) {a : Char}
    (ha : PlainBody [a]) :
    (a ≠ '\t' →
      assemble false (literalText n op [a]) = .ok (Blank.text (op.code ++ numberWord a.toNat)) ∧
      ∀ split, ∃ p, decode split (Text.bytes (Blank.text (op.code ++ numberWord a.toNat))) = .ok p ∧
        p.instructions.toList = [⟨op, some a.toNat⟩]) ∧
    (a = '\t' → (n + op.mnemonic.length + 2) % 8 = 7 →
      assemble false (literalText n op [a]) = .ok (Blank.text (op.code ++ numberWord 32))) ∧
    (a = '\t' → (n + op.mnemonic.length + 2) % 8 ≠ 7 →
      assemble false (literalText n op [a]) = .error
        (.notSingle (List.replicate (8 - (n + op.mnemonic.length + 2) % 8) ' '))) := by
  have hspaces (k : Nat) : PlainBody (List.replicate k ' ') := by
    intro b hb
    rw [List.eq_of_mem_replicate hb]
    decide
  have htab (k : Nat) (hk : 8 - (n + op.mnemonic.length + 2) % 8 = k) :
      (parse (literalText n op ['\t'])).1 = [.character op (List.replicate k ' ')] := by
    rw [parse, expandTabs_literalText, hk]
    exact statements_literalText n hop (hspaces k)
  refine ⟨fun hne => ?_, ?_, ?_⟩
  · have hno : '\t' ∉ literalText n op [a] := by
      have hmnemonic := tab_not_mem (isName_mnemonic op).2 (by decide)
      simp [literalText, hmnemonic, Ne.symm hne]
    have hparse : (parse (literalText n op [a])).1 = [.character op [a]] := by
      rw [parse, Text.expandTabs, Text.expandTabsFrom_of_no_tab 0 _ hno]
      exact statements_literalText n hop ha
    exact assemble_of_character hop hparse
  · rintro rfl hcolumn
    exact (assemble_of_character hop (htab 1 (by omega))).1
  · rintro rfl hcolumn
    obtain ⟨k, hk⟩ : ∃ k, 8 - (n + op.mnemonic.length + 2) % 8 = k + 2 :=
      ⟨6 - (n + op.mnemonic.length + 2) % 8, by omega⟩
    have hparse : (parse (literalText n op ['\t'])).1 =
        [] ++ .character op (List.replicate (k + 2) ' ') :: [] := htab _ hk
    rw [hk]
    exact assemble_of_refused false hparse .nil rfl

/-- A character beyond ASCII, behind two spaces. -/
theorem assemble_literal_accent :
    PlainBody ['é'] ∧ assemble false "  copy 'é'".toList =
      .ok (Blank.text (Opcode.copy.code ++ numberWord 233)) := by
  have hplain : PlainBody ['é'] := by simp [PlainBody]
  obtain ⟨hcharacter, -⟩ := assemble_literal 2 (rfl : Opcode.copy.operandKind = .number) hplain
  exact ⟨hplain, (hcharacter (by decide)).1⟩

/-- In column seven a tab between quotes is taken for a space: the operand is 32, not 9. -/
theorem assemble_literal_tab :
    PlainBody ['\t'] ∧ assemble false " push '\t'".toList ≠
      .ok (Blank.text (Opcode.push.code ++ numberWord '\t'.toNat)) ∧
    assemble false " push '\t'".toList = .ok (Blank.text (Opcode.push.code ++ numberWord 32)) := by
  refine ⟨by simp [PlainBody], ?_, ?_⟩ <;> decide +kernel

end Whitespace.Assembly
