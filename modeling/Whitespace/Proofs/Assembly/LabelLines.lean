import Whitespace.Proofs.Assembly.Literal

/-!
# Lines of labels

No word is reserved, so any name can be a label. But the reader takes a label together with the
command behind it, and line ends are gaps like any other. In front of a line that starts with the
mnemonic of an opcode without operand, it reads the label of the line above and this mnemonic as one
statement, although a colon follows: the colon is left over and refused. Mnemonics of opcodes with an
operand are not affected, since a colon is no operand, and neither is the first line.

## Main definitions

* `plainOpcode?` — the opcode without operand that a name is the mnemonic of.
* `labelLines` — labels on lines of their own.
* `lineStatements` — the statements that the reader finds in such lines.

## Main statements

* `Cursor.At.statements_labelLines`, `parse_labelLines` — reading lines of labels.
* `assemble_labelLines` — which lines of labels can be assembled, and to what.
-/

namespace Whitespace.Assembly

/-- The opcode without operand whose mnemonic is the name, if there is one. -/
def plainOpcode? (name : String) : Option Opcode :=
  (Opcode.ofMnemonic? name).filter (·.operandKind = .none)

/-- Labels on lines of their own. -/
def labelLines (names : List String) : List Char :=
  ['\n'].intercalate (names.map fun name => name.toList ++ [':'])

/-- What stands between a label and the lines behind it. -/
def lineBreak (names : List String) : List Char := if names = [] then [] else ['\n']

theorem isGap_lineBreak (names : List String) : ∀ a ∈ lineBreak names, Cursor.isGap a := by
  unfold lineBreak
  split <;> simp [Cursor.isGap]

theorem labelLines_cons (name : String) (names : List String) (g : List Char) :
    labelLines (name :: names) ++ g =
      name.toList ++ ':' :: (lineBreak names ++ (labelLines names ++ g)) := by
  cases names <;> simp [labelLines, lineBreak]

/-- The statements that the reader finds in lines of labels. A name that is the mnemonic of an opcode
without operand is taken for a command if a label stands in front of it. -/
def lineStatements : List String → List Statement
  | [] => []
  | [name] => [.mark name]
  | name :: next :: rest =>
    match plainOpcode? next with
    | some op => .mark name :: .plain op :: .unknown [':'] :: lineStatements rest
    | none => .mark name :: lineStatements (next :: rest)

/-! ## Reading lines of labels -/

namespace Cursor

variable {c : Cursor} {n : Nat} {g w t : List Char} {op : Opcode}

/-- A mnemonic in front of a colon is a command if its opcode takes no operand. -/
theorem At.command_colon (hc : c.At n (w ++ ':' :: t))
    (hbefore : c.before.any isWordChar = false) (hplain : plainOpcode? (String.ofList w) = some op) :
    ∃ c', c.command = some (.plain op, c') ∧ c'.At (n + w.length) (':' :: t) := by
  simp only [plainOpcode?, Option.filter_eq_some_iff, decide_eq_true_eq] at hplain
  obtain ⟨hmnemonic, hkind⟩ := hplain
  obtain rfl : w = op.mnemonic.toList := by
    rw [Opcode.mnemonic_of_ofMnemonic? hmnemonic, String.toList_ofList]
  obtain ⟨c', hkeyword, hc'⟩ := hc.keyword hbefore (stops_cons.2 (by decide))
  exact ⟨c', by simp only [Cursor.command, hkeyword, operand, hkind], hc'⟩

/-- A colon is no operand. -/
theorem operand_eq_none_of_colon (hc : c.At n (':' :: t)) (hkind : op.operandKind ≠ .none) :
    c.operand op = none := by
  have hnumber : c.number = none := by
    apply number_eq_none (g := []) hc (by simp) <;> exact stops_cons.2 (by decide)
  have hquote : c.symbol '\'' = none := by
    apply symbol_eq_none (g := []) hc (by simp) <;> exact stops_cons.2 (by decide)
  have hname : c.name = none := by
    apply name_eq_none hc <;> exact stops_cons.2 (by decide)
  cases h : op.operandKind with
  | none => exact absurd h hkind
  | number => simp [operand, h, hnumber, literal, hquote]
  | label => simp [operand, h, hname]

/-- No other word in front of a colon is a command. -/
theorem command_eq_none_of_colon (hc : c.At n (w ++ ':' :: t)) (hw : IsName w)
    (hbefore : c.before.any isWordChar = false) (hplain : plainOpcode? (String.ofList w) = none) :
    c.command = none := by
  cases hmnemonic : Opcode.ofMnemonic? (String.ofList w) with
  | none =>
    have hnone : c.keyword = none :=
      keyword_eq_none hc (hw.startsName _).stops_gap
        (fun a ha => isWordChar_of_isNameChar (hw.2 a ha)) (stops_cons.2 (by decide)) hmnemonic
    simp only [Cursor.command, hnone]
  | some op =>
    have hkind : op.operandKind ≠ .none := by
      simpa [plainOpcode?, hmnemonic] using hplain
    obtain rfl : w = op.mnemonic.toList := by
      rw [Opcode.mnemonic_of_ofMnemonic? hmnemonic, String.toList_ofList]
    obtain ⟨c', hkeyword, hc'⟩ := hc.keyword hbefore (stops_cons.2 (by decide))
    simp only [Cursor.command, hkeyword, operand_eq_none_of_colon hc' hkind]

/-- A colon that is left over is refused as a word. -/
theorem At.item_colon (hc : c.At n (':' :: t)) (ht : Stops (!isGap ·) t) :
    ∃ c', c.item = some ([.unknown [':']], c') ∧ c'.At (n + 1) t := by
  have hgap : Stops isGap (':' :: t) := stops_cons.2 (by decide)
  have hskip : c.skip = c := skip_of_stops (by rwa [hc.rest])
  have hspace : Stops (!Text.isSpace ·) t := by
    intro a ha
    have hgap : isGap a := by simpa using ht a ha
    simp [isSpace_of_isGap hgap]
  have hword : ∀ a ∈ [':'], !Text.isSpace a := List.forall_mem_singleton.2 (by decide)
  obtain ⟨c', hspan, hc'⟩ := At.span (w := [':']) hc hword hspace
  refine ⟨c', ?_, hc'⟩
  have hstatement := Layout.statement_eq_none hc hgap (stops_cons.2 (by decide))
  have hcomment := comment_eq_none hc hgap (stops_cons.2 (by decide))
  simp [Cursor.item, hstatement, hcomment, unknown, hskip, hspan, longest_cons]

/-- A label is an item by itself, or together with the command behind it. -/
theorem At.item_label (hc : c.At n (w ++ ':' :: t)) (hw : IsName w) (ht : Stops (!isGap ·) t) :
    ∃ c₁, c₁.At (n + (w.length + 1)) t ∧ c₁.Free ∧
      (c₁.comment = none → c₁.command = none →
        c.item = some ([.mark (String.ofList w)], c₁)) ∧
      ∀ s c₂, c₁.comment = none → c₁.command = some (s, c₂) → c₂.comment = none →
        c₁.position ≤ c₂.position → c.item = some ([.mark (String.ofList w), s], c₂) := by
  obtain ⟨c₁, hlabel, hc₁, hbefore⟩ := At.label (g := []) hc hw (by simp)
  have hstart := hw.startsName (':' :: t)
  -- a word that starts at the label ends with it
  have hword := length_takeWhile_append_le (!Text.isSpace ·) (w ++ [':']) t
  have hle := hc₁.le_position_comments (.inl ht)
  have hposition := hc₁.position
  simp only [List.append_assoc, List.singleton_append, List.length_append, List.length_cons,
    List.length_nil] at hword hle hposition
  refine ⟨c₁, by simpa using hc₁, .inl (by rw [hbefore]; decide), ?_, ?_⟩
  · intro hcomment hcommand
    rw [comments_of_none hcomment] at hle
    refine Layout.item_of_statement hc hstart ?_ (by omega)
    simp [Cursor.statement, hlabel, hcommand, comments_of_none hcomment, longest_cons]
  · intro s c₂ hcomment hcommand hcomment₂ hfar
    rw [comments_of_none hcomment] at hle
    refine Layout.item_of_statement hc hstart ?_ (by omega)
    simp [Cursor.statement, hlabel, hcommand, comments_of_none hcomment,
      comments_of_none hcomment₂, longest_cons, hfar]

/-- Behind a line of labels the next line starts, or the text ends. -/
theorem stops_lineBreak (names : List String) (hg : ∀ a ∈ g, isGap a) :
    Stops (!isGap ·) (lineBreak names ++ (labelLines names ++ g)) := by
  cases names with
  | nil =>
    intro a ha
    simpa using hg a (List.mem_of_mem_head? (by simpa [lineBreak, labelLines] using ha))
  | cons name names => exact stops_cons.2 (by decide)

/-- The last line ends the text. -/
theorem At.skip_eq_nil (hc : c.At n (lineBreak [] ++ (labelLines [] ++ g)))
    (hg : ∀ a ∈ g, isGap a) : c.skip.At (n + g.length) [] :=
  At.skip (by simpa [lineBreak, labelLines] using hc) hg (stops_nil _)

/-- The reader passes over the end of a line. -/
theorem At.next_line {name : String} {names : List String}
    (hc : c.At n (lineBreak (name :: names) ++ (labelLines (name :: names) ++ g)))
    (hfree : c.Free) (hname : IsName name.toList) :
    ∃ c' : Cursor, c'.At (n + 1) (labelLines (name :: names) ++ g) ∧
      c'.before.any isWordChar = false ∧ c.comment = none ∧ c.command = c'.command ∧
      c.item = c'.item := by
  obtain ⟨c', hc', hfree', hskip⟩ := hc.skip_gaps (isGap_lineBreak _) hfree
  have hstart : StartsName (labelLines (name :: names) ++ g) := by
    rw [labelLines_cons]
    exact hname.startsName _
  refine ⟨c', hc', hfree'.before hc' hstart.stops_gap hstart.ne_nil, ?_, ?_, ?_⟩
  · rw [← comment_skip, hskip, comment_skip]
    exact comment_eq_none hc' hstart.stops_gap (hstart.stops_eq (by decide))
  · rw [← command_skip, hskip, command_skip]
  · rw [← item_skip, hskip, item_skip]

/-- Line by line the reader finds the statements of the lines. -/
theorem At.statements_labelLines {names : List String} (hnames : ∀ name ∈ names, IsName name.toList)
    (hg : ∀ a ∈ g, isGap a) (hc : c.At n (labelLines names ++ g)) :
    c.statements.1 = lineStatements names := by
  fun_induction lineStatements names generalizing c n with
  | case1 => rw [statements_of_none (Layout.item_eq_none (At.skip_eq_nil hc hg).rest)]
  | case2 name =>
    rw [labelLines_cons] at hc
    obtain ⟨c₁, hc₁, -, halone, -⟩ :=
      hc.item_label (hnames name List.mem_cons_self) (stops_lineBreak [] hg)
    have hend := hc₁.skip_eq_nil hg
    have hcomment : c₁.comment = none := by
      rw [← comment_skip]
      exact comment_eq_none hend (stops_nil _) (stops_nil _)
    have hcommand : c₁.command = none := by
      rw [← command_skip]
      exact Layout.command_eq_none hend (stops_nil _) (stops_nil _)
    rw [statements_of_some (halone hcomment hcommand),
      statements_of_none (Layout.item_eq_none hend.rest)]
    simp
  | case3 name next rest op hplain ih =>
    simp only [List.forall_mem_cons] at hnames
    obtain ⟨hname, hnext, hrest⟩ := hnames
    rw [labelLines_cons] at hc
    obtain ⟨c₁, hc₁, hfree₁, -, hboth⟩ := hc.item_label hname (stops_lineBreak (next :: rest) hg)
    obtain ⟨c₂, hc₂, hbefore, hcomment, hcommand, -⟩ := hc₁.next_line hfree₁ hnext
    rw [labelLines_cons] at hc₂
    obtain ⟨c₃, hplain₃, hc₃⟩ := hc₂.command_colon hbefore (by rwa [String.ofList_toList])
    have hcomment₃ : c₃.comment = none := by
      apply comment_eq_none hc₃ <;> exact stops_cons.2 (by decide)
    have hfar : c₁.position ≤ c₃.position := by
      rw [hc₁.position, hc₃.position]
      omega
    -- the colon is left over, and behind it the reader starts anew
    obtain ⟨c₄, hcolon, hc₄⟩ := hc₃.item_colon (stops_lineBreak rest hg)
    have hfree₄ : c₄.Free := .inr (by rw [hc₄.rest]; exact stops_lineBreak rest hg)
    obtain ⟨c₅, hc₅, -, hsame⟩ := hc₄.statements_gaps (isGap_lineBreak rest) hfree₄
    rw [statements_of_some (hboth _ _ hcomment (hcommand.trans hplain₃) hcomment₃ hfar),
      statements_of_some hcolon, hsame, ih hrest hc₅]
    simp
  | case4 name next rest hplain ih =>
    obtain ⟨hname, hnames⟩ := List.forall_mem_cons.1 hnames
    have hnext := hnames next List.mem_cons_self
    rw [labelLines_cons] at hc
    obtain ⟨c₁, hc₁, hfree₁, halone, -⟩ := hc.item_label hname (stops_lineBreak (next :: rest) hg)
    obtain ⟨c₂, hc₂, hbefore, hcomment, hcommand, hitem⟩ := hc₁.next_line hfree₁ hnext
    have hnone : c₂.command = none := by
      refine command_eq_none_of_colon (labelLines_cons next rest g ▸ hc₂) hnext hbefore ?_
      rwa [String.ofList_toList]
    rw [statements_of_some (halone hcomment (hcommand.trans hnone)), statements_congr hitem,
      ih hnames hc₂]
    simp

end Cursor

theorem tab_not_mem_labelLines {names : List String}
    (hnames : ∀ name ∈ names, IsName name.toList) : '\t' ∉ labelLines names := by
  induction names with
  | nil => simp [labelLines]
  | cons name names ih =>
    obtain ⟨hname, hnames⟩ := List.forall_mem_cons.1 hnames
    have hbreak : '\t' ∉ lineBreak names := by
      unfold lineBreak
      split <;> simp
    have hno : '\t' ∉ name.toList := tab_not_mem hname.2 (by decide)
    rw [← List.append_nil (labelLines _), labelLines_cons]
    simp [hno, hbreak, ih hnames]

/-- The reader finds the statements of the lines, whatever gap is behind the last one. -/
theorem parse_labelLines {names : List String} (hnames : ∀ name ∈ names, IsName name.toList)
    {g : List Char} (hg : ∀ a ∈ g, Cursor.isGap a) :
    (parse (labelLines names ++ g)).1 = lineStatements names := by
  obtain ⟨lines, column, happend, -, hsame, -⟩ := expandTabsFrom_append 0 (labelLines names)
  obtain ⟨g', column', happend', hkeep, -⟩ := expandTabsFrom_append column g
  have htext : Text.expandTabs (labelLines names ++ g) = labelLines names ++ g' := by
    have hgap : Text.expandTabsFrom column g = g' := by
      simpa [Text.expandTabsFrom] using happend' []
    rw [Text.expandTabs, happend, hsame (tab_not_mem_labelLines hnames), hgap]
  rw [parse, htext]
  exact Cursor.At.statements_labelLines (n := 0) hnames
    (hkeep (fun a => Cursor.isGap a) (by decide) hg) ⟨rfl, rfl⟩

/-! ## Assembling lines of labels -/

theorem lineStatements_eq_map {names : List String}
    (h : ∀ name ∈ names.tail, plainOpcode? name = none) :
    lineStatements names = names.map .mark := by
  fun_induction lineStatements names with
  | case1 => rfl
  | case2 name => rfl
  | case3 name next rest op hplain ih => simp [hplain] at h
  | case4 name next rest hplain ih => simp [ih (List.forall_mem_cons.1 h).2]

/-- In front of a colon that is left over there are marks and one command without operand. -/
theorem exists_unknown_of_plain {names : List String}
    (h : ∃ name ∈ names.tail, plainOpcode? name ≠ none) :
    ∃ before cs after, lineStatements names = before ++ .unknown [':'] :: after ∧
      List.Forall₂ (fun s c => s.command = .ok c) before cs := by
  fun_induction lineStatements names with
  | case1 => simp at h
  | case2 name => simp at h
  | case3 name next rest op hplain ih =>
    exact ⟨[.mark name, .plain op], [⟨.mark, .name name⟩, ⟨op, .none⟩], lineStatements rest, rfl,
      .cons rfl (.cons rfl .nil)⟩
  | case4 name next rest hplain ih =>
    obtain ⟨before, cs, after, heq, hcs⟩ := ih (by simpa [hplain] using h)
    exact ⟨.mark name :: before, ⟨.mark, .name name⟩ :: cs, after, by rw [heq]; rfl, .cons rfl hcs⟩

/-- Marks alone are assembled, and decoded to marks again. -/
theorem decode_of_marks {text : List Char} {names : List String}
    (hparse : (parse text).1 = names.map .mark) :
    ∃ s, assemble false text = .ok s ∧
      ((∀ name ∈ names, ∀ bits, Label.ofName? name = some bits →
          Decimal.Fits (Label.ofBits bits)) → 3 * names.length ≤ Decimal.bound →
        ∃ label : String → Int, (∀ m ∈ names, ∀ n ∈ names, label m = label n ↔ m = n) ∧
          ∀ split, ∃ p, decode split (Text.bytes s) = .ok p ∧
            p.instructions.toList = names.map fun name => ⟨.mark, some (label name)⟩) := by
  let cs : List Command := names.map fun name => ⟨.mark, .name name⟩
  have hcommands : List.Forall₂ (fun s c => s.command = .ok c) (parse text).1 cs := by
    rw [hparse, List.forall₂_map_left_iff, List.forall₂_map_right_iff, List.forall₂_same]
    exact fun _ _ => rfl
  have hmem (name : String) : (⟨.mark, .name name⟩ : Command) ∈ cs ↔ name ∈ names := by
    simp [cs]
  have hnamed : ∀ c ∈ cs, ∀ name, c.argument = .name name → c = ⟨.mark, .name name⟩ := by
    simp [cs]
  obtain ⟨d, hd, hwf, hassemble⟩ := assemble_of_forall₂ hcommands fun c hc name hname =>
    hnamed c hc name hname ▸ hc
  refine ⟨_, hassemble, fun hspells hlength => ⟨fun name => d.label name, ?_, fun split => ?_⟩⟩
  · intro m hm n hn
    refine ⟨fun heq => ?_, fun heq => by rw [heq]⟩
    exact hd.label_injective ((hmem m).2 hm) ((hmem n).2 hn) rfl rfl (Int.ofNat.inj heq)
  · have hfits : ∀ c ∈ cs, ∀ name, c.argument = .name name → Decimal.Fits (d.label name) := by
      intro c hc name hname
      have hnames : d.names.length ≤ names.length := by
        simpa [cs] using hd.length_names_le
      refine Draft.fits_label ((hd.mem_names name).2 ⟨c, hc, hname⟩) ?_ (by omega)
      exact hspells name ((hmem name).1 (hnamed c hc name hname ▸ hc))
    refine ⟨_, decode_commands split hwf hfits, ?_⟩
    rw [Program.toList_ofInstructions, List.map_map]
    rfl

/-- Lines of labels. Without mnemonics of opcodes without operand behind the first line, any lines of
labels are assembled: to one mark for each line, in order, with equal labels exactly for equal names.
With such a mnemonic they are refused for the colon behind it. -/
theorem assemble_labelLines {names : List String} (hnames : ∀ name ∈ names, IsName name.toList)
    {g : List Char} (hg : ∀ a ∈ g, Cursor.isGap a) :
    ((∀ name ∈ names.tail, plainOpcode? name = none) →
      ∃ s, assemble false (labelLines names ++ g) = .ok s ∧
        ((∀ name ∈ names, ∀ bits, Label.ofName? name = some bits →
            Decimal.Fits (Label.ofBits bits)) → 3 * names.length ≤ Decimal.bound →
          ∃ label : String → Int, (∀ m ∈ names, ∀ n ∈ names, label m = label n ↔ m = n) ∧
            ∀ split, ∃ p, decode split (Text.bytes s) = .ok p ∧
              p.instructions.toList = names.map fun name => ⟨.mark, some (label name)⟩)) ∧
    ((∃ name ∈ names.tail, plainOpcode? name ≠ none) →
      assemble false (labelLines names ++ g) = .error (.unknown [':'])) := by
  have hparse := parse_labelLines hnames hg
  refine ⟨fun hplain => ?_, fun hplain => ?_⟩
  · rw [lineStatements_eq_map hplain] at hparse
    exact decode_of_marks hparse
  · obtain ⟨before, cs, after, heq, hcs⟩ := exists_unknown_of_plain hplain
    rw [heq] at hparse
    exact assemble_of_refused false hparse hcs rfl

/-- Mnemonics of opcodes with an operand are labels in every line, and any mnemonic in the first. -/
theorem assemble_labelLines_mnemonics :
    ∃ (s : String) (label : String → Int),
      assemble false "dup:\njmp:\npush:\njmp:\n".toList = .ok s ∧
      label "dup" ≠ label "jmp" ∧ label "dup" ≠ label "push" ∧ label "jmp" ≠ label "push" ∧
      ∀ split, ∃ p, decode split (Text.bytes s) = .ok p ∧
        p.instructions.toList = [⟨.mark, some (label "dup")⟩, ⟨.mark, some (label "jmp")⟩,
          ⟨.mark, some (label "push")⟩, ⟨.mark, some (label "jmp")⟩] := by
  have hnames : ∀ name ∈ ["dup", "jmp", "push", "jmp"], IsName name.toList := by decide
  have hspells : ∀ name ∈ ["dup", "jmp", "push", "jmp"], Label.ofName? name = none := by decide
  have hbound : Decimal.Fits 12 := Decimal.fits_of_lt_pow (n := 2) (by decide) (by decide)
  have hgap : ∀ a ∈ ['\n'], Cursor.isGap a := List.forall_mem_singleton.2 (by decide)
  obtain ⟨hassemble, -⟩ := assemble_labelLines hnames hgap
  obtain ⟨s, hs, hdecode⟩ := hassemble (by decide)
  obtain ⟨label, hlabel, hdecode⟩ := hdecode (by simp_all) (Nat.le_of_lt hbound)
  refine ⟨s, label, hs, ?_, ?_, ?_, hdecode⟩ <;>
    · rw [Ne, hlabel _ (by decide) _ (by decide)]
      decide

/-- The name `dup` in the second line is read as a command, and its colon is refused. -/
theorem assemble_labelLines_dup :
    (∀ name ∈ ["a", "dup"], IsName name.toList) ∧
    assemble false (labelLines ["a", "dup"] ++ ['\n']) = .error (.unknown [':']) := by
  decide +kernel

end Whitespace.Assembly
