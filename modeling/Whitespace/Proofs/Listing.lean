import Whitespace.Listing
import Whitespace.Proofs.Assembly.Items
import Whitespace.Proofs.Assembly.Resolution
import Whitespace.Proofs.Decoder.Soundness

/-!
# Listings are assembly text

A listing is a layout of one statement for each instruction: the indices and the table of labels
are comments. The names in it spell the digits of the labels, so assembling it resolves every name
to the label it came from.

## Main definitions

* `Instruction.statement`, `Instruction.command` — what a line of a listing says.
* `Program.Refers`, `Program.Marks` — the labels that a program goes to, and those it marks.

## Main statements

* `Program.layout_listing` — a listing with its table of labels is a layout.
* `Instruction.instruction_command` — resolving the names gives the instructions back.
* `assemble_listing` — assembling a listing.
-/

namespace Whitespace

open Assembly

/-! ## Names of labels -/

namespace Label

theorem toList_name (l : Int) :
    (name l).toList = 'L' :: (bits l).map fun b => if b then '1' else '0' := by
  rw [name, String.toList_append, Bits.toList_text]
  rfl

theorem isName_name (l : Int) : IsName (name l).toList := by
  rw [toList_name]
  refine ⟨rfl, List.forall_mem_cons.2 ⟨by decide, List.forall_mem_map.2 fun b _ => ?_⟩⟩
  cases b <;> decide

/-- No label is called like a mnemonic, since mnemonics have no capital letters. -/
theorem ofMnemonic?_name (l : Int) : Opcode.ofMnemonic? (name l) = none := by
  rw [Opcode.ofMnemonic?, List.find?_eq_none]
  intro op _ heq
  have hhead : op.mnemonic.toList.head? = some 'L' := by
    rw [of_decide_eq_true heq, toList_name]
    rfl
  revert hhead
  cases op <;> decide

end Label

/-! ## Lines -/

theorem isGap_spaces (n : Nat) : ∀ a ∈ List.replicate n ' ', Cursor.isGap a := by
  intro a ha
  rw [List.eq_of_mem_replicate ha]
  decide

namespace Instruction

variable {i : Instruction}

/-- The statement that a listing shows for an instruction. -/
def statement (i : Instruction) : Statement :=
  match i.opcode.operandKind, i.operand with
  | .number, some v => .number i.opcode (decide (v < 0)) (Nat.toDigits 10 v.natAbs)
  | .label, some l =>
    if i.opcode = .mark then .mark (Label.name l) else .jump i.opcode (Label.name l)
  | _, _ => .plain i.opcode

theorem layout_number {op : Opcode} (hkind : op.operandKind = .number) (v : Int) {t : List Char}
    {ss : List Statement} (ht : Separate t) (h : Layout ss t) :
    Layout (.number op (decide (v < 0)) (Nat.toDigits 10 v.natAbs) :: ss)
      (("    " ++ op.mnemonic ++ " " ++ Decimal.text v).toList ++ t) := by
  have hspelled : Spelled (.number op (decide (v < 0)) (Nat.toDigits 10 v.natAbs))
      (op.mnemonic.toList ++ ([' '] ++ ((if v < 0 then ['-'] else []) ++
        Nat.toDigits 10 v.natAbs))) :=
    .number hkind (by simp) (isGap_spaces 1) (Cursor.isSign_decimal v) Nat.toDigits_ne_nil
      fun _ => Decimal.isDigit_of_mem_toDigits
  have hlayout := (Layout.command hspelled ht h).gaps (g := [' ', ' ', ' ', ' ']) (isGap_spaces 4)
  simpa [Decimal.toList_text] using hlayout

theorem layout_name {op : Opcode} (hkind : op.operandKind = .label) (hop : op ≠ .mark) (l : Int)
    {t : List Char} {ss : List Statement} (ht : Separate t) (h : Layout ss t) :
    Layout (.jump op (Label.name l) :: ss)
      (("    " ++ op.mnemonic ++ " " ++ Label.name l).toList ++ t) := by
  have hspelled := Spelled.name (g := [' ']) hkind (by simp) (isGap_spaces 1) (Label.isName_name l)
  rw [if_neg hop, String.ofList_toList] at hspelled
  have hlayout := (Layout.command hspelled ht h).gaps (g := [' ', ' ', ' ', ' ']) (isGap_spaces 4)
  simpa using hlayout

/-- An instruction that has its operand is listed as its statement. -/
theorem layout_listing (hwf : i.WellFormed) (hfits : i.Fits) :
    ∃ text, i.listing = .ok text ∧ ∀ {ss t}, Separate t → Layout ss t →
      Layout (i.statement :: ss) (text.toList ++ t) := by
  obtain ⟨op, operand⟩ := i
  cases hkind : op.operandKind with
  | none =>
    refine ⟨"    " ++ op.mnemonic, by simp [listing, hkind], fun ht h => ?_⟩
    have hlayout := (Layout.command (.plain hkind) ht h).gaps (g := [' ', ' ', ' ', ' '])
      (isGap_spaces 4)
    simpa [statement, hkind] using hlayout
  | number =>
    cases operand with
    | none => simp [WellFormed, hkind] at hwf
    | some v =>
      refine ⟨"    " ++ op.mnemonic ++ " " ++ Decimal.text v, ?_, fun ht h => ?_⟩
      · simp [listing, hkind, Decimal.write_of_fits (hfits v rfl)]
      · simpa [statement, hkind] using layout_number hkind v ht h
  | label =>
    cases operand with
    | none => simp [WellFormed, hkind] at hwf
    | some l =>
      by_cases hop : op = .mark
      · subst hop
        refine ⟨Label.name l ++ ":", rfl, fun ht h => ?_⟩
        have hlayout := Layout.label (g := []) (Label.isName_name l)
          (by rw [String.ofList_toList, Label.ofMnemonic?_name]) (by simp) ht h
        simpa [statement, hkind] using hlayout
      · refine ⟨"    " ++ op.mnemonic ++ " " ++ Label.name l, ?_, fun ht h => ?_⟩
        · simp [listing, hkind, hop]
        · simpa [statement, hkind, hop] using layout_name hkind hop l ht h

end Instruction

/-- A line is the statement of its instruction, the index being a comment. -/
theorem layout_listingLine {i : Instruction} (hwf : i.WellFormed) (hfits : i.Fits) (index : Nat) :
    ∃ line, listingLine index i = .ok line ∧ ∀ {ss t}, Stops (· ≠ '\n') t → Layout ss t →
      Layout (i.statement :: ss) (line.toList ++ t) := by
  obtain ⟨text, hlisting, hlayout⟩ := Instruction.layout_listing hwf hfits
  refine ⟨padRight 23 text ++ " // #" ++ index.repr, by simp [listingLine, hlisting, Except.map],
    fun {ss t} ht h => ?_⟩
  have hcomment : Layout ss ('/' :: '/' :: (' ' :: '#' :: Nat.toDigits 10 index ++ t)) := by
    refine .comment ?_ ht h
    simp only [List.mem_cons, not_or]
    refine ⟨by decide, by decide, fun hmem => ?_⟩
    simpa [Decimal.isDigit] using Decimal.isDigit_of_mem_toDigits hmem
  have hspaces : ∀ a ∈ List.replicate (23 - text.length) ' ' ++ [' '], Cursor.isGap a := by
    rw [← List.replicate_succ']
    exact isGap_spaces _
  have hline := hlayout (.inl ?_) (hcomment.gaps hspaces)
  · simpa [padRight] using hline
  · rw [← List.replicate_succ', List.replicate_succ]
    exact stops_cons.2 (by decide)

namespace Program

variable {is : List Instruction}

/-- The lines of a listing, with an empty or a commented text behind them. -/
theorem layout_listingLines (h : ∀ i ∈ is, i.WellFormed ∧ i.Fits) (index : Nat) :
    ∃ lines, listingLines index is = .ok lines ∧ ∀ {rest}, Layout [] rest →
      Layout (is.map Instruction.statement) (("\n".intercalate lines).toList ++ '\n' :: rest) := by
  induction is generalizing index with
  | nil => exact ⟨[], rfl, fun hrest => .gap (by decide) hrest⟩
  | cons i is ih =>
    obtain ⟨⟨hwf, hfits⟩, his⟩ := List.forall_mem_cons.1 h
    obtain ⟨line, hline, hlayout⟩ := layout_listingLine hwf hfits index
    obtain ⟨lines, hlines, hlayouts⟩ := ih his (index + 1)
    refine ⟨line :: lines, by rw [listingLines, hline, hlines]; rfl, fun {rest} hrest => ?_⟩
    have hmore := hlayouts hrest
    -- the last line is followed by the line feed in front of the table of labels
    cases lines with
    | nil => simpa using hlayout (stops_cons.2 (by decide)) hmore
    | cons line₂ lines =>
      have hfeed := hlayout (stops_cons.2 (by decide)) (.gap (a := '\n') (by decide) hmore)
      simpa using hfeed

theorem layout_comments {lines : List String}
    (h : ∀ line ∈ lines, ∃ text, line.toList = '/' :: '/' :: text ∧ '\n' ∉ text) :
    Layout [] ("\n".intercalate lines).toList := by
  induction lines with
  | nil => exact .done
  | cons line lines ih =>
    obtain ⟨⟨text, hline, htext⟩, hlines⟩ := List.forall_mem_cons.1 h
    have hmore := ih hlines
    cases lines with
    | nil =>
      have hlayout := Layout.comment htext (stops_nil _) .done
      simpa [hline] using hlayout
    | cons line₂ lines =>
      have hlayout := Layout.comment htext (stops_cons.2 (by decide))
        (.gap (a := '\n') (by decide) hmore)
      simpa [hline] using hlayout

theorem layout_labelListing (p : Program) : Layout [] p.labelListing.toList := by
  apply layout_comments
  rw [List.forall_mem_map]
  intro e _
  refine ⟨' ' :: (Label.name e.1).toList ++ " -> #".toList ++ Nat.toDigits 10 e.2, ?_, ?_⟩
  · simp
  · simp only [List.cons_append, List.mem_cons, List.mem_append, not_or]
    refine ⟨by decide, ⟨fun hmem => ?_, by decide⟩, fun hmem => ?_⟩
    · simpa [isNameChar] using (Label.isName_name e.1).2 _ hmem
    · simpa [Decimal.isDigit] using Decimal.isDigit_of_mem_toDigits hmem

/-- A listing followed by its table of labels is a layout of the statements of the instructions. -/
theorem layout_listing (h : ∀ i ∈ is, i.WellFormed ∧ i.Fits) :
    ∃ text, (ofInstructions is).listing = .ok text ∧
      Layout (is.map Instruction.statement)
        (text ++ "\n" ++ (ofInstructions is).labelListing).toList := by
  obtain ⟨lines, hlines, hlayout⟩ := layout_listingLines h 0
  refine ⟨"\n".intercalate lines, ?_, ?_⟩
  · rw [listing, toList_ofInstructions, hlines]
    rfl
  · simpa using hlayout (layout_labelListing (ofInstructions is))

end Program

/-! ## Commands -/

namespace Instruction

variable {i : Instruction}

/-- The command of the statement that a listing shows for an instruction. -/
def command (i : Instruction) : Command where
  opcode := i.opcode
  argument :=
    match i.opcode.operandKind, i.operand with
    | .number, some v => .number v
    | .label, some l => .name (Label.name l)
    | _, _ => .none

theorem command_statement (hfits : i.Fits) : i.statement.command = .ok i.command := by
  obtain ⟨op, operand⟩ := i
  cases operand with
  | none => cases hkind : op.operandKind <;> simp [statement, command, Statement.command, hkind]
  | some v =>
    cases hkind : op.operandKind with
    | none => simp [statement, command, Statement.command, hkind]
    | number =>
      have hread := Decimal.read_toDigits (hfits v rfl)
      simp [statement, command, Statement.command, hkind, hread]
    | label =>
      by_cases hop : op = .mark
      · simp [statement, command, Statement.command, hop, Opcode.operandKind]
      · simp [statement, command, Statement.command, hkind, hop]

theorem argument_command_eq_name_iff {name : String} :
    i.command.argument = .name name ↔
      i.opcode.operandKind = .label ∧ ∃ l, i.operand = some l ∧ name = Label.name l := by
  obtain ⟨op, operand⟩ := i
  cases hkind : op.operandKind <;> cases operand <;> simp [command, hkind, eq_comm]

theorem one_le_of_label (hwf : i.WellFormed) (hkind : i.opcode.operandKind = .label) {l : Int}
    (hl : i.operand = some l) : 1 ≤ l := by
  simpa [WellFormed, hkind, hl] using hwf

/-- If names are resolved to the labels they came from, so are commands. -/
theorem instruction_command (hwf : i.WellFormed) {label : String → Nat}
    (hlabel : ∀ l, i.command.argument = .name (Label.name l) → 1 ≤ l →
      (label (Label.name l) : Int) = l) :
    i.command.instruction label = i := by
  obtain ⟨op, operand⟩ := i
  cases hkind : op.operandKind <;> cases operand <;>
    simp_all [command, Command.instruction, WellFormed]

end Instruction

theorem forall₂_command {is : List Instruction} (h : ∀ i ∈ is, i.WellFormed ∧ i.Fits) :
    List.Forall₂ (fun s c => s.command = .ok c) (is.map Instruction.statement)
      (is.map Instruction.command) := by
  induction is with
  | nil => exact .nil
  | cons i is ih =>
    obtain ⟨⟨-, hfits⟩, his⟩ := List.forall_mem_cons.1 h
    exact .cons (Instruction.command_statement hfits) (ih his)

/-! ## Labels -/

namespace Program

/-- Some instruction goes to the label. -/
def Refers (p : Program) (l : Int) : Prop :=
  ∃ op ∈ [Opcode.call, .jump, .jumpZero, .jumpNegative], ⟨op, some l⟩ ∈ p.instructions.toList

/-- The label stands somewhere. -/
def Marks (p : Program) (l : Int) : Prop := ⟨.mark, some l⟩ ∈ p.instructions.toList

end Program

/-- The opcodes that go to a label are those that take one and do not mark it. -/
theorem Opcode.mem_jumps_iff {op : Opcode} :
    op ∈ [call, jump, jumpZero, jumpNegative] ↔ op.operandKind = .label ∧ op ≠ .mark := by
  cases op <;> decide

namespace Assembly.Draft.Collected

variable {d : Draft} {is : List Instruction}

/-- The name of a label is resolved to the label, since it spells the digits. -/
theorem label_name (hd : d.Collected (is.map Instruction.command)) {i : Instruction} (hi : i ∈ is)
    {l : Int} (hname : i.command.argument = .name (Label.name l)) (hl : 1 ≤ l) :
    (d.label (Label.name l) : Int) = l := by
  have hmem : Label.name l ∈ d.names :=
    (hd.mem_names _).2 ⟨i.command, List.mem_map_of_mem hi, hname⟩
  rw [Draft.label, allocate_reserved hmem (Label.ofName?_name l), Option.getD_some,
    Label.ofBits_bits hl]

theorem map_instruction (hd : d.Collected (is.map Instruction.command))
    (hwf : ∀ i ∈ is, i.WellFormed) :
    (is.map Instruction.command).map (Command.instruction d.label) = is := by
  rw [List.map_map]
  refine (List.map_congr_left fun i hi => ?_).trans (List.map_id is)
  exact Instruction.instruction_command (hwf i hi) fun l => hd.label_name hi

/-- The undefined names are those of the labels that are gone to and marked nowhere. -/
theorem mem_undefined_iff (hd : d.Collected (is.map Instruction.command))
    (hwf : ∀ i ∈ is, i.WellFormed) (name : String) :
    name ∈ d.undefined ↔
      ∃ l, (Program.ofInstructions is).Refers l ∧ ¬ (Program.ofInstructions is).Marks l ∧
        name = Label.name l := by
  simp only [hd.mem_undefined, List.mem_map, Program.Refers, Program.Marks,
    Program.toList_ofInstructions]
  constructor
  · rintro ⟨⟨c, ⟨⟨op, operand⟩, hi, rfl⟩, hname⟩, hmark⟩
    obtain ⟨hkind, l, hl, rfl⟩ := Instruction.argument_command_eq_name_iff.1 hname
    cases hl
    refine ⟨l, ⟨op, Opcode.mem_jumps_iff.2 ⟨hkind, ?_⟩, hi⟩, fun hmem => ?_, rfl⟩
    · rintro rfl
      exact hmark ⟨_, hi, rfl⟩
    · exact hmark ⟨_, hmem, rfl⟩
  · rintro ⟨l, ⟨op, hop, hi⟩, hmark, rfl⟩
    obtain ⟨hkind, -⟩ := Opcode.mem_jumps_iff.1 hop
    refine ⟨⟨_, ⟨_, hi, rfl⟩, Instruction.argument_command_eq_name_iff.2 ⟨hkind, l, rfl, rfl⟩⟩, ?_⟩
    rintro ⟨⟨op', operand⟩, hj, hcommand⟩
    have hname : (Instruction.command ⟨op', operand⟩).argument = .name (Label.name l) := by
      rw [hcommand]
    obtain rfl : op' = .mark := congrArg Command.opcode hcommand
    obtain ⟨-, l', hl', heq⟩ := Instruction.argument_command_eq_name_iff.1 hname
    cases hl'
    have hl := Instruction.one_le_of_label (hwf _ hi) hkind rfl
    have hl' := Instruction.one_le_of_label (hwf _ hj) rfl rfl
    rw [Label.name_injective hl hl' heq] at hmark
    exact hmark hj

end Assembly.Draft.Collected

/-- Assembling a listing with its table of labels. If every label that some instruction goes to is
marked, the result is the encoding of the program, and decoding that gives the program back. If not,
the labels missing are named. -/
theorem assemble_listing {split : Bool} {source : List UInt8} {p : Program}
    (h : decode split source = .ok p) :
    ∃ listing row, p.listing = .ok listing ∧ p.encode? = some row ∧
      ((∀ l, p.Refers l → p.Marks l) →
        assemble false (listing ++ "\n" ++ p.labelListing).toList = .ok (Blank.text row) ∧
        ∀ split', decode split' (Text.bytes (Blank.text row)) = .ok p) ∧
      ((∃ l, p.Refers l ∧ ¬ p.Marks l) →
        ∃ names, assemble false (listing ++ "\n" ++ p.labelListing).toList =
            .error (.undefined names) ∧ names.Nodup ∧
          ∀ name, name ∈ names ↔ ∃ l, p.Refers l ∧ ¬ p.Marks l ∧ name = Label.name l) := by
  obtain ⟨is, rfl, his⟩ := decode_sound h
  have hwf : ∀ i ∈ is, i.WellFormed := fun i hi => (his i hi).1
  obtain ⟨listing, hlisting, hlayout⟩ := Program.layout_listing his
  have hcommands := forall₂_command his
  rw [← parse_of_layout hlayout] at hcommands
  obtain ⟨d, hdraft, hd, hdwf⟩ := draft_of_forall₂ hcommands
  refine ⟨listing, _, hlisting, Program.encode?_eq_some hwf, fun hclosed => ⟨?_, fun split' => ?_⟩,
    fun hopen => ?_⟩
  · have hdefined : d.undefined = [] := by
      apply List.eq_nil_iff_forall_not_mem.2
      intro name hname
      obtain ⟨l, hrefers, hmarks, -⟩ := (hd.mem_undefined_iff hwf name).1 hname
      exact hmarks (hclosed l hrefers)
    obtain ⟨log, hsource⟩ := hd.source_eq hdwf hdefined
    rw [hd.map_instruction hwf] at hsource
    rw [assemble_eq false hdraft, hsource]
  · rw [Blank.bytes_text]
    exact decode_words split' (Instruction.forall₂_spells hwf) fun i hi => (his i hi).2
  · have hperm := List.mergeSort_perm d.undefined (· ≤ ·)
    refine ⟨_, ?_, hperm.nodup_iff.2 hd.nodup_undefined, fun name => ?_⟩
    · obtain ⟨l, hrefers, hmarks⟩ := hopen
      have hundefined : d.undefined ≠ [] :=
        List.ne_nil_of_mem ((hd.mem_undefined_iff hwf _).2 ⟨l, hrefers, hmarks, rfl⟩)
      rw [assemble_eq false hdraft, Draft.source, if_neg hundefined]
    · rw [hperm.mem_iff, hd.mem_undefined_iff hwf]

/-- A loop that starts with the label without digits; its source has a remark and a carriage
return. -/
theorem assemble_listing_loop :
    ∃ p listing row, decode true [97, 10, 32, 32, 13, 32, 32, 9, 9, 10, 10, 32, 10, 10] = .ok p ∧
      p.Refers 1 ∧ p.listing = .ok listing ∧ p.encode? = some row ∧
      assemble false (listing ++ "\n" ++ p.labelListing).toList = .ok (Blank.text row) ∧
      decode false (Text.bytes (Blank.text row)) = .ok p := by
  have hdecode : decode true [97, 10, 32, 32, 13, 32, 32, 9, 9, 10, 10, 32, 10, 10] =
      .ok ⟨#[⟨.mark, some 1⟩, ⟨.push, some (-1)⟩, ⟨.jump, some 1⟩], ⟨[(1, 0)]⟩⟩ := by
    decide +kernel
  obtain ⟨listing, row, hlisting, hrow, hclosed, -⟩ := assemble_listing hdecode
  obtain ⟨hassemble, hagain⟩ := hclosed (by simp [Program.Refers, Program.Marks])
  exact ⟨_, listing, row, hdecode, ⟨.jump, by decide, by simp⟩, hlisting, hrow, hassemble,
    hagain false⟩

end Whitespace
