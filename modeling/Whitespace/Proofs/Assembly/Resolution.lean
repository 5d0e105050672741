import Whitespace.Proofs.Assembly.Allocation
import Whitespace.Proofs.Assembly.Draft
import Whitespace.Proofs.Decoder.RoundTrip

/-!
# From a draft to a program

A draft names its labels and a program numbers them. With a number for every name each command is
an instruction, the source of a draft is the encoding of these instructions, and so decoding it
gives the commands back with their names resolved. Different names have different numbers, so the
last mark of a name is the last mark of its number.

## Main definitions

* `Draft.label` — the number of a label's name.
* `Command.instruction` — a command with its name resolved.

## Main statements

* `Draft.Collected.source_eq` — the source of a draft is the encoding of its instructions.
* `decode_assemble` — decoding what was assembled.
-/

namespace Whitespace.Assembly

/-- The number that the label called `name` gets. -/
def Draft.label (d : Draft) (name : String) : Nat :=
  Label.ofBits (((allocate d.names).get? name).getD [])

namespace Command

variable {c : Command}

/-- The instruction that a command stands for when `label` numbers the names. -/
def instruction (label : String → Nat) (c : Command) : Instruction where
  opcode := c.opcode
  operand :=
    match c.argument with
    | .none => none
    | .number v => some v
    | .name name => some (label name)

theorem instruction_wellFormed (hc : c.WellFormed) {label : String → Nat}
    (hlabel : ∀ name, 1 ≤ label name) : (c.instruction label).WellFormed := by
  have hcast (name : String) : (1 : Int) ≤ label name := by exact_mod_cast hlabel name
  obtain ⟨op, argument⟩ := c
  cases hkind : op.operandKind <;> cases argument <;>
    simp_all [WellFormed, instruction, Instruction.WellFormed]

theorem instruction_fits (hc : c.WellFormed) {label : String → Nat}
    (hlabel : ∀ name, c.argument = .name name → Decimal.Fits (label name)) :
    (c.instruction label).Fits := by
  obtain ⟨op, argument⟩ := c
  cases hkind : op.operandKind <;> cases argument <;>
    simp_all [WellFormed, instruction, Instruction.Fits]

/-- A mark stands for a mark. -/
theorem instruction_eq_mark_iff (hc : c.WellFormed) (label : String → Nat) (l : Int) :
    c.instruction label = ⟨.mark, some l⟩ ↔ ∃ name, c = ⟨.mark, .name name⟩ ∧ l = label name := by
  obtain ⟨op, argument⟩ := c
  constructor
  · intro h
    simp only [instruction, Instruction.mk.injEq] at h
    obtain ⟨rfl, hoperand⟩ := h
    cases argument with
    | none => simp at hoperand
    | number v => exact hc.elim
    | name name => exact ⟨name, rfl, by simpa [eq_comm] using hoperand⟩
  · rintro ⟨name, hmark, rfl⟩
    cases hmark
    rfl

end Command

namespace Draft

variable {d : Draft} {c : Command} {cs : List Command}

theorem one_le_label (d : Draft) (name : String) : 1 ≤ d.label name := Label.one_le_ofBits _

/-- A label is within the limit if its name does not spell a greater one and there are not too many
names. -/
theorem fits_label {name : String} (hname : name ∈ d.names)
    (hspells : ∀ bits, Label.ofName? name = some bits → Decimal.Fits (Label.ofBits bits))
    (hlength : 3 * d.names.length ≤ Decimal.bound) : Decimal.Fits (d.label name) := by
  obtain ⟨bits, hbits⟩ := Option.isSome_iff_exists.1 ((allocate_isSome_iff d.names name).2 hname)
  have hlabel : d.label name = Label.ofBits bits := by simp [label, hbits]
  rw [hlabel]
  cases hdigits : Label.ofName? name with
  | some digits =>
    obtain rfl : digits = bits :=
      Option.some.inj ((allocate_reserved hname hdigits).symm.trans hbits)
    exact hspells digits hdigits
  | none =>
    obtain ⟨n, hn, rfl⟩ := allocate_numeral hbits hdigits
    have hle := Label.ofBits_ofNat_le n
    rw [Decimal.Fits, Int.natAbs_natCast]
    omega

namespace Collected

theorem get?_allocate (hd : d.Collected cs) (hc : c ∈ cs) {name : String}
    (hname : c.argument = .name name) :
    (allocate d.names).get? name = some (Label.bits (d.label name)) := by
  have hmem : name ∈ d.names := (hd.mem_names name).2 ⟨c, hc, hname⟩
  obtain ⟨bits, hbits⟩ := Option.isSome_iff_exists.1 ((allocate_isSome_iff d.names name).2 hmem)
  simp [label, hbits]

/-- Different names are different labels. -/
theorem label_injective (hd : d.Collected cs) {c' : Command} (hc : c ∈ cs) (hc' : c' ∈ cs)
    {m n : String} (hm : c.argument = .name m) (hn : c'.argument = .name n)
    (h : d.label m = d.label n) : m = n := by
  have hget := hd.get?_allocate hc hm
  rw [h] at hget
  exact allocate_injective hget (hd.get?_allocate hc' hn)

/-- The blanks of a command are those of its instruction. -/
theorem encode?_eq (hd : d.Collected cs) (hc : c ∈ cs) (hwf : c.WellFormed) :
    c.encode? (allocate d.names) = some (c.instruction d.label).word := by
  have hinstruction :=
    Instruction.encode?_eq_some (Command.instruction_wellFormed hwf d.one_le_label)
  rw [← hinstruction]
  obtain ⟨op, argument⟩ := c
  cases hkind : op.operandKind <;> cases argument <;> simp [Command.WellFormed, hkind] at hwf
  case none.none => simp [Command.encode?, Command.instruction, Instruction.encode?, hkind]
  case number.number => simp [Command.encode?, Command.instruction, Instruction.encode?, hkind]
  case label.name name =>
    simp [Command.encode?, Command.instruction, Instruction.encode?, hkind,
      hd.get?_allocate hc rfl]

end Collected

end Draft

theorem source_false {labels : Table String (List Bool)} {c : Command} {word : List Blank}
    (h : c.encode? labels = some word) : c.source false labels = .ok (Blank.text word) := by
  simp [Command.source, h]

theorem sources_eq {tagged : Bool} {labels : Table String (List Bool)} {text : Command → String}
    {cs : List Command} (h : ∀ c ∈ cs, c.source tagged labels = .ok (text c)) :
    sources tagged labels cs = .ok (cs.map text) := by
  induction cs with
  | nil => rfl
  | cons c cs ih =>
    obtain ⟨hc, hcs⟩ := List.forall_mem_cons.1 h
    rw [sources, hc, ih hcs]
    rfl

theorem join_text (rows : List (List Blank)) :
    String.join (rows.map Blank.text) = Blank.text rows.flatten := by
  induction rows with
  | nil => rfl
  | cons row rows ih =>
    rw [List.map_cons, List.flatten_cons, Blank.text_append, ← ih]
    simp [String.join_cons]

namespace Draft

variable {d : Draft} {cs : List Command}

/-- The source of a draft whose labels all stand somewhere is the encoding of its instructions. -/
theorem Collected.source_eq (hd : d.Collected cs) (hwf : ∀ c ∈ cs, c.WellFormed)
    (hdefined : d.undefined = []) :
    ∃ log, d.source false = .ok
      (Blank.text ((cs.map (Command.instruction d.label)).map Instruction.word).flatten) log := by
  have hsources := sources_eq fun c hc => source_false (hd.encode?_eq hc (hwf c hc))
  have hrows : (cs.map fun c => Blank.text (c.instruction d.label).word) =
      ((cs.map (Command.instruction d.label)).map Instruction.word).map Blank.text := by
    simp
  rw [source, if_pos hdefined]
  simp only [hd.commands, hsources, hrows, join_text]
  exact ⟨_, rfl⟩

/-- The last mark of a label is the last mark of the name that it resolves. -/
theorem Collected.lastIndex_mark_iff (hd : d.Collected cs) (hwf : ∀ c ∈ cs, c.WellFormed) (l : Int)
    (k : Nat) :
    LastIndex (cs.map (Command.instruction d.label)) ⟨.mark, some l⟩ k ↔
      ∃ name, l = d.label name ∧ LastIndex cs ⟨.mark, .name name⟩ k := by
  have hmark (name : String) (hmem : ⟨.mark, .name name⟩ ∈ cs) :
      LastIndex (cs.map (Command.instruction d.label)) ⟨.mark, some (d.label name)⟩ k ↔
        LastIndex cs ⟨.mark, .name name⟩ k := by
    refine LastIndex.map_iff (f := Command.instruction d.label) (a := ⟨.mark, .name name⟩) ?_ k
    -- only commands of the draft are compared, and their names have different labels
    intro c hc heq
    obtain ⟨m, rfl, hm⟩ := (Command.instruction_eq_mark_iff (hwf c hc) d.label _).1 heq
    rw [hd.label_injective hc hmem rfl rfl (Int.ofNat.inj hm.symm)]
  constructor
  · intro h
    obtain ⟨c, hc, heq⟩ := List.mem_map.1 (List.mem_of_getElem? h.1)
    obtain ⟨name, rfl, rfl⟩ := (Command.instruction_eq_mark_iff (hwf c hc) d.label l).1 heq
    exact ⟨name, rfl, (hmark name hc).1 h⟩
  · rintro ⟨name, rfl, h⟩
    exact (hmark name (List.mem_of_getElem? h.1)).2 h

end Draft

theorem assemble_eq (tagged : Bool) {text : List Char} {d : Draft} (h : draft text = .ok () d) :
    assemble tagged text =
      match d.source tagged with
      | .ok s _ => .ok s
      | .error e _ => .error e := by
  cases hsource : d.source tagged <;> simp [assemble, assembleLogged, h, hsource]

/-- A text that can be assembled has a draft without undefined labels. -/
theorem draft_of_assemble {tagged : Bool} {text : List Char} {s : String}
    (h : assemble tagged text = .ok s) : ∃ d, draft text = .ok () d ∧ d.undefined = [] := by
  cases hdraft : draft text with
  | error e d => simp [assemble, assembleLogged, hdraft] at h
  | ok u d =>
    refine ⟨d, rfl, ?_⟩
    by_contra hundefined
    simp [assemble_eq tagged hdraft, Draft.source, hundefined] at h

/-- A text none of whose statements is refused is assembled to the encoding of its instructions, if
every label stands somewhere. -/
theorem assemble_of_forall₂ {text : List Char} {cs : List Command}
    (h : List.Forall₂ (fun s c => s.command = .ok c) (parse text).1 cs)
    (hmarked : ∀ c ∈ cs, ∀ name, c.argument = .name name → ⟨.mark, .name name⟩ ∈ cs) :
    ∃ d : Draft, d.Collected cs ∧ (∀ c ∈ cs, c.WellFormed) ∧ assemble false text = .ok
      (Blank.text ((cs.map (Command.instruction d.label)).map Instruction.word).flatten) := by
  obtain ⟨d, hdraft, hd, hwf⟩ := draft_of_forall₂ h
  have hdefined : d.undefined = [] := by
    refine List.eq_nil_iff_forall_not_mem.2 fun name hname => ?_
    obtain ⟨⟨c, hc, hargument⟩, hunmarked⟩ := (hd.mem_undefined name).1 hname
    exact hunmarked (hmarked c hc name hargument)
  obtain ⟨log, hsource⟩ := hd.source_eq hwf hdefined
  exact ⟨d, hd, hwf, by rw [assemble_eq false hdraft, hsource]⟩

/-- The encoding of commands whose labels are within the limit is decoded to their instructions. -/
theorem decode_commands (split : Bool) {d : Draft} {cs : List Command}
    (hwf : ∀ c ∈ cs, c.WellFormed)
    (hfits : ∀ c ∈ cs, ∀ name, c.argument = .name name → Decimal.Fits (d.label name)) :
    decode split (Text.bytes (Blank.text
      ((cs.map (Command.instruction d.label)).map Instruction.word).flatten)) =
      .ok (.ofInstructions (cs.map (Command.instruction d.label))) := by
  have hwords : ∀ i ∈ cs.map (Command.instruction d.label), i.WellFormed :=
    List.forall_mem_map.2 fun c hc => Command.instruction_wellFormed (hwf c hc) d.one_le_label
  have hoperands : ∀ i ∈ cs.map (Command.instruction d.label), i.Fits :=
    List.forall_mem_map.2 fun c hc => Command.instruction_fits (hwf c hc) (hfits c hc)
  rw [Blank.bytes_text]
  exact decode_words split (Instruction.forall₂_spells hwords) hoperands

/-- The meaning of assembly text. What a text is assembled to is decoded, with either treatment of
line ends, to one instruction for each command of its draft. Opcodes and numbers are those of the
commands, equal names are equal labels, and the label table leads from each label that is marked to
the last mark of its name. -/
theorem decode_assemble {text : List Char} {s : String} (h : assemble false text = .ok s) :
    ∃ d, draft text = .ok () d ∧ (∀ c ∈ d.commands.toList, c.WellFormed) ∧
      (∀ c ∈ d.commands.toList, ∀ c' ∈ d.commands.toList, ∀ m n,
        c.argument = .name m → c'.argument = .name n → (d.label m = d.label n ↔ m = n)) ∧
      ((∀ c ∈ d.commands.toList, ∀ name, c.argument = .name name →
          Decimal.Fits (d.label name)) →
        ∀ split, ∃ p, decode split (Text.bytes s) = .ok p ∧
          p.instructions.toList = d.commands.toList.map (Command.instruction d.label) ∧
          ∀ l k, p.labels.get? l = some k ↔
            ∃ name, l = d.label name ∧ LastIndex d.commands.toList ⟨.mark, .name name⟩ k) := by
  obtain ⟨d, hdraft, hdefined⟩ := draft_of_assemble h
  obtain ⟨cs, hd, hwf⟩ := draft_eq_ok hdraft
  refine ⟨d, hdraft, hd.commands ▸ hwf, ?_, ?_⟩
  · intro c hc c' hc' m n hm hn
    rw [hd.commands] at hc hc'
    exact ⟨hd.label_injective hc hc' hm hn, fun heq => by rw [heq]⟩
  · intro hfits split
    rw [hd.commands] at hfits ⊢
    obtain ⟨log, hsource⟩ := hd.source_eq hwf hdefined
    rw [assemble_eq false hdraft, hsource] at h
    cases h
    have hwords : ∀ i ∈ cs.map (Command.instruction d.label), i.WellFormed :=
      List.forall_mem_map.2 fun c hc => Command.instruction_wellFormed (hwf c hc) d.one_le_label
    have hoperands : ∀ i ∈ cs.map (Command.instruction d.label), i.Fits :=
      List.forall_mem_map.2 fun c hc => Command.instruction_fits (hwf c hc) (hfits c hc)
    refine ⟨_, ?_, Program.toList_ofInstructions _, fun l k => ?_⟩
    · rw [Blank.bytes_text]
      exact decode_words split (Instruction.forall₂_spells hwords) hoperands
    · rw [Program.get?_labels, hd.lastIndex_mark_iff hwf]

/-- The label `L0` is marked twice, and its digits are not available to the label `a`. -/
theorem decode_assemble_loop :
    ∃ s p, assemble false "L0: a: push -2 jz L0 jmp a L0:".toList = .ok s ∧
      decode false (Text.bytes s) = .ok p ∧
      p.instructions.toList = [⟨.mark, some 2⟩, ⟨.mark, some 3⟩, ⟨.push, some (-2)⟩,
        ⟨.jumpZero, some 2⟩, ⟨.jump, some 3⟩, ⟨.mark, some 2⟩] ∧
      p.labels.get? 2 = some 5 := by
  let cs : List Command := [⟨.mark, .name "L0"⟩, ⟨.mark, .name "a"⟩, ⟨.push, .number (-2)⟩,
    ⟨.jumpZero, .name "L0"⟩, ⟨.jump, .name "a"⟩, ⟨.mark, .name "L0"⟩]
  have hassemble : assemble false "L0: a: push -2 jz L0 jmp a L0:".toList =
      .ok "\n   \n\n  \t\n  \t\t \n\n\t  \n\n \n\t\n\n   \n" := by decide +kernel
  have hparse : (parse "L0: a: push -2 jz L0 jmp a L0:".toList).1 =
      [.mark "L0", .mark "a", .number .push true ['2'], .jump .jumpZero "L0", .jump .jump "a",
        .mark "L0"] := by decide +kernel
  have hcommands : List.Forall₂ (fun s c => s.command = .ok c)
      (parse "L0: a: push -2 jz L0 jmp a L0:".toList).1 cs := by
    rw [hparse]
    exact .cons rfl (.cons rfl (.cons rfl (.cons rfl (.cons rfl (.cons rfl .nil)))))
  obtain ⟨d, hdraft, hd, -⟩ := draft_of_forall₂ hcommands
  obtain ⟨d', hdraft', -, -, hdecode⟩ := decode_assemble hassemble
  obtain rfl : d = d' := by
    rw [hdraft] at hdraft'
    cases hdraft'
    rfl
  have hnames : d.names = ["L0", "a"] := hd.names.trans (by decide +kernel)
  have hzero : d.label "L0" = 2 := by
    rw [Draft.label, hnames]
    decide +kernel
  have ha : d.label "a" = 3 := by
    rw [Draft.label, hnames]
    decide +kernel
  have hfits : Decimal.Fits 2 ∧ Decimal.Fits 3 :=
    ⟨Decimal.fits_of_lt_pow (n := 1) (by decide) (by decide),
      Decimal.fits_of_lt_pow (n := 1) (by decide) (by decide)⟩
  rw [hd.commands] at hdecode
  obtain ⟨p, hp, hinstructions, hlabels⟩ := hdecode (by simp [cs, hzero, ha, hfits]) false
  refine ⟨_, p, hassemble, hp, by simp [hinstructions, cs, Command.instruction, hzero, ha], ?_⟩
  have hlast : LastIndex cs ⟨.mark, .name "L0"⟩ 5 := (LastIndex.concat_self (cs.take 5) _ 5).2 rfl
  exact (hlabels 2 5).2 ⟨"L0", by rw [hzero]; rfl, hlast⟩

end Whitespace.Assembly
