import Mathlib.Data.List.Forall2
import Mathlib.Data.List.Induction
import Mathlib.Data.List.Nodup
import Mathlib.Data.List.TakeWhile
import Whitespace.Assembly.Assembler
import Whitespace.Proofs.Decimal

/-!
# From statements to a draft

The reader gives every opcode the operand that it takes, so the commands of a draft can be encoded
as soon as their labels have digits. A draft is determined by its commands: the names are those of
the commands in order of first appearance, and the marked ones are those of the marks.

## Main definitions

* `Statement.WellFormed`, `Command.WellFormed` — the operand is the one the opcode takes.
* `Statement.command` — the command that a statement adds.
* `Draft.Collected` — the draft holds given commands.

## Main statements

* `Cursor.statements_forall` — what holds of every label, command and unknown word holds of every
  statement that the reader finds.
* `parse_wellFormed` — the reader finds only well-formed statements.
* `Draft.Collected.add`, `Draft.Collected.addAll` — one statement, and all of them.
* `draft_of_forall₂`, `draft_eq_ok` — the draft of a text.
-/

namespace Whitespace.Assembly

/-! ## Statements -/

/-- The operand is the one that the opcode takes. -/
def Statement.WellFormed : Statement → Prop
  | mark _ => True
  | plain op => op.operandKind = .none
  | number op _ digits => op.operandKind = .number ∧ ∀ c ∈ digits, Decimal.isDigit c
  | character op _ => op.operandKind = .number
  | jump op _ => op.operandKind = .label ∧ op ≠ .mark
  | unknown _ => True

namespace Cursor

variable {c c' : Cursor} {ss : List Statement} {s : Statement}

theorem digits_of_number {v : Bool × List Char} (h : c.number = some (v, c')) :
    ∀ d ∈ v.2, Decimal.isDigit d := by
  unfold number at h
  dsimp only at h
  split at h
  · cases h
  · cases h
    exact fun d hd => List.mem_takeWhile_imp hd

theorem operand_wellFormed {op : Opcode} (h : c.operand op = some (s, c')) : s.WellFormed := by
  unfold operand at h
  split at h
  · next hkind =>
    cases h
    exact hkind
  · next hkind =>
    have hway := longest_mem h
    simp only [List.mem_cons, List.not_mem_nil, or_false] at hway
    rcases hway with hway | hway
    · obtain ⟨v, hnumber, heq⟩ := Option.map_eq_some_iff.1 hway.symm
      cases heq
      exact ⟨hkind, digits_of_number hnumber⟩
    · obtain ⟨v, -, heq⟩ := Option.map_eq_some_iff.1 hway.symm
      cases heq
      exact hkind
  · next hkind =>
    obtain ⟨v, -, heq⟩ := Option.map_eq_some_iff.1 h
    cases heq
    split
    · trivial
    · next hop => exact ⟨hkind, hop⟩

/-- What a statement can consist of. -/
theorem statement_cases (h : c.statement = some (ss, c')) :
    (∃ name c₁ s c₂, c.label = some (name, c₁) ∧ c₁.command = some (s, c₂) ∧
      ss = [.mark name, s] ∧ c' = c₂.comments) ∨
    (∃ s c₁, c.label = none ∧ c.command = some (s, c₁) ∧ ss = [s] ∧ c' = c₁.comments) ∨
    ∃ name c₁, c.label = some (name, c₁) ∧ ss = [.mark name] ∧ c' = c₁.comments := by
  have hway := longest_mem h
  simp only [List.mem_cons, List.not_mem_nil, or_false] at hway
  rcases hway with hway | hway
  · split at hway
    · next name c₁ hlabel =>
      obtain ⟨⟨s, c₂⟩, hcommand, heq⟩ := Option.map_eq_some_iff.1 hway.symm
      cases heq
      exact .inl ⟨name, c₁, s, c₂, hlabel, hcommand, rfl, rfl⟩
    · next hlabel =>
      obtain ⟨⟨s, c₁⟩, hcommand, heq⟩ := Option.map_eq_some_iff.1 hway.symm
      cases heq
      exact .inr (.inl ⟨s, c₁, hlabel, hcommand, rfl, rfl⟩)
  · obtain ⟨⟨name, c₁⟩, hlabel, heq⟩ := Option.map_eq_some_iff.1 hway.symm
    cases heq
    exact .inr (.inr ⟨name, c₁, hlabel, rfl, rfl⟩)

theorem unknown_eq_some (h : c.unknown = some (ss, c')) : ∃ text, ss = [.unknown text] := by
  unfold unknown at h
  dsimp only at h
  split at h
  · cases h
  · cases h
    exact ⟨_, rfl⟩

theorem exists_name_of_label {name : String} (h : c.label = some (name, c')) :
    ∃ c₁, c.name = some (name, c₁) := by
  unfold label at h
  split at h
  · next hname =>
    split at h
    · cases h
      exact ⟨_, hname⟩
    · cases h
  · cases h

theorem exists_operand_of_command (h : c.command = some (s, c')) :
    ∃ op c₁, operand op c₁ = some (s, c') := by
  unfold command at h
  split at h
  · exact ⟨_, _, h⟩
  · cases h

section Forall

-- whatever the reader finds is a label, a command or an unknown word
variable {P : Statement → Prop}
  (hmark : ∀ (c : Cursor) name c', c.name = some (name, c') → P (.mark name))
  (hoperand : ∀ (c : Cursor) op s c', c.operand op = some (s, c') → P s)
  (hunknown : ∀ text, P (.unknown text))
include hmark hoperand

theorem statement_forall (h : c.statement = some (ss, c')) : ∀ s ∈ ss, P s := by
  have hlabel {c : Cursor} {name : String} {c' : Cursor} (h : c.label = some (name, c')) :
      P (.mark name) := by
    obtain ⟨c₁, hname⟩ := exists_name_of_label h
    exact hmark c name c₁ hname
  have hcommand {c : Cursor} {s : Statement} {c' : Cursor} (h : c.command = some (s, c')) :
      P s := by
    obtain ⟨op, c₁, hop⟩ := exists_operand_of_command h
    exact hoperand c₁ op s c' hop
  obtain ⟨name, c₁, s, c₂, hl, hc, rfl, -⟩ | ⟨s, c₁, -, hc, rfl, -⟩ | ⟨name, c₁, hl, rfl, -⟩ :=
    statement_cases h
  · simp [hlabel hl, hcommand hc]
  · simp [hcommand hc]
  · simp [hlabel hl]

include hunknown

theorem item_forall (h : c.item = some (ss, c')) : ∀ s ∈ ss, P s := by
  have hway := longest_mem h
  simp only [List.mem_cons, List.not_mem_nil, or_false] at hway
  rcases hway with hway | hway | hway
  · exact statement_forall hmark hoperand hway.symm
  · obtain ⟨c₁, -, heq⟩ := Option.map_eq_some_iff.1 hway.symm
    cases heq
    simp
  · obtain ⟨text, rfl⟩ := unknown_eq_some hway.symm
    simp [hunknown text]

theorem statements_forall (c : Cursor) : ∀ s ∈ c.statements.1, P s := by
  fun_induction statements c with
  | case1 c ss c' hitem more ih =>
    intro s hs
    rcases List.mem_append.1 hs with hs | hs
    · exact item_forall hmark hoperand hunknown hitem s hs
    · exact ih s hs
  | case2 => simp

end Forall

end Cursor

/-- Whatever the text is, the reader gives each opcode the operand it takes. -/
theorem parse_wellFormed (text : List Char) : ∀ s ∈ (parse text).1, s.WellFormed :=
  Cursor.statements_forall (fun _ _ _ _ => trivial) (fun _ _ _ _ => Cursor.operand_wellFormed)
    (fun _ => trivial) _

/-- The command that a statement adds, or the reason why it is refused. -/
def Statement.command : Statement → Except Error Command
  | mark name => .ok ⟨.mark, .name name⟩
  | plain op => .ok ⟨op, .none⟩
  | number op negative digits =>
    match Decimal.read negative digits with
    | .ok v => .ok ⟨op, .number v⟩
    | .error e => .error (.tooLong e)
  | character op text =>
    match text with
    | [c] => .ok ⟨op, .number c.toNat⟩
    | _ => .error (.notSingle text)
  | jump op label => .ok ⟨op, .name label⟩
  | unknown text => .error (.unknown text)

namespace Command

/-- The operand is the one that the opcode takes, and a number is within the limit of decimal
text. -/
def WellFormed (c : Command) : Prop :=
  match c.opcode.operandKind, c.argument with
  | .none, .none => True
  | .number, .number v => Decimal.Fits v
  | .label, .name _ => True
  | _, _ => False

/-- The label of a command, if it has one. -/
def name? (c : Command) : Option String :=
  match c.argument with
  | .name name => some name
  | _ => none

theorem name?_eq_some {c : Command} {name : String} :
    c.name? = some name ↔ c.argument = .name name := by
  unfold name?
  cases c.argument <;> simp

end Command

theorem Statement.WellFormed.command {s : Statement} (h : s.WellFormed) {c : Command}
    (hc : s.command = .ok c) : c.WellFormed := by
  cases s with
  | mark name =>
    cases hc
    trivial
  | plain op =>
    cases hc
    have hkind : op.operandKind = .none := h
    simp [Command.WellFormed, hkind]
  | number op negative digits =>
    obtain ⟨hkind, hdigits⟩ := h
    simp only [Statement.command] at hc
    split at hc
    · next v hread =>
      cases hc
      simpa [Command.WellFormed, hkind] using Decimal.fits_of_read hdigits hread
    · cases hc
  | character op text =>
    have hkind : op.operandKind = .number := h
    simp only [Statement.command] at hc
    split at hc
    · next d =>
      cases hc
      simpa [Command.WellFormed, hkind] using Decimal.fits_char d
    · cases hc
  | jump op label =>
    cases hc
    have hkind : op.operandKind = .label := h.1
    simp [Command.WellFormed, hkind]
  | unknown text => cases hc

theorem wellFormed_of_forall₂ {ss : List Statement} {cs : List Command}
    (hss : ∀ s ∈ ss, s.WellFormed) (h : List.Forall₂ (fun s c => s.command = .ok c) ss cs) :
    ∀ c ∈ cs, c.WellFormed := by
  induction h with
  | nil => simp
  | cons hs _ ih =>
    obtain ⟨hwf, hwfs⟩ := List.forall_mem_cons.1 hss
    exact List.forall_mem_cons.2 ⟨hwf.command hs, ih hwfs⟩

/-- Only marks add marks. -/
theorem Statement.WellFormed.command_eq_mark_iff {s : Statement} (h : s.WellFormed) {c : Command}
    (hc : s.command = .ok c) {name : String} : s = .mark name ↔ ⟨.mark, .name name⟩ = c := by
  cases s with
  | mark m =>
    cases hc
    simp [eq_comm]
  | jump op label =>
    cases hc
    simp [Ne.symm h.2]
  | plain op =>
    cases hc
    simp
  | number op negative digits =>
    simp only [Statement.command] at hc
    split at hc <;> cases hc
    simp
  | character op text =>
    simp only [Statement.command] at hc
    split at hc <;> cases hc
    simp
  | unknown text => cases hc

/-! ## Drafts -/

namespace Draft

variable {d d' : Draft} {s : Statement} {ss : List Statement} {c : Command} {cs : List Command}

@[simp] theorem commands_useName (d : Draft) (name : String) :
    (d.useName name).commands = d.commands := by
  unfold useName
  split <;> rfl

@[simp] theorem names_useName (d : Draft) (name : String) :
    (d.useName name).names = if name ∈ d.names then d.names else d.names ++ [name] := by
  unfold useName
  split <;> rfl

@[simp] theorem marked_useName (d : Draft) (name : String) :
    (d.useName name).marked = d.marked := by
  unfold useName
  split <;> rfl

@[simp] theorem commands_addMark (d : Draft) (name : String) :
    (d.addMark name).commands = d.commands.push ⟨.mark, .name name⟩ := by
  unfold addMark
  dsimp only [push, note]
  split <;> split <;> simp

@[simp] theorem names_addMark (d : Draft) (name : String) :
    (d.addMark name).names = (d.useName name).names := by
  unfold addMark
  dsimp only [push, note]
  split <;> split <;> simp

@[simp] theorem mem_marked_addMark (d : Draft) (name m : String) :
    m ∈ (d.addMark name).marked ↔ m ∈ d.marked ∨ m = name := by
  unfold addMark
  dsimp only [push, note]
  split <;> split <;> grind [marked_useName]

/-- What a statement that is not refused does to the parts of a draft. -/
theorem add_of_ok (d : Draft) (h : s.command = .ok c) :
    ∃ d', d.add s = .ok () d' ∧ d'.commands = d.commands.push c ∧
      d'.names = c.name?.elim d.names (fun name => (d.useName name).names) ∧
      ∀ name, name ∈ d'.marked ↔ name ∈ d.marked ∨ s = .mark name := by
  cases s with
  | mark name =>
    cases h
    exact ⟨d.addMark name, rfl, by simp, by simp [Command.name?], by simp [eq_comm]⟩
  | plain op =>
    cases h
    exact ⟨_, rfl, rfl, rfl, by simp [announce, note, push]⟩
  | number op negative digits =>
    simp only [Statement.command] at h
    split at h
    · next v hread =>
      cases h
      refine ⟨(d.announce op).push ⟨op, .number v⟩, ?_, rfl, rfl, by simp [announce, note, push]⟩
      simp only [add, hread]
    · cases h
  | character op text =>
    simp only [Statement.command] at h
    split at h
    · cases h
      exact ⟨_, rfl, rfl, rfl, by simp [announce, note, push]⟩
    · cases h
  | jump op label =>
    cases h
    refine ⟨_, rfl, ?_, ?_, ?_⟩ <;> simp [announce, note, push, Command.name?]
  | unknown text => cases h

theorem add_of_error (d : Draft) {e : Error} (h : s.command = .error e) :
    ∃ d', d.add s = .error e d' := by
  cases s with
  | mark name => cases h
  | plain op => cases h
  | number op negative digits =>
    simp only [Statement.command] at h
    split at h
    · cases h
    · next hread =>
      cases h
      exact ⟨d.announce op, by simp only [add, hread]⟩
  | character op text =>
    simp only [Statement.command] at h
    split at h
    · cases h
    · next hsingle =>
      cases h
      refine ⟨d.announce op, ?_⟩
      simp only [add]
  | jump op label => cases h
  | unknown text =>
    cases h
    exact ⟨d, rfl⟩

/-- The draft holds the commands `cs`, their names in order of first appearance, and the names of
the marks among them. -/
structure Collected (d : Draft) (cs : List Command) : Prop where
  commands : d.commands.toList = cs
  names : d.names = (cs.filterMap Command.name?).eraseDups
  marked : ∀ name, name ∈ d.marked ↔ ⟨.mark, .name name⟩ ∈ cs

theorem collected_empty : ({} : Draft).Collected [] := ⟨rfl, rfl, by simp⟩

theorem eraseDups_concat (names : List String) (name : String) :
    (names ++ [name]).eraseDups =
      if name ∈ names then names.eraseDups else names.eraseDups ++ [name] := by
  rw [List.eraseDups_append]
  by_cases h : name ∈ names <;> simp [h, List.removeAll, List.eraseDups_cons]

theorem nodup_eraseDups (names : List String) : names.eraseDups.Nodup := by
  induction names using List.reverseRecOn with
  | nil => exact List.nodup_nil
  | append_singleton names name ih =>
    rw [eraseDups_concat]
    split
    · exact ih
    · next h =>
      refine List.nodup_append.2 ⟨ih, List.nodup_singleton name, ?_⟩
      intro m hm n hn hmn
      rw [List.mem_singleton.1 hn] at hmn
      exact h (hmn ▸ List.mem_eraseDups.1 hm)

namespace Collected

theorem nodup_undefined (hd : d.Collected cs) : d.undefined.Nodup := by
  rw [undefined, hd.names]
  exact (nodup_eraseDups _).filter _

theorem mem_names (hd : d.Collected cs) (name : String) :
    name ∈ d.names ↔ ∃ c ∈ cs, c.argument = .name name := by
  rw [hd.names, List.mem_eraseDups, List.mem_filterMap]
  simp only [Command.name?_eq_some]

/-- No command has more than one name. -/
theorem length_names_le (hd : d.Collected cs) : d.names.length ≤ cs.length := by
  have hsubset : d.names ⊆ cs.filterMap Command.name? := by
    rw [hd.names]
    exact fun name hname => List.mem_eraseDups.1 hname
  have hnodup : d.names.Nodup := hd.names ▸ nodup_eraseDups _
  exact Nat.le_trans (hnodup.length_le_of_subset hsubset) (List.length_filterMap_le _ _)

/-- A name is undefined when a command goes to it and no mark bears it. -/
theorem mem_undefined (hd : d.Collected cs) (name : String) :
    name ∈ d.undefined ↔
      (∃ c ∈ cs, c.argument = .name name) ∧ ⟨.mark, .name name⟩ ∉ cs := by
  simp [undefined, hd.mem_names, hd.marked]

/-- One more statement adds its command. -/
theorem add (hd : d.Collected cs) (hs : s.WellFormed) (h : s.command = .ok c) :
    ∃ d', d.add s = .ok () d' ∧ d'.Collected (cs ++ [c]) := by
  obtain ⟨d', hadd, hcommands, hnames, hmarked⟩ := d.add_of_ok h
  refine ⟨d', hadd, ?_, ?_, fun name => ?_⟩
  · rw [hcommands, Array.toList_push, hd.commands]
  · rw [hnames, List.filterMap_append]
    cases hname : c.name? with
    | none => simp [hname, hd.names]
    | some name =>
      rw [List.filterMap_cons_some hname, List.filterMap_nil, eraseDups_concat]
      simp only [Option.elim, names_useName, hd.names, List.mem_eraseDups]
  · rw [hmarked, hd.marked, hs.command_eq_mark_iff h, List.mem_append, List.mem_singleton, eq_comm]

/-- Statements that are not refused add their commands one after the other. -/
theorem addAll (hd : d.Collected cs) (hss : ∀ s ∈ ss, s.WellFormed) {cs' : List Command}
    (h : List.Forall₂ (fun s c => s.command = .ok c) ss cs') :
    ∃ d', d.addAll ss = .ok () d' ∧ d'.Collected (cs ++ cs') := by
  induction h generalizing d cs with
  | nil => exact ⟨d, rfl, by simpa using hd⟩
  | @cons s c ss cs' hs _ ih =>
    obtain ⟨hwf, hwfs⟩ := List.forall_mem_cons.1 hss
    obtain ⟨e, hadd, he⟩ := hd.add hwf hs
    obtain ⟨e', hall, he'⟩ := ih he hwfs
    refine ⟨e', ?_, by simpa using he'⟩
    rw [Draft.addAll, hadd]
    exact hall

end Collected

/-- If all statements are taken over, none is refused. -/
theorem forall₂_of_addAll (h : d.addAll ss = .ok () d') :
    ∃ cs, List.Forall₂ (fun s c => s.command = .ok c) ss cs := by
  induction ss generalizing d with
  | nil => exact ⟨[], .nil⟩
  | cons s ss ih =>
    rw [addAll] at h
    cases hs : s.command with
    | error e =>
      obtain ⟨e', hadd⟩ := d.add_of_error hs
      simp [hadd] at h
    | ok c =>
      obtain ⟨e, hadd, -⟩ := d.add_of_ok hs
      rw [hadd] at h
      obtain ⟨cs, hcs⟩ := ih h
      exact ⟨c :: cs, .cons hs hcs⟩

end Draft

/-- A text none of whose statements is refused has a draft, which holds their commands. -/
theorem draft_of_forall₂ {text : List Char} {cs : List Command}
    (h : List.Forall₂ (fun s c => s.command = .ok c) (parse text).1 cs) :
    ∃ d, draft text = .ok () d ∧ d.Collected cs ∧ ∀ c ∈ cs, c.WellFormed := by
  have hwf := parse_wellFormed text
  obtain ⟨d, hd, hcollected⟩ := Draft.collected_empty.addAll hwf h
  exact ⟨d, hd, hcollected, wellFormed_of_forall₂ hwf h⟩

/-- A draft holds well-formed commands, whatever text it is made of. -/
theorem draft_eq_ok {text : List Char} {d : Draft} (h : draft text = .ok () d) :
    ∃ cs, d.Collected cs ∧ ∀ c ∈ cs, c.WellFormed := by
  obtain ⟨cs, hcs⟩ := Draft.forall₂_of_addAll h
  obtain ⟨d', hd', hcollected, hwf⟩ := draft_of_forall₂ hcs
  rw [h] at hd'
  cases hd'
  exact ⟨cs, hcollected, hwf⟩

end Whitespace.Assembly
