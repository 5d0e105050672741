import Whitespace.Proofs.Assembly.Items
import Whitespace.Proofs.Assembly.Resolution

/-!
# The meaning of a list of statements

What a layout is assembled to depends on its statements only. Each statement has its own blanks once
the labels have digits, and the digits depend on the names in order of first appearance. Gaps and
comments have no part in this.

## Main definitions

* `Statement.name?`, `labelNames` — the labels of statements.
* `Statement.encode?` — a statement as blanks, given the digits of the labels.

## Main statements

* `Draft.Collected.names_eq`, `Draft.Collected.mem_undefined_statements` — a draft knows the names
  of the statements it was made of, and which of them stand nowhere.
* `assemble_layout` — assembling a layout of a list of statements.
-/

namespace Whitespace.Assembly

namespace Statement

/-- The label that a statement marks or goes to. -/
def name? : Statement → Option String
  | mark name => some name
  | jump _ name => some name
  | _ => none

/-- The blanks of a statement, unless its label has no digits or it is no statement of a program. -/
def encode? (labels : Table String (List Bool)) : Statement → Option (List Blank)
  | mark name => (labels.get? name).map fun bits => Opcode.mark.code ++ labelWord bits
  | plain op => some op.code
  | number op negative digits =>
    let v : Int := Decimal.value digits
    some (op.code ++ numberWord (if negative then -v else v))
  | character op [c] => some (op.code ++ numberWord c.toNat)
  | character _ _ => none
  | jump op name => (labels.get? name).map fun bits => op.code ++ labelWord bits
  | unknown _ => none

variable {s : Statement} {c : Command}

theorem name?_command (h : s.command = .ok c) : c.name? = s.name? := by
  cases s with
  | mark name =>
    cases h
    rfl
  | plain op =>
    cases h
    rfl
  | number op negative digits =>
    simp only [command] at h
    split at h <;> cases h
    rfl
  | character op text =>
    simp only [command] at h
    split at h <;> cases h
    rfl
  | jump op name =>
    cases h
    rfl
  | unknown text => cases h

/-- A statement that is not refused has the blanks of its command. -/
theorem encode?_command (hs : s.WellFormed) (h : s.command = .ok c)
    (labels : Table String (List Bool)) : c.encode? labels = s.encode? labels := by
  cases s with
  | mark name =>
    cases h
    rfl
  | plain op =>
    cases h
    have hkind : op.operandKind = .none := hs
    simp only [Command.encode?, hkind, encode?]
  | number op negative digits =>
    simp only [command, Decimal.read] at h
    split at h
    · next v hread =>
      cases h
      split at hread
      · cases hread
        simp only [Command.encode?, hs.1, encode?]
      · cases hread
    · cases h
  | character op text =>
    simp only [command] at h
    split at h
    · cases h
      have hkind : op.operandKind = .number := hs
      simp only [Command.encode?, hkind, encode?]
    · cases h
  | jump op name =>
    cases h
    simp only [Command.encode?, hs.1, encode?]
  | unknown text => cases h

end Statement

/-- The labels of statements in order of first appearance. -/
def labelNames (ss : List Statement) : List String := (ss.filterMap Statement.name?).eraseDups

/-! ## Drafts -/

section Commands

variable {ss : List Statement} {cs : List Command}

theorem filterMap_name? (h : List.Forall₂ (fun s c => s.command = .ok c) ss cs) :
    cs.filterMap Command.name? = ss.filterMap Statement.name? := by
  induction h with
  | nil => rfl
  | cons hs _ ih => rw [List.filterMap_cons, List.filterMap_cons, Statement.name?_command hs, ih]

theorem mapM_encode? {labels : Table String (List Bool)} {word : Command → List Blank}
    (hss : ∀ s ∈ ss, s.WellFormed) (h : List.Forall₂ (fun s c => s.command = .ok c) ss cs)
    (hword : ∀ c ∈ cs, c.encode? labels = some (word c)) :
    ss.mapM (Statement.encode? labels) = some (cs.map word) := by
  induction h with
  | nil => rfl
  | cons hs _ ih =>
    obtain ⟨hwf, hwfs⟩ := List.forall_mem_cons.1 hss
    obtain ⟨hc, hcs⟩ := List.forall_mem_cons.1 hword
    rw [Statement.encode?_command hwf hs] at hc
    simp [hc, ih hwfs hcs]

theorem mark_mem_iff (hss : ∀ s ∈ ss, s.WellFormed)
    (h : List.Forall₂ (fun s c => s.command = .ok c) ss cs) (name : String) :
    ⟨.mark, .name name⟩ ∈ cs ↔ .mark name ∈ ss := by
  induction h with
  | nil => simp
  | cons hs _ ih =>
    obtain ⟨hwf, hwfs⟩ := List.forall_mem_cons.1 hss
    rw [List.mem_cons, List.mem_cons, ih hwfs, ← hwf.command_eq_mark_iff hs, eq_comm]

namespace Draft.Collected

variable {d : Draft}

theorem names_eq (hd : d.Collected cs)
    (h : List.Forall₂ (fun s c => s.command = .ok c) ss cs) : d.names = labelNames ss := by
  rw [hd.names, filterMap_name? h, labelNames]

/-- A name is undefined when a statement goes to it and none marks it. -/
theorem mem_undefined_statements (hd : d.Collected cs) (hss : ∀ s ∈ ss, s.WellFormed)
    (h : List.Forall₂ (fun s c => s.command = .ok c) ss cs) (name : String) :
    name ∈ d.undefined ↔ (∃ op, .jump op name ∈ ss) ∧ .mark name ∉ ss := by
  have hnames : name ∈ d.names ↔ .mark name ∈ ss ∨ ∃ op, .jump op name ∈ ss := by
    rw [hd.names_eq h, labelNames, List.mem_eraseDups, List.mem_filterMap]
    constructor
    · rintro ⟨s, hs, hname⟩
      cases s <;> cases hname
      · exact .inl hs
      · exact .inr ⟨_, hs⟩
    · rintro (hs | ⟨op, hs⟩)
      · exact ⟨_, hs, rfl⟩
      · exact ⟨_, hs, rfl⟩
  have hmarked : name ∈ d.marked ↔ .mark name ∈ ss := by rw [hd.marked, mark_mem_iff hss h]
  rw [undefined, List.mem_filter, hnames, decide_eq_true_iff, hmarked]
  constructor
  · rintro ⟨hmark | hjump, hunmarked⟩
    · exact absurd hmark hunmarked
    · exact ⟨hjump, hunmarked⟩
  · rintro ⟨hjump, hunmarked⟩
    exact ⟨.inr hjump, hunmarked⟩

end Draft.Collected

end Commands

/-! ## Layouts -/

/-- The command of a statement that is spelled out, its digits being within the limit. -/
theorem Spelled.exists_command {s : Statement} {w : List Char} (h : Spelled s w)
    (hlimit : ∀ op negative digits, s = .number op negative digits →
      digits.length ≤ Decimal.limit) : ∃ c, s.command = .ok c := by
  cases h with
  | plain => exact ⟨_, rfl⟩
  | @number op g sign digits negative =>
    refine ⟨⟨op, .number (if negative then -(Decimal.value digits : Int) else
      Decimal.value digits)⟩, ?_⟩
    simp only [Statement.command, Decimal.read, if_pos (hlimit _ _ _ rfl)]
  | @name op g w =>
    split
    · exact ⟨_, rfl⟩
    · exact ⟨_, rfl⟩

theorem Layout.exists_commands {ss : List Statement} {text : List Char} (h : Layout ss text)
    (hlimit : ∀ op negative digits, .number op negative digits ∈ ss →
      digits.length ≤ Decimal.limit) :
    ∃ cs, List.Forall₂ (fun s c => s.command = .ok c) ss cs := by
  induction h with
  | done => exact ⟨[], .nil⟩
  | gap _ _ ih => exact ih hlimit
  | comment _ _ _ ih => exact ih hlimit
  | label _ _ _ _ _ ih =>
    obtain ⟨cs, hcs⟩ := ih fun op negative digits hmem =>
      hlimit op negative digits (List.mem_cons_of_mem _ hmem)
    exact ⟨_, .cons rfl hcs⟩
  | command hs _ _ ih =>
    obtain ⟨cs, hcs⟩ := ih fun op negative digits hmem =>
      hlimit op negative digits (List.mem_cons_of_mem _ hmem)
    obtain ⟨c, hc⟩ := hs.exists_command fun op negative digits heq =>
      hlimit op negative digits (heq ▸ List.mem_cons_self)
    exact ⟨_, .cons hc hcs⟩

/-- Assembling does not depend on the layout. Every layout of a list of statements is assembled to
the blanks of the statements one after the other, the labels having the digits that their names get
in order of first appearance. If some label that is gone to stands nowhere, every layout is refused,
and the labels missing are named. -/
theorem assemble_layout {ss : List Statement} {text : List Char} (h : Layout ss text)
    (hlimit : ∀ op negative digits, .number op negative digits ∈ ss →
      digits.length ≤ Decimal.limit) :
    ((∀ op name, .jump op name ∈ ss → .mark name ∈ ss) →
      ∃ words, ss.mapM (Statement.encode? (allocate (labelNames ss))) = some words ∧
        assemble false text = .ok (Blank.text words.flatten)) ∧
    ((∃ op name, .jump op name ∈ ss ∧ .mark name ∉ ss) →
      ∃ names, assemble false text = .error (.undefined names) ∧
        ∀ name, name ∈ names ↔ (∃ op, .jump op name ∈ ss) ∧ .mark name ∉ ss) := by
  obtain ⟨cs, hcs⟩ := h.exists_commands hlimit
  have hss : ∀ s ∈ ss, s.WellFormed := parse_of_layout h ▸ parse_wellFormed text
  have hparse : List.Forall₂ (fun s c => s.command = .ok c) (parse text).1 cs := by
    rwa [parse_of_layout h]
  obtain ⟨d, hdraft, hd, hwf⟩ := draft_of_forall₂ hparse
  constructor
  · intro hclosed
    have hdefined : d.undefined = [] := by
      refine List.eq_nil_iff_forall_not_mem.2 fun name hname => ?_
      obtain ⟨⟨op, hjump⟩, hunmarked⟩ := (hd.mem_undefined_statements hss hcs name).1 hname
      exact hunmarked (hclosed op name hjump)
    obtain ⟨log, hsource⟩ := hd.source_eq hwf hdefined
    refine ⟨cs.map fun c => (c.instruction d.label).word, ?_, ?_⟩
    · rw [← hd.names_eq hcs]
      exact mapM_encode? hss hcs fun c hc => hd.encode?_eq hc (hwf c hc)
    · rw [assemble_eq false hdraft, hsource, List.map_map]
      rfl
  · rintro ⟨op, name, hjump, hunmarked⟩
    have hundefined : d.undefined ≠ [] :=
      List.ne_nil_of_mem ((hd.mem_undefined_statements hss hcs name).2 ⟨⟨op, hjump⟩, hunmarked⟩)
    refine ⟨d.undefined.mergeSort (· ≤ ·), ?_, fun m => ?_⟩
    · rw [assemble_eq false hdraft, Draft.source, if_neg hundefined]
    · rw [(List.mergeSort_perm d.undefined (· ≤ ·)).mem_iff, hd.mem_undefined_statements hss hcs]

/-- A loop on three lines, with gaps of all kinds, and a comment that touches the number. -/
theorem assemble_layout_loop :
    Layout [.mark "a", .number .push true ['0', '2'], .jump .jump "a"]
      "a :\tpush\r\n-02//a b:\n jmp\t\ta ".toList ∧
    assemble false "a :\tpush\r\n-02//a b:\n jmp\t\ta ".toList =
      .ok "\n   \n  \t\t \n\n \n \n" := by
  have hlayout : Layout [.mark "a", .number .push true ['0', '2'], .jump .jump "a"]
      "a :\tpush\r\n-02//a b:\n jmp\t\ta ".toList := by
    have hname : Spelled (.jump .jump "a") "jmp\t\ta".toList :=
      @Spelled.name .jump ['\t', '\t'] ['a'] rfl (by decide) (List.all_eq_true.1 rfl) (by decide)
    have hnumber : Spelled (.number .push true ['0', '2']) "push\r\n-02".toList :=
      @Spelled.number .push ['\r', '\n'] ['-'] ['0', '2'] true rfl (by decide)
        (List.all_eq_true.1 rfl) (.inr ⟨rfl, rfl⟩) (by decide) (List.all_eq_true.1 rfl)
    have hjump : Layout [.jump .jump "a"] "\n jmp\t\ta ".toList :=
      .gap rfl (.gap rfl (.command hname (.inl (stops_cons.2 rfl)) (.gap rfl .done)))
    have hcomment : Layout [.jump .jump "a"] "//a b:\n jmp\t\ta ".toList :=
      @Layout.comment "a b:".toList _ _ (by decide) (stops_cons.2 rfl) hjump
    have hpush : Layout [.number .push true ['0', '2'], .jump .jump "a"]
        "push\r\n-02//a b:\n jmp\t\ta ".toList :=
      .command hnumber (.inr ⟨_, rfl⟩) hcomment
    exact @Layout.label ['a'] [' '] _ _ (by decide) (by decide) (List.all_eq_true.1 rfl)
      (.inl (stops_cons.2 rfl)) (.gap rfl hpush)
  obtain ⟨hclosed, -⟩ := assemble_layout hlayout (by simp [Decimal.limit])
  obtain ⟨words, hwords, hassemble⟩ := hclosed (by simp)
  have hvalue : some words = some [[.feed, .space, .space, .space, .feed],
      [.space, .space, .tab, .tab, .space, .feed], [.feed, .space, .feed, .space, .feed]] := by
    rw [← hwords]
    decide +kernel
  cases hvalue
  exact ⟨hlayout, hassemble⟩

end Whitespace.Assembly
