import Whitespace.Proofs.Decoder.Session

/-!
# An account of the bytes that were read

Whatever bytes a decoder has read, it can be said what became of them. Their blanks are words, which
spell the instructions of the program one by one, and behind the last word the beginning of another
one, which is what the stage holds. So a source is decoded exactly when its blanks are words.

## Main definitions

* `blanks` — the blanks that the bytes of a source stand for.
* `Stage.Begins` — the blanks are the beginning of a word that leads to a stage.
* `Decoder.Account` — what became of the bytes that a decoder has read.

## Main statements

* `Stage.Begins.unfinished`, `Stage.Begins.complete` — one more blank.
* `Decoder.Account.step`, `Decoder.account_of_feed` — one more byte, and a whole source.
* `decode_eq_ok_iff` — the sources that are decoded, and to what.
-/

namespace Whitespace

/-! ## The blanks of a source -/

theorem Blank.byte_injective : Function.Injective Blank.byte := by
  intro c c' h
  cases c <;> cases c' <;> simp [byte] at h ⊢

/-- The blanks that the bytes of a source stand for when they follow the byte `previous`. -/
def blanksFrom (split : Bool) (previous : Option UInt8) : List UInt8 → List Blank
  | [] => []
  | b :: rest => (Blank.ofByte? split previous b).toList ++ blanksFrom split (some b) rest

/-- The blanks that the bytes of a source stand for. -/
def blanks (split : Bool) (source : List UInt8) : List Blank := blanksFrom split none source

theorem normalizeFrom_eq (split : Bool) (previous : Option UInt8) (source : List UInt8) :
    normalizeFrom split previous source = (blanksFrom split previous source).map Blank.byte := by
  induction source generalizing previous with
  | nil => rfl
  | cons b source ih =>
    rw [normalizeFrom, normalByte?_eq, ih, blanksFrom, List.map_append]
    cases Blank.ofByte? split previous b <;> rfl

/-- The normal form of a source writes its blanks. -/
theorem normalize_eq (split : Bool) (source : List UInt8) :
    normalize split source = (blanks split source).map Blank.byte :=
  normalizeFrom_eq split none source

theorem blanksFrom_append (split : Bool) (previous : Option UInt8) (s t : List UInt8) :
    blanksFrom split previous (s ++ t) =
      blanksFrom split previous s ++ blanksFrom split (s.getLast?.or previous) t := by
  apply List.map_injective_iff.2 Blank.byte_injective
  rw [List.map_append, ← normalizeFrom_eq, ← normalizeFrom_eq, ← normalizeFrom_eq,
    normalizeFrom_append]

theorem blanks_append (split : Bool) (s t : List UInt8) :
    blanks split (s ++ t) = blanks split s ++ blanksFrom split s.getLast? t := by
  rw [blanks, blanksFrom_append, Option.or_none, blanks]

theorem blanks_concat (split : Bool) (s : List UInt8) (b : UInt8) :
    blanks split (s ++ [b]) = blanks split s ++ (Blank.ofByte? split s.getLast? b).toList := by
  rw [blanks_append, blanksFrom, blanksFrom, List.append_nil]

/-! ## Beginnings of words -/

theorem Bits.value_concat (bits : List Bool) (b : Bool) :
    value (bits ++ [b]) = 2 * value bits + b.toNat := by
  rw [value, valueFrom_append, valueFrom_cons, valueFrom_nil, value]

/-- Blanks that are the beginning of some word, and not all of any. -/
theorem exists_of_select_more {α : Type} {items : List α} {word : α → List Blank}
    {pending : List Blank} (h : select items word pending = .more) :
    ∃ a ∈ items, pending <+: word a ∧ pending ≠ word a := by
  unfold select at h
  split at h
  · cases h
  · next hnone =>
    split at h
    · next hany =>
      obtain ⟨a, ha, hprefix⟩ := List.any_eq_true.1 hany
      refine ⟨a, ha, List.isPrefixOf_iff_prefix.1 hprefix, fun heq => ?_⟩
      exact List.find?_eq_none.1 hnone a ha (decide_eq_true heq.symm)
    · cases h

namespace Stage

/-- The blanks are the beginning of a word, and reading them leads to the stage. -/
inductive Begins : Stage → List Blank → Prop where
  | family {pending : List Blank} (h : pending = [] ∨ pending = [.tab]) :
      Begins (family pending) pending
  | command {op : Opcode} {pending : List Blank} (h : pending <+: op.command)
      (hne : pending ≠ op.command) : Begins (command op.family pending) (op.family.word ++ pending)
  | unsigned {op : Opcode} (h : op.operandKind = .number) : Begins (number op none 0) op.code
  | number {op : Opcode} (h : op.operandKind = .number) (sign : Sign) (bits : List Bool) :
      Begins (number op (some sign) (Bits.value bits))
        (op.code ++ sign.blank :: bits.map Blank.ofBit)
  | label {op : Opcode} (h : op.operandKind = .label) (bits : List Bool) :
      Begins (label op (Bits.value (true :: bits))) (op.code ++ bits.map Blank.ofBit)

variable {st st' : Stage} {w : List Blank} {c : Blank} {i : Instruction}

theorem begins_start : Begins start [] := .family (.inl rfl)

theorem Begins.eq_nil (h : Begins start w) : w = [] := by
  cases h
  rfl

/-- A family has a command, and no command is empty. -/
theorem begins_family_word (f : Family) : Begins (Stage.command f []) f.word := by
  have hbegins (op : Opcode) : Begins (Stage.command op.family []) op.family.word := by
    have hne : [] ≠ op.command := by cases op <;> simp [Opcode.command]
    simpa using Begins.command List.nil_prefix hne
  cases f with
  | stack => exact hbegins .push
  | arithmetic => exact hbegins .add
  | heap => exact hbegins .store
  | flow => exact hbegins .mark
  | io => exact hbegins .writeChar

/-- A code is the beginning of every word of its opcode. -/
theorem begins_operandStage {op : Opcode} (h : Decoder.operandStage? op = some st) :
    Begins st op.code := by
  unfold Decoder.operandStage? at h
  split at h <;> cases h
  · exact .unsigned (by assumption)
  · simpa [Bits.value] using Begins.label (by assumption) []

theorem begins_number_digit {op : Opcode} (h : op.operandKind = .number) (sign : Sign)
    (bits : List Bool) (b : Bool) :
    Begins (Stage.number op (some sign) (2 * Bits.value bits + b.toNat))
      (op.code ++ sign.blank :: bits.map Blank.ofBit ++ [Blank.ofBit b]) := by
  have hmore := Begins.number h sign (bits ++ [b])
  rw [Bits.value_concat, List.map_append, ← List.cons_append, ← List.append_assoc] at hmore
  exact hmore

theorem begins_label_digit {op : Opcode} (h : op.operandKind = .label) (bits : List Bool)
    (b : Bool) :
    Begins (Stage.label op (2 * Bits.value (true :: bits) + b.toNat))
      (op.code ++ bits.map Blank.ofBit ++ [Blank.ofBit b]) := by
  have hmore := Begins.label h (bits ++ [b])
  rw [← List.cons_append, Bits.value_concat, List.map_append, ← List.append_assoc] at hmore
  exact hmore

/-- One more blank of a word that is not complete. -/
theorem Begins.unfinished (hst : Begins st w) (h : st.read c = .unfinished st') :
    Begins st' (w ++ [c]) := by
  cases hst with
  | family hpending =>
    simp only [read] at h
    split at h
    · next f hselect =>
      cases h
      rw [← (found_of_select hselect).2]
      exact begins_family_word f
    · next hselect =>
      cases h
      refine .family (.inr ?_)
      rcases hpending with rfl | rfl <;> cases c <;> first | rfl | cases hselect
    · cases h
  | @command op pending hprefix hne =>
    simp only [read] at h
    split at h
    · next op' hselect =>
      obtain ⟨hmem, hcommand⟩ := found_of_select hselect
      have hfamily : op'.family = op.family := by simpa [Family.opcodes] using hmem
      split at h
      · next hstage =>
        cases h
        rw [List.append_assoc, ← hcommand, ← hfamily]
        exact begins_operandStage hstage
      · cases h
    · next hselect =>
      cases h
      obtain ⟨op', hmem, hprefix', hne'⟩ := exists_of_select_more hselect
      have hfamily : op'.family = op.family := by simpa [Family.opcodes] using hmem
      rw [List.append_assoc, ← hfamily]
      exact .command hprefix' hne'
    · cases h
  | unsigned hkind =>
    cases c <;> cases h
    · exact .number hkind .plus []
    · exact .number hkind .minus []
  | number hkind sign bits =>
    cases c <;> cases h
    · exact begins_number_digit hkind sign bits false
    · exact begins_number_digit hkind sign bits true
  | label hkind bits =>
    cases c <;> cases h
    · exact begins_label_digit hkind bits false
    · exact begins_label_digit hkind bits true

/-- The last blank of a word. -/
theorem Begins.complete (hst : Begins st w) (h : st.read c = .complete i) : Spells i (w ++ [c]) := by
  cases hst with
  | family hpending =>
    simp only [read] at h
    split at h <;> cases h
  | @command op pending hprefix hne =>
    simp only [read] at h
    split at h
    · next op' hselect =>
      obtain ⟨hmem, hcommand⟩ := found_of_select hselect
      have hfamily : op'.family = op.family := by simpa [Family.opcodes] using hmem
      split at h
      · cases h
      · next hstage =>
        cases h
        have hkind : op'.operandKind = .none := by
          unfold Decoder.operandStage? at hstage
          split at hstage <;> simp_all
        rw [List.append_assoc, ← hcommand, ← hfamily]
        exact .plain hkind
    · cases h
    · cases h
  | unsigned hkind => cases c <;> cases h
  | number hkind sign bits =>
    cases c <;> cases h
    rw [← Sign.factor_mul]
    exact .number hkind sign bits
  | label hkind bits =>
    cases c <;> cases h
    exact .label hkind bits

end Stage

/-! ## Decoders -/

namespace Decoder

variable {split : Bool} {source : List UInt8} {is : List Instruction} {pending : List Blank}
  {d d' : Decoder} {b : UInt8}

/-- The decoder has read the bytes of `source`: the words in them spell the instructions `is`, and
behind these there are the blanks `pending` of another word. -/
structure Account (split : Bool) (source : List UInt8) (is : List Instruction)
    (pending : List Blank) (d : Decoder) : Prop where
  words : ∃ ws, List.Forall₂ Spells is ws ∧ blanks split source = ws.flatten ++ pending
  stage : d.stage.Begins pending
  program : d.program = .ofInstructions is
  offset : d.offset = source.length
  lastByte : d.lastByte = source.getLast?
  sound : d.Sound

theorem account_initial (split : Bool) : Account split [] [] [] {} :=
  ⟨⟨[], .nil, rfl⟩, Stage.begins_start, rfl, rfl, rfl, sound_initial⟩

theorem Account.fits (h : Account split source is pending d) : ∀ i ∈ is, i.Fits := by
  obtain ⟨js, hjs, hall⟩ := h.sound.program
  have hsame : is = js := by
    rw [← Program.toList_ofInstructions is, ← h.program, hjs, Program.toList_ofInstructions]
  intro i hi
  exact (hall i (hsame ▸ hi)).2

theorem Account.size_eq (h : Account split source is pending d) : d.program.size = is.length := by
  rw [h.program, Program.size_ofInstructions]

/-- One more byte: it is no blank, or goes on with a word, or ends one. -/
theorem Account.step (h : Account split source is pending d) (hstep : d.step split b = .ok () d') :
    ∃ is' pending', Account split (source ++ [b]) is' pending' d' := by
  have hsound := h.sound.step hstep
  obtain ⟨ws, hws, hblanks⟩ := h.words
  have hmore := blanks_concat split source b
  rw [hblanks, ← h.lastByte] at hmore
  have houtcome := step_outcome split d b
  rw [hstep] at houtcome
  cases houtcome with
  | ignored hb =>
    refine ⟨is, pending, ⟨ws, hws, ?_⟩, h.stage, h.program, by simp [h.offset], by simp, hsound⟩
    rw [hmore, hb, Option.toList_none, List.append_nil]
  | @unfinished c st hb hread =>
    refine ⟨is, pending ++ [c], ⟨ws, hws, ?_⟩, h.stage.unfinished hread, h.program,
      by simp [h.offset], by simp, hsound⟩
    rw [hmore, hb, Option.toList_some, List.append_assoc]
  | @complete c i log hb hread =>
    have hword : Spells i (pending ++ [c]) := h.stage.complete hread
    refine ⟨is ++ [i], [], ⟨ws ++ [pending ++ [c]], ?_, ?_⟩, Stage.begins_start, ?_,
      by simp [h.offset], by simp, hsound⟩
    · exact List.rel_append hws (.cons hword .nil)
    · rw [hmore, hb, Option.toList_some]
      simp
    · simp only [Program.ofInstructions_concat, h.program]

theorem account_of_feed (h : ({} : Decoder).feed split source = .ok () d) :
    ∃ is pending, Account split source is pending d := by
  induction source using List.reverseRecOn generalizing d with
  | nil =>
    cases h
    exact ⟨[], [], account_initial split⟩
  | append_singleton source b ih =>
    rw [feed_append] at h
    cases hfeed : ({} : Decoder).feed split source with
    | error e d₁ =>
      rw [hfeed] at h
      cases h
    | ok u d₁ =>
      rw [hfeed] at h
      obtain ⟨is, pending, haccount⟩ := ih hfeed
      dsimp only [feed] at h
      cases hstep : d₁.step split b with
      | error e d₂ =>
        rw [hstep] at h
        cases h
      | ok u d₂ =>
        rw [hstep] at h
        cases h
        exact haccount.step hstep

end Decoder

open Decoder

theorem exists_feed_of_decode {split : Bool} {source : List UInt8} {p : Program}
    (h : decode split source = .ok p) :
    ∃ d, ({} : Decoder).feed split source = .ok () d ∧ d.stage = .start ∧ d.program = p := by
  rw [decode, decodeSource_eq] at h
  cases hfeed : ({} : Decoder).feed split source with
  | error e d =>
    rw [hfeed] at h
    cases h
  | ok u d =>
    simp only [hfeed, finish] at h
    split at h
    · next hstage =>
      cases h
      exact ⟨d, rfl, hstage, rfl⟩
    · cases h

/-- A source is decoded exactly when its blanks are words whose operands fit, and then to the
instructions that the words spell. -/
theorem decode_eq_ok_iff {split : Bool} {source : List UInt8} {p : Program} :
    decode split source = .ok p ↔
      ∃ is ws, List.Forall₂ Spells is ws ∧ blanks split source = ws.flatten ∧
        (∀ i ∈ is, i.Fits) ∧ p = .ofInstructions is := by
  constructor
  · intro h
    obtain ⟨d, hfeed, hstage, rfl⟩ := exists_feed_of_decode h
    obtain ⟨is, pending, haccount⟩ := account_of_feed hfeed
    obtain ⟨ws, hws, hblanks⟩ := haccount.words
    have hpending : pending = [] := Stage.Begins.eq_nil (hstage ▸ haccount.stage)
    rw [hpending, List.append_nil] at hblanks
    exact ⟨is, ws, hws, hblanks, haccount.fits, haccount.program⟩
  · rintro ⟨is, ws, hws, hblanks, hfits, rfl⟩
    have halike := alike_decode_normalize split split source
    rw [normalize_eq, hblanks, decode_words split hws hfits] at halike
    exact halike.symm.eq_ok

end Whitespace
