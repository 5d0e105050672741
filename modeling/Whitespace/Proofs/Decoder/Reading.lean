import Mathlib.Tactic.ByContra
import Whitespace.Decoder
import Whitespace.Proofs.Numeral

/-!
# Reading one instruction

The decoder looks at one blank at a time. What a blank makes of the stage does not depend on the
rest of the decoder, so it is stated here on stages alone, and everything else about decoding is
derived from it. The grammar of instructions is given on its own: a word is the code of an opcode
followed by the operand that the opcode takes.

## Main definitions

* `Stage.read` — what one more blank makes of a stage.
* `Stage.complete?` — the instruction that a row of blanks completes at its last blank.
* `Spells` — the words of the grammar, each with its instruction.

## Main statements

* `Decoder.accept_eq` — the decoder does what the stage says.
* `complete?_start_iff` — reading from the start completes exactly the words of the grammar.
* `Spells.prefix_free` — no word is the beginning of another one.
-/

namespace Whitespace

/-- What one more blank makes of a stage. -/
inductive Reading where
  /-- The instruction goes on. -/
  | unfinished (stage : Stage)
  /-- The blank was the last one of an instruction. -/
  | complete (i : Instruction)
  /-- The blank cannot stand here; `stage` is what the failure leaves. -/
  | wrong (cause : Decoder.Cause) (stage : Stage)

namespace Stage

/-- Read one more blank. -/
def read : Stage → Blank → Reading
  | family pending, c =>
    match Family.select (pending ++ [c]) with
    | .found f => .unfinished (command f [])
    | .more => .unfinished (family (pending ++ [c]))
    | .unknown => .wrong (.unknownFamily (pending ++ [c])) (family (pending ++ [c]))
  | command f pending, c =>
    match Opcode.select f (pending ++ [c]) with
    | .found op =>
      match Decoder.operandStage? op with
      | some stage => .unfinished stage
      | none => .complete ⟨op, none⟩
    | .more => .unfinished (command f (pending ++ [c]))
    | .unknown => .wrong (.unknownCommand f (pending ++ [c])) (command f (pending ++ [c]))
  | number op none v, .feed => .wrong .unsigned (number op none v)
  | number op none v, .space => .unfinished (number op (some .plus) v)
  | number op none v, .tab => .unfinished (number op (some .minus) v)
  | number op (some sign) v, .feed => .complete ⟨op, some (sign.apply v)⟩
  | number op (some sign) v, .space => .unfinished (number op (some sign) (2 * v))
  | number op (some sign) v, .tab => .unfinished (number op (some sign) (2 * v + 1))
  | label op v, .feed => .complete ⟨op, some v⟩
  | label op v, .space => .unfinished (label op (2 * v))
  | label op v, .tab => .unfinished (label op (2 * v + 1))

/-- The instruction that a row of blanks completes with its last blank, if it does. -/
def complete? : Stage → List Blank → Option Instruction
  | _, [] => none
  | st, c :: row =>
    match st.read c with
    | .unfinished st' => st'.complete? row
    | .complete i => if row = [] then some i else none
    | .wrong _ _ => none

/-- The blanks read inside an operand. -/
@[simp] theorem read_number_ofBit (op : Opcode) (sign : Sign) (v : Nat) (b : Bool) :
    (number op (some sign) v).read (Blank.ofBit b) =
      .unfinished (number op (some sign) (2 * v + b.toNat)) := by
  cases b <;> rfl

@[simp] theorem read_label_ofBit (op : Opcode) (v : Nat) (b : Bool) :
    (label op v).read (Blank.ofBit b) = .unfinished (label op (2 * v + b.toNat)) := by
  cases b <;> rfl

/-- Inside an instruction the decoder never stands between instructions. -/
theorem ne_start_of_read {st st' : Stage} {c : Blank} (h : st.read c = .unfinished st') :
    st' ≠ start := by
  rintro rfl
  cases st with
  | family pending =>
    simp only [read] at h
    split at h <;> simp [start] at h
  | command f pending =>
    simp only [read] at h
    split at h
    · split at h
      · next op hop stage hstage =>
        unfold Decoder.operandStage? at hstage
        split at hstage <;> simp_all [start]
      · cases h
    · simp [start] at h
    · cases h
  | number op sign v => cases sign <;> cases c <;> simp [read, start] at h
  | label op v => cases c <;> simp [read, start] at h

/-- Once an instruction is complete, reading on does not complete it again. -/
theorem eq_nil_of_complete? {st : Stage} {w r : List Blank} {i j : Instruction}
    (hw : st.complete? w = some i) (hr : st.complete? (w ++ r) = some j) : r = [] := by
  induction w generalizing st with
  | nil => cases hw
  | cons c w ih =>
    simp only [complete?, List.cons_append] at hw hr
    cases hread : st.read c with
    | unfinished st' =>
      simp only [hread] at hw hr
      exact ih hw hr
    | complete k =>
      simp only [hread] at hr
      by_contra hne
      simp [hne] at hr
    | wrong cause st' => simp [hread] at hw

end Stage

/-- The decoder does what the stage says, and logs a complete instruction. -/
theorem Decoder.accept_eq (d : Decoder) (c : Blank) :
    d.accept c =
      match d.stage.read c with
      | .unfinished st => .ok () { d with stage := st }
      | .complete i => d.emit i
      | .wrong cause st => fail { d with stage := st } cause := by
  unfold accept
  cases hstage : d.stage with
  | family pending =>
    dsimp only [Stage.read]
    cases Family.select (pending ++ [c]) <;> rfl
  | command f pending =>
    dsimp only [Stage.read]
    cases Opcode.select f (pending ++ [c]) with
    | found op => cases hop : operandStage? op <;> simp only [hop]
    | more => rfl
    | unknown => rfl
  | number op sign v =>
    cases sign <;> cases c <;> simp only [Stage.read]
    -- a number without a sign leaves the stage as it was
    rw [← hstage]
  | label op v => cases c <;> rfl

/-! ## The grammar -/

/-- The blank that writes a sign. -/
def Sign.blank : Sign → Blank
  | plus => .space
  | minus => .tab

/-- `Spells i w`: the word `w` spells the instruction `i`. A number operand is its sign times the
value of its digits, a label operand is the value of a one followed by its digits. -/
inductive Spells : Instruction → List Blank → Prop where
  | plain {op : Opcode} (h : op.operandKind = .none) : Spells ⟨op, none⟩ op.code
  | number {op : Opcode} (h : op.operandKind = .number) (sign : Sign) (bits : List Bool) :
      Spells ⟨op, some (sign.factor * Bits.value bits)⟩
        (op.code ++ sign.blank :: bits.map Blank.ofBit ++ [.feed])
  | label {op : Opcode} (h : op.operandKind = .label) (bits : List Bool) :
      Spells ⟨op, some (Bits.value (true :: bits))⟩ (op.code ++ bits.map Blank.ofBit ++ [.feed])

theorem Sign.factor_mul (s : Sign) (n : Nat) : s.factor * n = s.apply n := by
  cases s <;> simp [factor, apply]

namespace Stage

/-- What the blanks after a code complete. -/
def afterCode (op : Opcode) (row : List Blank) : Option Instruction :=
  match Decoder.operandStage? op with
  | some st => st.complete? row
  | none => if row = [] then some ⟨op, none⟩ else none

/-! ### From the machine to the grammar -/

theorem found_of_select {α : Type} {items : List α} {word : α → List Blank} {row : List Blank}
    {a : α} (h : select items word row = .found a) : a ∈ items ∧ word a = row := by
  unfold select at h
  split at h
  · next b hb =>
    cases h
    exact ⟨List.mem_of_find?_eq_some hb, by simpa using List.find?_some hb⟩
  · split at h <;> cases h

/-- What completes an instruction from inside the word of its family starts with the rest of such a
word. -/
theorem complete?_family {pending row : List Blank} {i : Instruction}
    (h : (family pending).complete? row = some i) :
    ∃ f rest, pending ++ row = f.word ++ rest ∧ (command f []).complete? rest = some i := by
  induction row generalizing pending with
  | nil => cases h
  | cons c row ih =>
    simp only [complete?, read] at h
    cases hsel : Family.select (pending ++ [c]) with
    | found f =>
      simp only [hsel] at h
      refine ⟨f, row, ?_, h⟩
      rw [(found_of_select hsel).2, List.append_assoc, List.singleton_append]
    | more =>
      simp only [hsel] at h
      simpa using ih h
    | unknown => simp [hsel] at h

/-- What completes an instruction from inside its command starts with the rest of a command of the
family. -/
theorem complete?_command {f : Family} {pending row : List Blank} {i : Instruction}
    (h : (command f pending).complete? row = some i) :
    ∃ op rest, op.family = f ∧ pending ++ row = op.command ++ rest ∧
      afterCode op rest = some i := by
  induction row generalizing pending with
  | nil => cases h
  | cons c row ih =>
    simp only [complete?, read] at h
    cases hsel : Opcode.select f (pending ++ [c]) with
    | found op =>
      have hop := found_of_select hsel
      have hfamily : op.family = f := by simpa [Family.opcodes] using hop.1
      refine ⟨op, row, hfamily, ?_, ?_⟩
      · rw [hop.2, List.append_assoc, List.singleton_append]
      · simp only [hsel] at h
        unfold afterCode
        cases hst : Decoder.operandStage? op <;> simpa [hst] using h
    | more =>
      simp only [hsel] at h
      simpa using ih h
    | unknown => simp [hsel] at h

/-- Inside an operand every digit goes into the value, and a line feed completes the instruction.
Numbers and labels differ only in the stage and in what they make of the value. -/
theorem complete?_digits (st : Nat → Stage) (done : Nat → Instruction)
    (hbit : ∀ v b, (st v).read (Blank.ofBit b) = .unfinished (st (2 * v + b.toNat)))
    (hfeed : ∀ v, (st v).read .feed = .complete (done v)) {v : Nat} {row : List Blank}
    {i : Instruction} :
    (st v).complete? row = some i ↔
      ∃ bits, row = bits.map Blank.ofBit ++ [.feed] ∧ i = done (Bits.valueFrom v bits) := by
  constructor
  · intro h
    induction row generalizing v with
    | nil => cases h
    | cons c row ih =>
      have digit : ∀ b, c = Blank.ofBit b → ∃ bits, c :: row = bits.map Blank.ofBit ++ [.feed] ∧
          i = done (Bits.valueFrom v bits) := by
        rintro b rfl
        simp only [complete?, hbit] at h
        obtain ⟨bits, rfl, rfl⟩ := ih h
        exact ⟨b :: bits, rfl, rfl⟩
      cases c with
      | space => exact digit false rfl
      | tab => exact digit true rfl
      | feed =>
        simp only [complete?, hfeed] at h
        split at h
        · next hrow =>
          cases h
          exact ⟨[], by simp [hrow], rfl⟩
        · cases h
  · rintro ⟨bits, rfl, rfl⟩
    induction bits generalizing v with
    | nil => simp [complete?, hfeed]
    | cons b bits ih => simpa [complete?, hbit] using ih

theorem complete?_number {op : Opcode} {sign : Sign} {v : Nat} {row : List Blank}
    {i : Instruction} :
    (number op (some sign) v).complete? row = some i ↔
      ∃ bits, row = bits.map Blank.ofBit ++ [.feed] ∧
        i = ⟨op, some (sign.apply (Bits.valueFrom v bits))⟩ :=
  complete?_digits (number op (some sign)) (fun v => ⟨op, some (sign.apply v)⟩)
    (read_number_ofBit op sign) (fun _ => rfl)

theorem complete?_label {op : Opcode} {v : Nat} {row : List Blank} {i : Instruction} :
    (label op v).complete? row = some i ↔
      ∃ bits, row = bits.map Blank.ofBit ++ [.feed] ∧ i = ⟨op, some (Bits.valueFrom v bits)⟩ :=
  complete?_digits (label op) (fun v => ⟨op, some v⟩) (read_label_ofBit op) (fun _ => rfl)

/-- The sign comes first, and a line feed is none. -/
theorem complete?_unsigned {op : Opcode} {row : List Blank} {i : Instruction} :
    (number op none 0).complete? row = some i ↔
      ∃ sign bits, row = Sign.blank sign :: bits.map Blank.ofBit ++ [.feed] ∧
        i = ⟨op, some (sign.apply (Bits.value bits))⟩ := by
  constructor
  · intro h
    cases row with
    | nil => cases h
    | cons c row =>
      cases c with
      | space =>
        obtain ⟨bits, rfl, rfl⟩ := complete?_number.1 h
        exact ⟨.plus, bits, rfl, rfl⟩
      | tab =>
        obtain ⟨bits, rfl, rfl⟩ := complete?_number.1 h
        exact ⟨.minus, bits, rfl, rfl⟩
      | feed => cases h
  · rintro ⟨sign, bits, rfl, rfl⟩
    cases sign with
    | plus => exact complete?_number.2 ⟨bits, rfl, rfl⟩
    | minus => exact complete?_number.2 ⟨bits, rfl, rfl⟩

/-- Reading a code leads to the operand of its opcode: the codes are prefix free, so no other word
is found on the way. -/
theorem complete?_code (op : Opcode) (row : List Blank) :
    start.complete? (op.code ++ row) = afterCode op row := by
  cases op <;> rfl

theorem spells_of_afterCode {op : Opcode} {row : List Blank} {i : Instruction}
    (h : afterCode op row = some i) : Spells i (op.code ++ row) := by
  unfold afterCode Decoder.operandStage? at h
  cases hkind : op.operandKind with
  | none =>
    simp only [hkind] at h
    split at h
    · next hrow =>
      cases h
      simpa [hrow] using Spells.plain hkind
    · cases h
  | number =>
    simp only [hkind] at h
    obtain ⟨sign, bits, rfl, rfl⟩ := complete?_unsigned.1 h
    simpa [Sign.factor_mul] using Spells.number hkind sign bits
  | label =>
    simp only [hkind] at h
    obtain ⟨bits, rfl, rfl⟩ := complete?_label.1 h
    simpa [Bits.value] using Spells.label hkind bits

/-- Reading from the start completes exactly the words of the grammar. -/
theorem complete?_start_iff {row : List Blank} {i : Instruction} :
    start.complete? row = some i ↔ Spells i row := by
  constructor
  · intro h
    obtain ⟨f, rest, hrow, hcommand⟩ := complete?_family h
    obtain ⟨op, operand, rfl, hrest, hoperand⟩ := complete?_command hcommand
    have hcode : row = op.code ++ operand := by
      simpa [Opcode.code, ← hrest] using hrow
    rw [hcode]
    exact spells_of_afterCode hoperand
  · intro h
    cases h with
    | @plain op hkind =>
      rw [← List.append_nil op.code, complete?_code]
      simp [afterCode, Decoder.operandStage?, hkind]
    | @number op hkind sign bits =>
      rw [List.append_assoc, List.cons_append, complete?_code]
      simp only [afterCode, Decoder.operandStage?, hkind, Sign.factor_mul]
      exact complete?_unsigned.2 ⟨sign, bits, rfl, rfl⟩
    | @label op hkind bits =>
      rw [List.append_assoc, complete?_code]
      simp only [afterCode, Decoder.operandStage?, hkind]
      exact complete?_label.2 ⟨bits, rfl, rfl⟩

end Stage

namespace Spells

variable {i j : Instruction} {v w : List Blank}

/-- No word is the beginning of another one. -/
theorem prefix_free {r s : List Blank} (hv : Spells i v) (hw : Spells j w) (h : v ++ r = w ++ s) :
    v = w := by
  rw [← Stage.complete?_start_iff] at hv hw
  rcases List.append_eq_append_iff.1 h with ⟨t, rfl, -⟩ | ⟨t, rfl, -⟩
  · rw [Stage.eq_nil_of_complete? hv hw, List.append_nil]
  · rw [Stage.eq_nil_of_complete? hw hv, List.append_nil]

theorem ne_nil (h : Spells i w) : w ≠ [] := by
  rintro rfl
  cases Stage.complete?_start_iff.2 h

end Spells

end Whitespace
