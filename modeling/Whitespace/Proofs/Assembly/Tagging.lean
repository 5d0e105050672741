import Whitespace.Proofs.Assembly.Meaning
import Whitespace.Proofs.Decoder.NormalForm

/-!
# Tagged sources

The assembler can put a remark in front of every instruction, which names the command that the
instruction comes from. There is no gap in a remark: it is made of brackets, a mnemonic, and a
number or a name. So all its bytes are comments, the normal form of a tagged source is the plain
source, and the decoder takes both alike.

## Main definitions

* `Text.IsRemark` — a text without gaps.
* `Assembly.Command.remark` — the remark of a command.

## Main statements

* `Text.IsRemark.not_significant` — all bytes of a remark are comments.
* `normalizeFrom_remarks` — the normal form of words with remarks in front.
* `Assembly.assemble_cases` — tagging a source neither fails nor prevents a failure.
* `Assembly.assemble_tagged` — tagging never changes the program.
-/

namespace Whitespace

/-! ## Remarks -/

namespace Text

theorem bytes_eq (s : String) : bytes s = s.toList.flatMap String.utf8EncodeChar := by
  rw [← bytes_ofList, String.ofList_toList]

theorem bytes_append (s t : String) : bytes (s ++ t) = bytes s ++ bytes t := by
  rw [bytes_eq, bytes_eq, bytes_eq, String.toList_append, List.flatMap_append]

theorem bytes_join (ss : List String) : bytes (String.join ss) = ss.flatMap bytes := by
  induction ss with
  | nil => simp [bytes_eq]
  | cons s ss ih => rw [String.join_cons, bytes_append, ih, List.flatMap_cons]

theorem mem_significant_iff (b : UInt8) :
    b ∈ significant ↔ b.toNat = 32 ∨ b.toNat = 9 ∨ b.toNat = 10 ∨ b.toNat = 13 := by
  simp [significant, ← UInt8.toNat_inj]

/-- The bytes of a character beyond ASCII are beyond ASCII. -/
theorem le_toNat_of_mem_encode {c : Char} (hc : ¬ c.val.toNat ≤ 127) {b : UInt8}
    (hb : b ∈ String.utf8EncodeChar c) : 128 ≤ b.toNat := by
  have hbyte {n : Nat} (hle : 128 ≤ n) (hlt : n < 256) : 128 ≤ (UInt8.ofNat n).toNat := by
    rwa [UInt8.toNat_ofNat', Nat.mod_eq_of_lt hlt]
  simp only [String.utf8EncodeChar, if_neg hc] at hb
  split at hb
  · simp only [List.mem_cons, List.not_mem_nil, or_false] at hb
    rcases hb with rfl | rfl <;> exact hbyte (by omega) (by omega)
  · split at hb
    · simp only [List.mem_cons, List.not_mem_nil, or_false] at hb
      rcases hb with rfl | rfl | rfl <;> exact hbyte (by omega) (by omega)
    · simp only [List.mem_cons, List.not_mem_nil, or_false] at hb
      rcases hb with rfl | rfl | rfl | rfl <;> exact hbyte (by omega) (by omega)

/-- Only the characters of gaps have bytes that are no comment. -/
theorem isGap_of_mem_significant {c : Char} {b : UInt8} (hb : b ∈ String.utf8EncodeChar c)
    (h : b ∈ significant) : Assembly.Cursor.isGap c := by
  rw [mem_significant_iff] at h
  by_cases hascii : c.val.toNat ≤ 127
  · have hbyte : b.toNat = c.toNat := by
      rw [String.utf8EncodeChar, if_pos hascii, List.mem_singleton] at hb
      rw [hb, UInt8.toNat_ofNat', Nat.mod_eq_of_lt (by omega)]
      rfl
    rw [hbyte] at h
    rw [Assembly.isGap_iff]
    simpa [← Char.toNat_inj] using h
  · have := le_toNat_of_mem_encode hascii hb
    omega

/-- There is no gap in the text. -/
def IsRemark (s : String) : Prop := ∀ a ∈ s.toList, Assembly.Cursor.isGap a = false

theorem IsRemark.not_significant {s : String} (h : IsRemark s) :
    ∀ b ∈ bytes s, b ∉ significant := by
  intro b hb hsignificant
  rw [bytes_eq, List.mem_flatMap] at hb
  obtain ⟨a, ha, hb⟩ := hb
  have hgap := isGap_of_mem_significant hb hsignificant
  rw [h a ha] at hgap
  cases hgap

theorem isRemark_append {s t : String} : IsRemark (s ++ t) ↔ IsRemark s ∧ IsRemark t := by
  simp only [IsRemark, String.toList_append, List.forall_mem_append]

theorem isRemark_singleton {c : Char} (hc : Assembly.Cursor.isGap c = false) :
    IsRemark (String.singleton c) := by
  intro a ha
  rw [String.toList_singleton, List.mem_singleton] at ha
  rw [ha, hc]

theorem isRemark_of_isName {s : String} (h : Assembly.IsName s.toList) : IsRemark s :=
  fun a ha => Assembly.not_isGap_of_isWordChar (Assembly.isWordChar_of_isNameChar (h.2 a ha))

theorem isRemark_decimal (v : Int) : IsRemark (Decimal.text v) := by
  intro a ha
  rw [Decimal.toList_text, List.mem_append] at ha
  rcases ha with ha | ha
  · split at ha
    · rw [List.mem_singleton.1 ha]
      decide
    · cases ha
  · exact Assembly.not_isGap_of_isDigit (Decimal.isDigit_of_mem_toDigits ha)

theorem isRemark_tagText (op : Opcode) {operand : Option String}
    (h : ∀ t, operand = some t → IsRemark t) : IsRemark (tagText op operand) := by
  have hmnemonic := isRemark_of_isName (Assembly.isName_mnemonic op)
  have hsign : IsRemark "[" ∧ IsRemark ":" ∧ IsRemark "]" :=
    ⟨isRemark_singleton (c := '[') (by decide), isRemark_singleton (c := ':') (by decide),
      isRemark_singleton (c := ']') (by decide)⟩
  cases operand with
  | none => simp only [tagText, isRemark_append, hmnemonic, hsign, and_self]
  | some t => simp only [tagText, isRemark_append, hmnemonic, hsign, h t rfl, and_self]

end Text

/-! ## The normal form of a source with remarks -/

theorem normalizeFrom_blanks (split : Bool) {previous : Option UInt8}
    (hprevious : previous ≠ some 13) (row : List Blank) :
    normalizeFrom split previous (row.map Blank.byte) = row.map Blank.byte := by
  induction row generalizing previous with
  | nil => rfl
  | cons c row ih =>
    rw [List.map_cons, normalizeFrom, normalByte?_eq, Blank.ofByte?_byte split hprevious,
      ih c.byte_ne_return]
    rfl

theorem getLast?_or_ne_return {s : List UInt8} (hs : 13 ∉ s) {previous : Option UInt8}
    (hprevious : previous ≠ some 13) : s.getLast?.or previous ≠ some 13 := by
  cases hlast : s.getLast? with
  | none => simpa using hprevious
  | some b =>
    rintro ⟨rfl⟩
    exact hs (List.mem_of_getLast? hlast)

/-- Remarks in front of words leave no trace in the normal form. -/
theorem normalizeFrom_remarks {α : Type} (split : Bool) {remark : α → List UInt8}
    (word : α → List Blank) {xs : List α} (h : ∀ x ∈ xs, ∀ b ∈ remark x, b ∉ significant)
    {previous : Option UInt8} (hprevious : previous ≠ some 13) :
    normalizeFrom split previous (xs.flatMap fun x => remark x ++ (word x).map Blank.byte) =
      (xs.flatMap word).map Blank.byte := by
  induction xs generalizing previous with
  | nil => rfl
  | cons x xs ih =>
    obtain ⟨hx, hxs⟩ := List.forall_mem_cons.1 h
    have hremark : 13 ∉ remark x := fun hmem => hx 13 hmem (by decide)
    have hword : 13 ∉ (word x).map Blank.byte := by
      rintro hmem
      obtain ⟨c, -, hc⟩ := List.mem_map.1 hmem
      exact c.byte_ne_return (congrArg some hc)
    have hbehind := getLast?_or_ne_return hremark hprevious
    rw [List.flatMap_cons, List.append_assoc, normalizeFrom_append, normalizeFrom_remark split _ hx,
      List.nil_append, normalizeFrom_append, normalizeFrom_blanks split hbehind,
      ih hxs (getLast?_or_ne_return hword hbehind), List.flatMap_cons, List.map_append]

namespace Assembly

/-! ## Names -/

theorem Cursor.isName_of_name {c c' : Cursor} {name : String} (h : c.name = some (name, c')) :
    IsName name.toList := by
  unfold Cursor.name at h
  split at h
  · next a t hrest =>
    split at h
    · next ha =>
      cases h
      have hchar := isNameChar_of_isNameStart ha
      refine ⟨?_, fun b hb => ?_⟩
      · simp [span, hrest, hchar, ha]
      · rw [String.toList_ofList] at hb
        exact List.mem_takeWhile_imp hb
    · cases h
  · cases h

/-- The labels that the reader finds are names. -/
theorem isName_of_parse (text : List Char) :
    ∀ s ∈ (parse text).1, ∀ name, s.name? = some name → IsName name.toList := by
  refine Cursor.statements_forall (fun c name c' h => ?_) (fun c op s c' h => ?_)
    (fun _ _ => nofun) _
  · rintro _ ⟨⟩
    exact Cursor.isName_of_name h
  · intro name hname
    unfold Cursor.operand at h
    split at h
    · cases h
      cases hname
    · have hway := longest_mem h
      simp only [List.mem_cons, List.not_mem_nil, or_false] at hway
      rcases hway with hway | hway
      all_goals
        obtain ⟨v, -, heq⟩ := Option.map_eq_some_iff.1 hway.symm
        cases heq
        cases hname
    · obtain ⟨⟨n, c₁⟩, hn, heq⟩ := Option.map_eq_some_iff.1 h
      cases heq
      split at hname <;> cases hname <;> exact Cursor.isName_of_name hn

/-- So are the labels of a draft. -/
theorem isName_of_draft {text : List Char} {d : Draft} (h : draft text = .ok () d)
    {cs : List Command} (hd : d.Collected cs) :
    ∀ c ∈ cs, ∀ name, c.argument = .name name → IsName name.toList := by
  obtain ⟨cs', hcs'⟩ := Draft.forall₂_of_addAll h
  obtain ⟨d', hdraft, hd', -⟩ := draft_of_forall₂ hcs'
  rw [h] at hdraft
  cases hdraft
  obtain rfl : cs = cs' := hd.commands.symm.trans hd'.commands
  intro c hc name hname
  have hmem : name ∈ cs.filterMap Command.name? :=
    List.mem_filterMap.2 ⟨c, hc, Command.name?_eq_some.2 hname⟩
  rw [filterMap_name? hcs', List.mem_filterMap] at hmem
  obtain ⟨s, hs, hsname⟩ := hmem
  exact isName_of_parse text s hs name hsname

/-! ## Tags -/

/-- The remark of a command whose operand can be written. -/
def Command.remark (c : Command) : String := c.tag.toOption.getD ""

/-- The commands of a draft have remarks without gaps. -/
theorem Command.exists_tag {c : Command} (hc : c.WellFormed)
    (hname : ∀ name, c.argument = .name name → IsName name.toList) :
    ∃ t, c.tag = .ok t ∧ Text.IsRemark t := by
  obtain ⟨op, argument⟩ := c
  cases argument with
  | none => exact ⟨_, rfl, Text.isRemark_tagText op (by simp)⟩
  | name name =>
    have hremark := Text.isRemark_of_isName (hname name rfl)
    exact ⟨_, rfl, Text.isRemark_tagText op (by simpa using hremark)⟩
  | number v =>
    have hfits : Decimal.Fits v := by
      cases hkind : op.operandKind <;> simp_all [WellFormed]
    refine ⟨tagText op (some (Decimal.text v)), ?_, Text.isRemark_tagText op ?_⟩
    · simp only [tag, Decimal.write_of_fits hfits, Except.map]
    · simpa using Text.isRemark_decimal v

theorem Command.tag_eq {c : Command} (hc : c.WellFormed)
    (hname : ∀ name, c.argument = .name name → IsName name.toList) :
    c.tag = .ok c.remark ∧ Text.IsRemark c.remark := by
  obtain ⟨t, htag, hremark⟩ := exists_tag hc hname
  rw [remark, htag]
  exact ⟨rfl, hremark⟩

/-- Tagging a source neither fails nor prevents a failure: a text is refused for the same reason
with tags and without, or it has a draft whose commands are encoded one after the other, with their
remarks in front or without. -/
theorem assemble_cases (text : List Char) :
    (∃ e, ∀ tagged, assemble tagged text = .error e) ∨
    ∃ (d : Draft) (cs : List Command), (∀ c ∈ cs, c.WellFormed) ∧
      (∀ c ∈ cs, Text.IsRemark c.remark) ∧
      assemble false text =
        .ok (String.join (cs.map fun c => Blank.text (c.instruction d.label).word)) ∧
      assemble true text = .ok (String.join
        (cs.map fun c => c.remark ++ Blank.text (c.instruction d.label).word)) := by
  cases hdraft : draft text with
  | error e d => exact .inl ⟨e, fun tagged => by simp only [assemble, assembleLogged, hdraft]⟩
  | ok _ d =>
    obtain ⟨cs, hd, hwf⟩ := draft_eq_ok hdraft
    by_cases hdefined : d.undefined = []
    · have hword := fun c hc => hd.encode?_eq (c := c) hc (hwf c hc)
      have htag := fun c hc => Command.tag_eq (hwf c hc) (isName_of_draft hdraft hd c hc)
      refine .inr ⟨d, cs, hwf, fun c hc => (htag c hc).2, ?_, ?_⟩
      · have hsources := sources_eq fun c hc => source_false (hword c hc)
        simp only [assemble_eq false hdraft, Draft.source, if_pos hdefined, hd.commands, hsources]
      · have hsources : sources true (allocate d.names) cs =
            .ok (cs.map fun c => c.remark ++ Blank.text (c.instruction d.label).word) :=
          sources_eq fun c hc => by simp only [Command.source, if_true, (htag c hc).1, hword c hc]
        simp only [assemble_eq true hdraft, Draft.source, if_pos hdefined, hd.commands, hsources]
    · refine .inl ⟨.undefined (d.undefined.mergeSort (· ≤ ·)), fun tagged => ?_⟩
      simp only [assemble_eq tagged hdraft, Draft.source, if_neg hdefined]

/-- Tagging never changes the program. With tags a text is refused exactly when it is refused
without them, and for the same reason. Otherwise the tagged source and the plain one are decoded to
the same program, with either treatment of line ends, or both hold a label beyond the limit of
decimal text and neither is decoded. -/
theorem assemble_tagged (text : List Char) :
    (∀ e, assemble true text = .error e ↔ assemble false text = .error e) ∧
    ∀ plain tagged, assemble false text = .ok plain → assemble true text = .ok tagged →
      (∃ p, ∀ split, decode split (Text.bytes plain) = .ok p ∧
        decode split (Text.bytes tagged) = .ok p) ∨
      ∀ split, decode split (Text.bytes plain) = .error (.tooLong .writing) ∧
        decode split (Text.bytes tagged) = .error (.tooLong .writing) := by
  obtain ⟨e, he⟩ | ⟨d, cs, hwf, hremark, hplain, htagged⟩ := assemble_cases text
  · refine ⟨fun e' => by rw [he, he], fun plain tagged hplain => ?_⟩
    rw [he] at hplain
    cases hplain
  rw [hplain, htagged]
  refine ⟨fun e => by simp, ?_⟩
  rintro _ _ ⟨⟩ ⟨⟩
  let is := cs.map (Command.instruction d.label)
  have hinstructions : ∀ i ∈ is, i.WellFormed :=
    List.forall_mem_map.2 fun c hc => Command.instruction_wellFormed (hwf c hc) d.one_le_label
  have hbytes : Text.bytes (String.join (cs.map fun c => Blank.text (c.instruction d.label).word)) =
      (is.map Instruction.word).flatten.map Blank.byte := by
    simp [is, Text.bytes_join, List.flatMap_def, List.map_flatten, Function.comp_def]
  -- the tagged source has the plain one as its normal form
  have halike (split : Bool) : Decoder.Alike
      (decode split ((is.map Instruction.word).flatten.map Blank.byte))
      (decode split (Text.bytes (String.join
        (cs.map fun c => c.remark ++ Blank.text (c.instruction d.label).word)))) := by
    have hform := normalizeFrom_remarks split (fun c => (c.instruction d.label).word)
      (fun c hc => (hremark c hc).not_significant) (by simp : none ≠ some (13 : UInt8))
    have hnormal : normalize split (Text.bytes (String.join
        (cs.map fun c => c.remark ++ Blank.text (c.instruction d.label).word))) =
        (is.map Instruction.word).flatten.map Blank.byte := by
      simpa [is, normalize, Text.bytes_join, Text.bytes_append, List.flatMap_def, List.map_flatten,
        Function.comp_def] using hform
    rw [← hnormal]
    exact (alike_decode_normalize split split _).symm
  rw [hbytes]
  by_cases hfits : ∀ i ∈ is, i.Fits
  · refine .inl ⟨.ofInstructions is, fun split => ?_⟩
    have hdecode := decode_words split (Instruction.forall₂_spells hinstructions) hfits
    exact ⟨hdecode, (hdecode ▸ halike split).eq_ok⟩
  · refine .inr fun split => ?_
    have hdecode := decode_of_not_fits split hinstructions (by simpa using hfits)
    exact ⟨hdecode, (hdecode ▸ halike split).eq_tooLong⟩

/-- A loop with a number, a character and a name: the tagged source has remarks, and both are
decoded to the same program. -/
theorem assemble_tagged_loop :
    ∃ plain tagged p, assemble false "a: push -2 push 'A' jmp a".toList = .ok plain ∧
      assemble true "a: push -2 push 'A' jmp a".toList = .ok tagged ∧ plain ≠ tagged ∧
      ∀ split, decode split (Text.bytes plain) = .ok p ∧
        decode split (Text.bytes tagged) = .ok p := by
  have hplain : assemble false "a: push -2 push 'A' jmp a".toList =
      .ok "\n   \n  \t\t \n   \t     \t\n\n \n \n" := by decide +kernel
  have htagged : assemble true "a: push -2 push 'A' jmp a".toList =
      .ok "[mark:a]\n   \n[push:-2]  \t\t \n[push:65]   \t     \t\n[jmp:a]\n \n \n" := by
    decide +kernel
  obtain ⟨p, hp⟩ | hlong := (assemble_tagged _).2 _ _ hplain htagged
  · exact ⟨_, _, p, hplain, htagged, by decide, hp⟩
  · have hdecode : decode false (Text.bytes "\n   \n  \t\t \n   \t     \t\n\n \n \n") ≠
        .error (.tooLong .writing) := by decide +kernel
    exact absurd (hlong false).1 hdecode

end Assembly

end Whitespace
