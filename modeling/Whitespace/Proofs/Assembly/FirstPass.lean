import Whitespace.Assembly.Token
import Whitespace.Proofs.Assembly.Tagging
import Whitespace.Proofs.Assembly.Unread

/-!
# Taking over a text token by token

Nothing in a row of tokens makes sure that there is a command when an operand comes, or that the
command takes this operand. The reader does: it puts every operand right behind the mnemonic of an
opcode that takes it. So no operand goes astray, every command gets its operand, and a text is
refused only for a word, a literal, a number or a label of its own.

## Main definitions

* `Agrees` — taking over tokens comes to the same as taking over statements.
* `Error.Declared` — the reasons for which a text may be refused.

## Main statements

* `agrees_add`, `agrees_addAll` — one statement, and all of them.
* `exists_mnemonic` — every operand stands right behind a mnemonic that takes it.
* `assemble_declared` — assembling fails in no other way than the declared ones.
-/

namespace Whitespace.Assembly

/-! ## Tokens -/

/-- A well-formed statement is one token that is no operand, or a mnemonic and the operand that it
takes. -/
theorem Statement.WellFormed.tokens_cases {s : Statement} (hs : s.WellFormed) :
    (∃ t, s.tokens = [t] ∧ t.operandKind? = none) ∨
    ∃ op t, s.tokens = [.mnemonic op, t] ∧ t.operandKind? = some op.operandKind := by
  cases s with
  | mark name => exact .inl ⟨_, rfl, rfl⟩
  | plain op => exact .inl ⟨_, rfl, rfl⟩
  | unknown text => exact .inl ⟨_, rfl, rfl⟩
  | number op negative digits => exact .inr ⟨op, _, rfl, congrArg some hs.1.symm⟩
  | character op text => exact .inr ⟨op, _, rfl, congrArg some hs.symm⟩
  | jump op label => exact .inr ⟨op, _, rfl, congrArg some hs.1.symm⟩

theorem Statement.WellFormed.exists_mnemonic {s : Statement} (hs : s.WellFormed)
    {before after : List Token} {t : Token} (h : s.tokens = before ++ t :: after)
    {kind : OperandKind} (hkind : t.operandKind? = some kind) :
    ∃ op, before = [.mnemonic op] ∧ op.operandKind = kind := by
  obtain ⟨u, htokens, hu⟩ | ⟨op, u, htokens, hu⟩ := hs.tokens_cases
  · rw [htokens] at h
    obtain ⟨-, rfl, -⟩ : before = [] ∧ u = t ∧ after = [] := by
      cases before <;> simp_all
    simp [hu] at hkind
  · rw [htokens] at h
    rcases before with _ | ⟨a, before⟩
    · obtain ⟨rfl, -⟩ := List.cons.inj h
      cases hkind
    · obtain ⟨rfl, hrest⟩ := List.cons.inj h
      obtain ⟨rfl, rfl, -⟩ : before = [] ∧ u = t ∧ after = [] := by
        cases before <;> simp_all
      exact ⟨op, rfl, Option.some.inj (hu.symm.trans hkind)⟩

/-- In a row of well-formed statements every operand stands right behind a mnemonic that takes it. -/
theorem exists_mnemonic {ss : List Statement} (hss : ∀ s ∈ ss, s.WellFormed)
    {before after : List Token} {t : Token} (h : ss.flatMap Statement.tokens = before ++ t :: after)
    {kind : OperandKind} (hkind : t.operandKind? = some kind) :
    ∃ init op, before = init ++ [.mnemonic op] ∧ op.operandKind = kind := by
  induction ss generalizing before with
  | nil => simp at h
  | cons s ss ih =>
    obtain ⟨hwf, hwfs⟩ := List.forall_mem_cons.1 hss
    rw [List.flatMap_cons, List.append_eq_append_iff] at h
    -- the operand belongs to the first statement or to one of the others
    obtain ⟨init, rfl, hinit⟩ | ⟨row, hrow, hrest⟩ := h
    · obtain ⟨init', op, rfl, hop⟩ := ih hwfs hinit
      exact ⟨s.tokens ++ init', op, by simp, hop⟩
    · cases row with
      | nil =>
        have hfirst : ss.flatMap Statement.tokens = [] ++ t :: after := hrest.symm
        obtain ⟨init', op, hnil, -⟩ := ih hwfs hfirst
        simp at hnil
      | cons a row =>
        obtain ⟨rfl, -⟩ := List.cons.inj hrest
        obtain ⟨op, rfl, hop⟩ := hwf.exists_mnemonic hrow hkind
        exact ⟨[], op, rfl, hop⟩

/-! ## Taking over tokens -/

namespace Draft

theorem takeAll_append (d : Draft) (ts us : List Token) :
    d.takeAll (ts ++ us) =
      match d.takeAll ts with
      | .ok () d' => d'.takeAll us
      | .error e d' => .error e d' := by
  induction ts generalizing d with
  | nil => rfl
  | cons t ts ih =>
    simp only [List.cons_append, takeAll]
    cases d.take t with
    | ok _ d' => exact ih d'
    | error e d' => rfl

theorem takeAll_singleton (d : Draft) (t : Token) : d.takeAll [t] = d.take t := by
  rw [takeAll]
  cases d.take t <;> rfl

/-- The command added last gets the operand. -/
theorem give_push (d : Draft) (op : Opcode) (a b : Argument) :
    (d.push ⟨op, a⟩).give b = .ok () (d.push ⟨op, b⟩) := by
  simp [give, push]

theorem useName_push (d : Draft) (c : Command) (name : String) :
    (d.push c).useName name = (d.useName name).push c := by
  unfold useName push
  split <;> rfl

end Draft

/-- Taking over tokens has come to the same draft as taking over statements, or to the same refusal
with the same records in the log. -/
inductive Agrees :
    EStateM.Result Setback Draft Unit → EStateM.Result Error Draft Unit → Prop where
  | ok (d : Draft) : Agrees (.ok () d) (.ok () d)
  | refused (e : Error) {d d' : Draft} (h : d.log = d'.log) :
      Agrees (.error (.refused e) d) (.error e d')

/-- The tokens of a statement do what the statement does. -/
theorem agrees_add (d : Draft) (s : Statement) : Agrees (d.takeAll s.tokens) (d.add s) := by
  cases s with
  | mark name => exact .ok _
  | plain op => exact .ok _
  | number op negative digits =>
    simp only [Statement.tokens, Draft.takeAll, Draft.take, Draft.add]
    cases Decimal.read negative digits with
    | ok v =>
      simp only [Draft.give_push]
      exact .ok _
    | error e => exact .refused _ rfl
  | character op text =>
    simp only [Statement.tokens, Draft.takeAll, Draft.take, Draft.add]
    rcases text with _ | ⟨a, _ | ⟨b, text⟩⟩
    · exact .refused _ rfl
    · simp only [Draft.give_push]
      exact .ok _
    · exact .refused _ rfl
  | jump op label =>
    have hnote : ((d.announce op).push ⟨op, .none⟩).note ("Ref " ++ label) =
        ((d.announce op).note ("Ref " ++ label)).push ⟨op, .none⟩ := rfl
    simp only [Statement.tokens, Draft.takeAll, Draft.take, Draft.add, hnote, Draft.useName_push,
      Draft.give_push]
    exact .ok _
  | unknown text => exact .refused _ rfl

theorem agrees_addAll (d : Draft) (ss : List Statement) :
    Agrees (d.takeAll (ss.flatMap Statement.tokens)) (d.addAll ss) := by
  induction ss generalizing d with
  | nil => exact .ok d
  | cons s ss ih =>
    rw [List.flatMap_cons, Draft.takeAll_append, Draft.addAll]
    have hs := agrees_add d s
    generalize d.takeAll s.tokens = taken at hs ⊢
    generalize d.add s = added at hs ⊢
    cases hs with
    | ok d' => exact ih d'
    | refused e h => exact .refused e h

/-- Behind a mnemonic that takes an operand, the last command has none yet. -/
theorem back?_of_takeAll {d : Draft} {init : List Token} {op : Opcode}
    (h : ({} : Draft).takeAll (init ++ [.mnemonic op]) = .ok () d) :
    d.commands.back? = some ⟨op, .none⟩ := by
  rw [Draft.takeAll_append] at h
  cases hinit : ({} : Draft).takeAll init with
  | error e d' =>
    rw [hinit] at h
    cases h
  | ok _ d' =>
    simp only [hinit, Draft.takeAll_singleton, Draft.take] at h
    cases h
    simp [Draft.push]

/-! ## Refusals -/

/-- The reasons for which a text may be refused: a word that is no statement, a literal that is not
a single character, a number with too many digits, or labels that stand nowhere. -/
inductive Error.Declared (text : List Char) : Error → Prop where
  | unknown {w : List Char} (h : .unknown w ∈ (parse text).1) : Declared text (.unknown w)
  | notSingle {op : Opcode} {w : List Char} (h : .character op w ∈ (parse text).1)
      (hw : w.length ≠ 1) : Declared text (.notSingle w)
  | tooLong {op : Opcode} {negative : Bool} {digits : List Char}
      (h : .number op negative digits ∈ (parse text).1) (hlong : Decimal.limit < digits.length) :
      Declared text (.tooLong (.reading digits.length))
  | undefined {names : List String} (hne : names ≠ [])
      (h : ∀ name ∈ names, (∃ op, .jump op name ∈ (parse text).1) ∧ .mark name ∉ (parse text).1) :
      Declared text (.undefined names)

theorem Error.declared_of_command {text : List Char} {s : Statement} (hs : s ∈ (parse text).1)
    {e : Error} (h : s.command = .error e) : e.Declared text := by
  cases s with
  | mark name => cases h
  | plain op => cases h
  | jump op label => cases h
  | unknown w =>
    cases h
    exact .unknown hs
  | number op negative digits =>
    simp only [Statement.command, Decimal.read] at h
    by_cases hlimit : digits.length ≤ Decimal.limit
    · simp [hlimit] at h
    · simp only [hlimit, if_false] at h
      cases h
      exact .tooLong hs (by omega)
  | character op w =>
    simp only [Statement.command] at h
    split at h
    · cases h
    · next hsingle =>
      cases h
      refine .notSingle hs fun hlength => ?_
      obtain ⟨a, rfl⟩ := List.length_eq_one_iff.1 hlength
      exact hsingle a rfl

/-- Statements that are not all taken over fail with the error of one of them. -/
theorem Draft.exists_command_of_addAll {d d' : Draft} {ss : List Statement} {e : Error}
    (h : d.addAll ss = .error e d') : ∃ s ∈ ss, s.command = .error e := by
  induction ss generalizing d with
  | nil => cases h
  | cons s ss ih =>
    rw [addAll] at h
    cases hs : s.command with
    | error e' =>
      obtain ⟨d₁, hadd⟩ := d.add_of_error hs
      rw [hadd] at h
      cases h
      exact ⟨s, List.mem_cons_self, hs⟩
    | ok c =>
      obtain ⟨d₁, hadd, -⟩ := d.add_of_ok hs
      rw [hadd] at h
      obtain ⟨s', hs', hcommand⟩ := ih h
      exact ⟨s', List.mem_cons_of_mem s hs', hcommand⟩

/-- The first statement that is refused decides. -/
theorem assemble_of_refused (tagged : Bool) {text : List Char} {before after : List Statement}
    {s : Statement} {cs : List Command} {e : Error} (hparse : (parse text).1 = before ++ s :: after)
    (hbefore : List.Forall₂ (fun s c => s.command = .ok c) before cs)
    (hs : s.command = .error e) : assemble tagged text = .error e := by
  have hwf : ∀ s ∈ before, s.WellFormed := fun s hs =>
    parse_wellFormed text s (hparse ▸ List.mem_append_left _ hs)
  obtain ⟨d, hadd, -⟩ := Draft.collected_empty.addAll hwf hbefore
  obtain ⟨d', hrefused⟩ := d.add_of_error hs
  have hdraft : draft text = .error e d' := by
    rw [draft, hparse, Draft.addAll_append hadd, Draft.addAll, hrefused]
  simp only [assemble, assembleLogged, hdraft]

/-- A text is assembled, or it is refused for one of the declared reasons. -/
theorem assemble_cases_declared (tagged : Bool) (text : List Char) :
    (∃ s, assemble tagged text = .ok s) ∨
      ∃ e, assemble tagged text = .error e ∧ e.Declared text := by
  cases hdraft : draft text with
  | error e d =>
    obtain ⟨s, hs, hcommand⟩ := Draft.exists_command_of_addAll hdraft
    refine .inr ⟨e, ?_, Error.declared_of_command hs hcommand⟩
    simp only [assemble, assembleLogged, hdraft]
  | ok _ d =>
    obtain ⟨cs, hcs⟩ := Draft.forall₂_of_addAll hdraft
    obtain ⟨d', hdraft', hd, hwf⟩ := draft_of_forall₂ hcs
    cases hdraft.symm.trans hdraft'
    by_cases hdefined : d.undefined = []
    · left
      obtain ⟨e, he⟩ | ⟨_, _, -, -, hplain, htagged⟩ := assemble_cases text
      · obtain ⟨log, hsource⟩ := hd.source_eq hwf hdefined
        have hfalse := he false
        rw [assemble_eq false hdraft, hsource] at hfalse
        cases hfalse
      · cases tagged with
        | false => exact ⟨_, hplain⟩
        | true => exact ⟨_, htagged⟩
    · refine .inr ⟨.undefined (d.undefined.mergeSort (· ≤ ·)), ?_, .undefined ?_ ?_⟩
      · simp only [assemble_eq tagged hdraft, Draft.source, if_neg hdefined]
      · intro hnil
        have hperm := List.mergeSort_perm d.undefined (· ≤ ·)
        rw [hnil] at hperm
        exact hdefined hperm.symm.eq_nil
      · intro name hname
        rw [List.mem_mergeSort] at hname
        exact (hd.mem_undefined_statements (parse_wellFormed text) hcs name).1 hname

/-- Assembling fails only in its declared ways, with tags and without. A text is assembled or refused
for a declared reason. Taking over its tokens comes to its draft, so no operand goes astray: whenever
one is handed over, the last command takes this kind of operand and has none yet. In the draft every
command has the operand that its opcode takes, and every label has digits. -/
theorem assemble_declared (tagged : Bool) (text : List Char) :
    ((∃ s, assemble tagged text = .ok s) ∨
      ∃ e, assemble tagged text = .error e ∧ e.Declared text) ∧
    Agrees (({} : Draft).takeAll (tokens text)) (draft text) ∧
    (∀ before t after kind d, tokens text = before ++ t :: after → t.operandKind? = some kind →
      ({} : Draft).takeAll before = .ok () d →
      ∃ op, d.commands.back? = some ⟨op, .none⟩ ∧ op.operandKind = kind) ∧
    ∀ d, draft text = .ok () d → ∀ c ∈ d.commands.toList, c.WellFormed ∧
      ∀ name, c.argument = .name name → ((allocate d.names).get? name).isSome := by
  refine ⟨assemble_cases_declared tagged text, agrees_addAll {} (parse text).1, ?_, ?_⟩
  · intro before t after kind d htokens hkind hbefore
    obtain ⟨init, op, rfl, hop⟩ := exists_mnemonic (parse_wellFormed text) htokens hkind
    exact ⟨op, back?_of_takeAll hbefore, hop⟩
  · intro d hdraft c hc
    obtain ⟨cs, hd, hwf⟩ := draft_eq_ok hdraft
    rw [hd.commands] at hc
    refine ⟨hwf c hc, fun name hname => ?_⟩
    rw [allocate_isSome_iff, hd.mem_names]
    exact ⟨c, hc, hname⟩

/-- The number goes to the push, which was added last and has no operand yet. -/
theorem assemble_declared_push :
    tokens "a: push 5 jmp a".toList = [.label "a", .mnemonic .push] ++
      .number false ['5'] :: [.mnemonic .jump, .reference "a"] ∧
    ∃ d op, ({} : Draft).takeAll [.label "a", .mnemonic .push] = .ok () d ∧
      d.commands.back? = some ⟨op, .none⟩ ∧ op.operandKind = .number := by
  have htokens : tokens "a: push 5 jmp a".toList = [.label "a", .mnemonic .push] ++
      .number false ['5'] :: [.mnemonic .jump, .reference "a"] := by decide +kernel
  obtain ⟨-, -, hoperands, -⟩ := assemble_declared false "a: push 5 jmp a".toList
  obtain ⟨op, hlast, hkind⟩ := hoperands _ _ _ _ _ htokens rfl rfl
  exact ⟨htokens, _, op, rfl, hlast, hkind⟩

end Whitespace.Assembly
