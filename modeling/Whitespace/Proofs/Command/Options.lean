import Mathlib.Data.List.Basic
import Whitespace.Command.Options

/-!
# Command lines that are understood

The command lines of a tool have a grammar, which says how options and arguments are spelled and not
how they are read. Every command line of the grammar is understood as what it spells.

## Main definitions

* `Lettered` — joined one-letter options.
* `Worded` — a word that gives options.
* `Spelled` — a whole command line.

## Main statements

* `letters_of_lettered`, `word_of_worded` — letters and words are read as what they spell.
* `parse_of_spelled` — so are command lines.
* `mem_flags_of_parse` — the options of a command line are options of the tool.
* `checkFlags_eq_ok_iff` — options pass exactly if each of them does.
-/

namespace Whitespace.Command

/-- Joined one-letter options. One that takes a value ends them: the value is the rest of the
letters, or it is left to the next word. -/
inductive Lettered (sig : Signature) : List Char → Word → Prop where
  | done : Lettered sig [] {}
  | flag {f : Flag} {c : Char} {cs : List Char} {w : Word} (hf : f ∈ sig.flags)
      (hc : f.short? = some c) (hplain : f.takesValue = false) (hw : Lettered sig cs w) :
      Lettered sig (c :: cs) { w with flags := (f, "") :: w.flags }
  | value {f : Flag} {c : Char} {cs : List Char} (hf : f ∈ sig.flags) (hc : f.short? = some c)
      (hvalue : f.takesValue = true) (hcs : cs ≠ []) :
      Lettered sig (c :: cs) { flags := [(f, String.ofList cs)] }
  | pending {f : Flag} {c : Char} (hf : f ∈ sig.flags) (hc : f.short? = some c)
      (hvalue : f.takesValue = true) :
      Lettered sig [c] { open? := some (f, "-" ++ String.singleton c) }

/-- A word that gives options: the long form of one, with a value attached if it takes one and does
not leave it to the next word, or one-letter options behind a dash. -/
inductive Worded (sig : Signature) : List Char → Word → Prop where
  | plain {f : Flag} (hf : f ∈ sig.flags) (hplain : f.takesValue = false) :
      Worded sig f.long.toList { flags := [(f, "")] }
  | value {f : Flag} (hf : f ∈ sig.flags) (hvalue : f.takesValue = true) (v : List Char) :
      Worded sig (f.long.toList ++ '=' :: v) { flags := [(f, String.ofList v)] }
  | pending {f : Flag} (hf : f ∈ sig.flags) (hvalue : f.takesValue = true) :
      Worded sig f.long.toList { open? := some (f, f.long) }
  | joined {cs : List Char} {w : Word} (hcs : cs ≠ []) (hw : Lettered sig cs w) :
      Worded sig ('-' :: cs) w

/-- A command line: words that give options, each with the value that it leaves to the next word,
and arguments between them. Behind a double dash there are only arguments. -/
inductive Spelled (sig : Signature) : List String → Given → Prop where
  | done : Spelled sig [] {}
  | dashes (arguments : List String) : Spelled sig ("--" :: arguments) { arguments }
  | argument {w : String} {words : List String} {g : Given}
      (hw : w = "-" ∨ w.toList.head? ≠ some '-') (h : Spelled sig words g) :
      Spelled sig (w :: words) { g with arguments := w :: g.arguments }
  | options {w : String} {word : Word} {words : List String} {g : Given}
      (hw : Worded sig w.toList word) (hopen : word.open? = none) (h : Spelled sig words g) :
      Spelled sig (w :: words) (g.addFlags word.flags)
  | valued {w : String} {word : Word} {f : Flag} {name value : String} {words : List String}
      {g : Given} (hw : Worded sig w.toList word) (hopen : word.open? = some (f, name))
      (h : Spelled sig words g) :
      Spelled sig (w :: value :: words) (g.addFlags (word.flags ++ [(f, value)]))

/-! ## Names of options -/

namespace Flag

theorem long_injective {f g : Flag} (h : f.long = g.long) : f = g := by
  cases f <;> cases g <;> first | rfl | simp [long] at h

theorem short?_injective {f g : Flag} {c : Char} (hf : f.short? = some c) (hg : g.short? = some c) :
    f = g := by
  cases f <;> cases g <;> simp_all [short?] <;> exact absurd (hf.trans hg.symm) (by decide)

theorem short?_ne_dash {f : Flag} {c : Char} (h : f.short? = some c) : c ≠ '-' := by
  cases f <;> simp_all [short?] <;> subst h <;> decide

/-- A long form starts with two dashes, and no equality sign is in it. -/
theorem long_eq (f : Flag) :
    ∃ c cs, f.long.toList = '-' :: '-' :: c :: cs ∧ '=' ∉ f.long.toList := by
  cases f <;> exact ⟨_, _, rfl, by decide⟩

end Flag

/-! ## Words -/

variable {sig : Signature}

theorem find?_eq_some {flags : List Flag} {p : Flag → Bool} {f : Flag} (hf : f ∈ flags)
    (hp : p f = true) (huniq : ∀ g, p g = true → g = f) : flags.find? p = some f := by
  cases h : flags.find? p with
  | none => exact absurd hp (List.find?_eq_none.1 h f hf)
  | some g => rw [huniq g (List.find?_some h)]

theorem letters_of_lettered {cs : List Char} {w : Word} (h : Lettered sig cs w) :
    sig.letters cs = .ok w := by
  have hfind {f : Flag} {c : Char} (hf : f ∈ sig.flags) (hc : f.short? = some c) :
      sig.flags.find? (·.short? = some c) = some f :=
    find?_eq_some hf (decide_eq_true hc) fun g hg => Flag.short?_injective (of_decide_eq_true hg) hc
  induction h with
  | done => rfl
  | flag hf hc hplain _ ih =>
    simp only [Signature.letters, hfind hf hc, hplain, ih]
    rfl
  | value hf hc hvalue hcs =>
    simp only [Signature.letters, hfind hf hc, hvalue, if_true, if_neg hcs]
  | pending hf hc hvalue => simp only [Signature.letters, hfind hf hc, hvalue, if_true]

theorem Lettered.starts {cs : List Char} {w : Word} (h : Lettered sig cs w) (hcs : cs ≠ []) :
    ∃ c rest, cs = c :: rest ∧ c ≠ '-' := by
  cases h with
  | done => exact absurd rfl hcs
  | flag hf hc => exact ⟨_, _, rfl, Flag.short?_ne_dash hc⟩
  | value hf hc => exact ⟨_, _, rfl, Flag.short?_ne_dash hc⟩
  | pending hf hc => exact ⟨_, _, rfl, Flag.short?_ne_dash hc⟩

/-- The name of an option is what stands in front of the first equality sign. -/
theorem takeWhile_long (f : Flag) (v : List Char) :
    (f.long.toList ++ v).takeWhile (· ≠ '=') = f.long.toList ++ v.takeWhile (· ≠ '=') := by
  obtain ⟨c, cs, -, hname⟩ := f.long_eq
  refine List.takeWhile_append_of_pos fun a ha => decide_eq_true ?_
  rintro rfl
  exact hname ha

theorem dropWhile_long (f : Flag) (v : List Char) :
    (f.long.toList ++ v).dropWhile (· ≠ '=') = v.dropWhile (· ≠ '=') := by
  obtain ⟨c, cs, -, hname⟩ := f.long_eq
  refine List.dropWhile_append_of_pos fun a ha => decide_eq_true ?_
  rintro rfl
  exact hname ha

/-- No long form starts with a single dash. -/
theorem find?_long_eq_none {flags : List Flag} {c : Char} {rest : List Char} (hc : c ≠ '-') :
    flags.find? (·.long = String.ofList (('-' :: c :: rest).takeWhile (· ≠ '='))) = none := by
  refine List.find?_eq_none.2 fun f _ hlong => ?_
  obtain ⟨a, as, heq, -⟩ := f.long_eq
  rw [of_decide_eq_true hlong, String.toList_ofList] at heq
  have hprefix := List.takeWhile_prefix (l := '-' :: c :: rest) (· ≠ '=')
  rw [heq, List.cons_prefix_cons, List.cons_prefix_cons] at hprefix
  exact hc hprefix.2.1.symm

theorem word_of_worded {s : List Char} {w : Word} (h : Worded sig s w) : sig.word s = .ok w := by
  have hfind {f : Flag} (hf : f ∈ sig.flags) : sig.flags.find? (·.long = f.long) = some f :=
    find?_eq_some hf (decide_eq_true rfl) fun g hg => Flag.long_injective (of_decide_eq_true hg)
  have htake (f : Flag) := takeWhile_long f []
  have hdrop (f : Flag) := dropWhile_long f []
  simp only [List.append_nil, List.takeWhile_nil, List.dropWhile_nil] at htake hdrop
  cases h with
  | plain hf hplain =>
    simp only [Signature.word, htake, hdrop, String.ofList_toList, hfind hf, hplain]
  | value hf hvalue v =>
    simp only [Signature.word, takeWhile_long, dropWhile_long]
    simp [hfind hf, hvalue]
  | pending hf hvalue =>
    simp only [Signature.word, htake, hdrop, String.ofList_toList, hfind hf, hvalue]
  | joined hcs hw =>
    -- the word is first looked up as a long form, and then read letter by letter
    obtain ⟨c, rest, rfl, hc⟩ := hw.starts hcs
    simp only [Signature.word, find?_long_eq_none hc]
    split
    · next heq => exact absurd (List.cons.inj (List.cons.inj heq).2).1 hc
    · exact letters_of_lettered hw

theorem Worded.starts {s : List Char} {w : Word} (h : Worded sig s w) :
    ∃ c cs, s = '-' :: c :: cs ∧ (c = '-' → cs ≠ []) := by
  have hlong (f : Flag) (v : List Char) :
      ∃ c cs, f.long.toList ++ v = '-' :: c :: cs ∧ (c = '-' → cs ≠ []) := by
    obtain ⟨c, cs, heq, -⟩ := f.long_eq
    exact ⟨'-', c :: cs ++ v, by rw [heq]; rfl, nofun⟩
  cases h with
  | plain | pending => simpa using hlong _ []
  | value hf hvalue v => exact hlong _ _
  | joined hcs hw =>
    obtain ⟨c, rest, rfl, hc⟩ := hw.starts hcs
    exact ⟨c, rest, rfl, fun h => absurd h hc⟩

/-! ## Command lines -/

/-- A word that gives options is taken for one. -/
theorem Worded.is_option {w : String} {word : Word} (h : Worded sig w.toList word) :
    w ≠ "--" ∧ (w.length > 1 && w.toList.head? = some '-') = true := by
  obtain ⟨c, cs, hw, hc⟩ := h.starts
  constructor
  · rintro rfl
    cases hw
    exact hc rfl rfl
  · rw [← String.length_toList, hw]
    simp

/-- A command line is understood as what it spells. -/
theorem parse_of_spelled {words : List String} {g : Given} (h : Spelled sig words g) :
    sig.parse words = .ok g := by
  induction h with
  | done => rfl
  | dashes arguments => rw [Signature.parse, if_pos rfl]
  | @argument w words g hw _ ih =>
    have hne : w ≠ "--" := by
      rintro rfl
      exact absurd hw (by decide)
    have hdash : ¬ (w.length > 1 && w.toList.head? = some '-') = true := by
      obtain rfl | hhead := hw
      · decide
      · simp [hhead]
    rw [Signature.parse, if_neg hne, if_neg hdash, ih]
    rfl
  | options hw hopen _ ih =>
    obtain ⟨hne, hdash⟩ := hw.is_option
    rw [Signature.parse, if_neg hne, if_pos hdash, word_of_worded hw]
    simp only [hopen, ih]
    rfl
  | valued hw hopen _ ih =>
    obtain ⟨hne, hdash⟩ := hw.is_option
    rw [Signature.parse, if_neg hne, if_pos hdash, word_of_worded hw]
    simp only [hopen, ih]
    rfl

/-! ## Options that are understood -/

/-- The options that a word gives or leaves open. -/
def Word.options (w : Word) : List (Flag × String) := w.flags ++ w.open?.toList

theorem exists_of_map_eq_ok {ε α β : Type} {x : Except ε α} {f : α → β} {b : β}
    (h : x.map f = .ok b) : ∃ a, x = .ok a ∧ f a = b := by
  cases x with
  | error e => cases h
  | ok a => exact ⟨a, rfl, Except.ok.inj h⟩

theorem mem_flags_of_letters {cs : List Char} {w : Word} (h : sig.letters cs = .ok w) :
    ∀ o ∈ w.options, o.1 ∈ sig.flags := by
  fun_induction Signature.letters sig cs generalizing w with
  | case1 =>
    cases h
    exact nofun
  | case2 => cases h
  | case3 c f hf hvalue | case4 c rest f hf hvalue =>
    cases h
    have hmem := List.mem_of_find?_eq_some hf
    simpa [Word.options] using hmem
  | case5 c rest f hf hvalue ih =>
    obtain ⟨w', hrest, rfl⟩ := exists_of_map_eq_ok h
    exact List.forall_mem_cons.2 ⟨List.mem_of_find?_eq_some hf, ih hrest⟩

theorem mem_flags_of_word {cs : List Char} {w : Word} (h : sig.word cs = .ok w) :
    ∀ o ∈ w.options, o.1 ∈ sig.flags := by
  unfold Signature.word at h
  dsimp only at h
  split at h
  · next f hf =>
    have hmem := List.mem_of_find?_eq_some hf
    split at h <;> cases h <;> simpa [Word.options] using hmem
  · split at h
    · cases h
    · exact mem_flags_of_letters h

/-- The options of a command line are options of the tool. -/
theorem mem_flags_of_parse {words : List String} {g : Given} (h : sig.parse words = .ok g) :
    ∀ o ∈ g.flags, o.1 ∈ sig.flags := by
  fun_induction Signature.parse sig words generalizing g with
  | case1 | case2 =>
    cases h
    exact nofun
  | case3 | case5 => cases h
  | case4 w hdashes hdash word hword rest hopen ih =>
    obtain ⟨g', hrest, rfl⟩ := exists_of_map_eq_ok h
    have hhere := mem_flags_of_word hword
    rw [Word.options, hopen, Option.toList_none, List.append_nil] at hhere
    exact List.forall_mem_append.2 ⟨hhere, ih hrest⟩
  | case6 w hdashes hdash word hword f name value rest hopen ih =>
    obtain ⟨g', hrest, rfl⟩ := exists_of_map_eq_ok h
    have hhere := mem_flags_of_word hword
    rw [Word.options, hopen, Option.toList_some, List.forall_mem_append] at hhere
    have hvalue : ∀ o ∈ [(f, value)], o.1 ∈ sig.flags := by simpa using hhere.2
    exact List.forall_mem_append.2 ⟨List.forall_mem_append.2 ⟨hhere.1, hvalue⟩, ih hrest⟩
  | case7 w rest hdashes hdash ih =>
    obtain ⟨g', hrest, rfl⟩ := exists_of_map_eq_ok h
    exact ih (g := g') hrest

/-! ## Values of options -/

theorem Given.has_eq_isSome_value? (g : Given) (f : Flag) : g.has f = (g.value? f).isSome := by
  rw [Given.has, Given.value?, Option.isSome_map, Bool.eq_iff_iff, List.find?_isSome]
  simp

/-- Options pass exactly if each of them does. -/
theorem checkFlags_eq_ok_iff {here : List String} {d : Directory here} {g : Given} :
    checkFlags d g = .ok () ↔ ∀ o ∈ g.flags, checkFlag d g o.1 = .ok () := by
  rw [checkFlags]
  -- the check looks at all options, so that the list that is gone through is apart from them
  generalize g.flags = flags
  induction flags with
  | nil => simp [List.forM, pure, Except.pure]
  | cons o rest ih =>
    rw [List.forall_mem_cons, ← ih]
    cases hcheck : checkFlag d g o.1 with
    | error e => simp [List.forM, hcheck, bind, Except.bind]
    | ok u => simp [List.forM, hcheck, bind, Except.bind]

end Whitespace.Command
