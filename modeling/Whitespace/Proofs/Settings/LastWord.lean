import Whitespace.Command.Interpret
import Whitespace.Proofs.Command.Options
import Whitespace.Proofs.Settings.Sections

/-!
# The last word on a setting

Settings change by requests, each with values for some of them or with the name of a file. A request
that is refused changes nothing. Whatever the requests, each setting has the value that was said
last: a request says something only if it is not refused, and a setting that no request says
anything about keeps its first value.

A run starts from the settings by default, takes up the file that the command line names, and then
the options. So an option has the last word, and what is left off is as the file has it.

## Main definitions

* `Settings.Call.Gives`, `Settings.Call.Says` — what a request gives, and what it says.
* `Settings.LastWord`, `Settings.Unsaid` — the value that was said last, if any was.
* `Settings.Opens` — a command line with a settings file.

## Main statements

* `Settings.Call.run_eq` — a request is checked as a whole before it changes anything.
* `Settings.Call.returns_load_iff` — the files that are not refused.
* `Settings.value?_session` — each setting has the value that was said last.
* `Settings.settings_hold_last_word` — so it is for sessions and for the tool that runs programs.
-/

namespace Whitespace.Settings

open Config (Value Entries)
open Command (Directory Failure Path Given Flag)

/-! ## Requests -/

namespace Call

/-- The request is not refused, whatever the settings are. -/
def Returns (c : Call) : Prop := ∀ s : Settings, ∃ s', s.call c = .ok () s'

/-- The request has a value for a setting. In a file it stands in the section, under the name of the
setting. -/
inductive Gives : Call → Field → Value → Prop where
  | update {patch : Patch} {f : Field} {v : Value} (h : patch.value? f = some v) :
      Gives (update patch) f v
  | load {here : List String} {d : Directory here} {path : Path} {text : List Char}
      {entries : Entries} {f : Field} {v : Value} (hread : Command.readText d path = .ok text)
      (hsection : HasSection text entries) (h : (f.name, v) ∈ entries) : Gives (load d path) f v

/-- The request has a value for a setting and is not refused. -/
def Says (c : Call) (f : Field) (v : Value) : Prop := c.Returns ∧ c.Gives f v

/-- The changes that a request asks for, or why it is refused. -/
def patch : Call → Except Failure Patch
  | update patch => .ok patch
  | load d path => (Command.loadFile d path).map Prod.fst

/-- New values one after the other are an update at once. -/
theorem assign_eq (patch : Patch) (s : Settings) : assign patch s = .ok () (s.update patch) := by
  obtain ⟨verbose, trace, dump, splitCrlf, heapDefault⟩ := patch
  cases verbose <;> cases trace <;> cases dump <;> cases splitCrlf <;> cases heapDefault <;> rfl

/-- All of a request is read and checked before any setting has a new value. -/
theorem run_eq (c : Call) : c.run = ofExcept c.patch >>= assign := by
  cases c with
  | update patch => rfl
  | load d path =>
    simp only [run, patch, Command.loadFile]
    cases Command.readText d path with
    | error f => rfl
    | ok text =>
      simp only [ofExcept, pure_bind]
      cases Settings.load path.text text with
      | error e => rfl
      | ok r => rfl

theorem call_of_error {c : Call} {f : Failure} (h : c.patch = .error f) (s : Settings) :
    s.call c = .error f s := by
  rw [call, run_eq, h]
  rfl

theorem call_of_ok {c : Call} {patch : Patch} (h : c.patch = .ok patch) (s : Settings) :
    s.call c = .ok () (s.update patch) := by
  rw [call, run_eq, h]
  exact assign_eq patch s

theorem returns_iff {c : Call} : c.Returns ↔ ∃ patch, c.patch = .ok patch := by
  constructor
  · intro h
    obtain ⟨s', hs'⟩ := h {}
    cases hpatch : c.patch with
    | error f => cases (call_of_error hpatch {}).symm.trans hs'
    | ok patch => exact ⟨patch, rfl⟩
  · rintro ⟨patch, hpatch⟩ s
    exact ⟨_, call_of_ok hpatch s⟩

/-- Whether a request is refused does not depend on the settings, and if it is they stay. -/
theorem returns_or_refused (c : Call) : c.Returns ∨ ∃ f, ∀ s : Settings, s.call c = .error f s := by
  cases hpatch : c.patch with
  | error f => exact .inr ⟨f, call_of_error hpatch⟩
  | ok patch => exact .inl (returns_iff.2 ⟨patch, hpatch⟩)

/-- What a request to load a file asks for is what the section of the file asks for. -/
theorem patch_load_eq_ok_iff {here : List String} {d : Directory here} {path : Path}
    {patch : Patch} :
    (load d path).patch = .ok patch ↔ ∃ text entries, Command.readText d path = .ok text ∧
      HasSection text entries ∧ Acceptable entries ∧ patch = sectionPatch entries := by
  have hload (text : List Char) : ((Settings.load path.text text).mapError Failure.load).map
      Prod.fst = .ok patch ↔ ∃ record, Settings.load path.text text = .ok (patch, record) := by
    cases Settings.load path.text text with
    | error e => simp [Except.map, Except.mapError]
    | ok r =>
      obtain ⟨patch', record⟩ := r
      simp [Except.map, Except.mapError]
  rw [Call.patch, Command.loadFile]
  cases hread : Command.readText d path with
  | error f => simp [Except.map]
  | ok text => simp [hload, load_eq_ok_iff]

/-- A file is refused unless it can be read, is a settings file, and has an acceptable section or
none. -/
theorem returns_load_iff {here : List String} {d : Directory here} {path : Path} :
    (load d path).Returns ↔ ∃ text entries, Command.readText d path = .ok text ∧
      HasSection text entries ∧ Acceptable entries := by
  rw [returns_iff]
  constructor
  · rintro ⟨patch, h⟩
    obtain ⟨text, entries, hread, hsection, hacceptable, -⟩ := patch_load_eq_ok_iff.1 h
    exact ⟨text, entries, hread, hsection, hacceptable⟩
  · rintro ⟨text, entries, hread, hsection, hacceptable⟩
    exact ⟨_, patch_load_eq_ok_iff.2 ⟨text, entries, hread, hsection, hacceptable, rfl⟩⟩

theorem gives_iff {c : Call} {patch : Patch} (h : c.patch = .ok patch) {f : Field} {v : Value} :
    c.Gives f v ↔ patch.value? f = some v := by
  cases c with
  | update patch' =>
    cases h
    constructor
    · rintro ⟨hv⟩
      exact hv
    · exact .update
  | load d path =>
    obtain ⟨text, entries, hread, hsection, hacceptable, rfl⟩ := patch_load_eq_ok_iff.1 h
    rw [value?_sectionPatch hsection.nodup_keys hacceptable.takes]
    constructor
    · intro hgives
      cases hgives with
      | load hread' hsection' hv =>
        cases hread.symm.trans hread'
        rwa [hsection.unique hsection']
    · exact .load hread hsection

end Call

/-! ## Sessions -/

/-- The value was said last: a request says it, and none behind that one says anything about the
setting. -/
def LastWord (calls : List Call) (f : Field) (v : Value) : Prop :=
  ∃ before c behind, calls = before ++ c :: behind ∧ c.Says f v ∧ ∀ c' ∈ behind, ∀ w, ¬ c'.Says f w

/-- No request says anything about the setting. -/
def Unsaid (calls : List Call) (f : Field) : Prop := ∀ c ∈ calls, ∀ v, ¬ c.Says f v

section Session

variable {s : Settings} {c : Call} {calls : List Call} {f : Field} {v : Value}

/-- One request: a setting has the value that the request says, or keeps its own. -/
theorem value?_after :
    (s.after c).value? f = some v ↔
      c.Says f v ∨ (∀ w, ¬ c.Says f w) ∧ s.value? f = some v := by
  cases hpatch : c.patch with
  | error e =>
    have hsilent (w : Value) : ¬ c.Says f w := fun h => by
      obtain ⟨patch, hok⟩ := Call.returns_iff.1 h.1
      cases hpatch.symm.trans hok
    simp [after, Call.call_of_error hpatch, hsilent]
  | ok patch =>
    have hsays (w : Value) : c.Says f w ↔ patch.value? f = some w := by
      rw [Call.Says, Call.gives_iff hpatch]
      exact and_iff_right (Call.returns_iff.2 ⟨patch, hpatch⟩)
    simp only [after, Call.call_of_ok hpatch, value?_update, hsays]
    cases patch.value? f <;> simp

theorem lastWord_cons :
    LastWord (c :: calls) f v ↔ LastWord calls f v ∨ Unsaid calls f ∧ c.Says f v := by
  constructor
  · rintro ⟨before, c', behind, hcalls, hsays, hbehind⟩
    cases before with
    | nil =>
      cases hcalls
      exact .inr ⟨hbehind, hsays⟩
    | cons c'' before =>
      cases hcalls
      exact .inl ⟨before, c', behind, rfl, hsays, hbehind⟩
  · rintro (⟨before, c', behind, rfl, hsays, hbehind⟩ | ⟨hunsaid, hsays⟩)
    · exact ⟨c :: before, c', behind, rfl, hsays, hbehind⟩
    · exact ⟨[], c, calls, rfl, hsays, hunsaid⟩

theorem unsaid_cons : Unsaid (c :: calls) f ↔ (∀ w, ¬ c.Says f w) ∧ Unsaid calls f :=
  List.forall_mem_cons

/-- Each setting has the value that was said last, or its first value if nothing was said. -/
theorem value?_session (s : Settings) (calls : List Call) :
    (s.session calls).value? f = some v ↔
      LastWord calls f v ∨ Unsaid calls f ∧ s.value? f = some v := by
  induction calls generalizing s with
  | nil =>
    have hnot : ¬ LastWord [] f v := by
      rintro ⟨before, c, behind, hcalls, -⟩
      exact absurd hcalls (by simp)
    simp [session, hnot, Unsaid]
  | cons c calls ih =>
    rw [session, List.foldl_cons, ← session, ih, value?_after, lastWord_cons, unsaid_cons]
    tauto

end Session

/-! ## The command line -/

/-- The option of the command line for a setting. -/
def Field.flag : Field → Flag
  | verbose => .verbose
  | trace => .trace
  | dump => .dump
  | splitCrlf => .splitCrlf
  | heapDefault => .heapDefault

/-- The options give a setting a value: those without a value of their own turn a setting on, and
the default of heap cells is the number given last. -/
inductive Sets (g : Given) : Field → Value → Prop where
  | on {f : Field} (hf : f ≠ .heapDefault) (h : g.has f.flag = true) : Sets g f (.bool true)
  | number {word : String} {n : Int} (hword : g.value? .heapDefault = some word)
      (hn : Text.readDecimal? word.toList = some n) : Sets g .heapDefault (.integer n)

/-- The command line is understood as `g`, and the tool that runs programs takes up the settings
file `file` and goes on with the source `source`. -/
structure Opens {here : List String} (words : List String) (d : Directory here) (g : Given)
    (source file : Path) : Prop where
  parsed : Command.interpreter.parse words = .ok g
  help : g.has .help = false
  flags : Command.checkFlags d g = .ok ()
  source : Command.sourceArgument d g = .ok source
  file : ∃ typed, g.value? .config = some typed ∧ file = .ofText typed

theorem value?_flagPatch (g : Given) (f : Field) (v : Value) :
    (Command.flagPatch g).value? f = some v ↔ Sets g f v := by
  have hon (f : Field) (hf : f ≠ .heapDefault) :
      Sets g f v ↔ g.has f.flag = true ∧ v = .bool true := by
    constructor
    · rintro (⟨-, h⟩ | ⟨-, -⟩)
      · exact ⟨h, rfl⟩
      · exact absurd rfl hf
    · rintro ⟨h, rfl⟩
      exact .on hf h
  have hswitch (b : Bool) :
      (if b then some true else none).map Value.bool = some v ↔ b = true ∧ v = .bool true := by
    cases b <;> simp [eq_comm]
  cases f with
  | heapDefault =>
    simp only [Patch.value?, Command.flagPatch, Option.map_eq_some_iff, Option.bind_eq_some_iff]
    constructor
    · rintro ⟨n, ⟨word, hword, hn⟩, rfl⟩
      exact .number hword hn
    · intro h
      cases h with
      | on hf => exact absurd rfl hf
      | number hword hn => exact ⟨_, ⟨_, hword, hn⟩, rfl⟩
  | verbose | trace | dump | splitCrlf =>
    rw [hon _ (by decide)]
    exact hswitch _

theorem not_sets {g : Given} {f : Field} (hf : g.has f.flag = false) (v : Value) :
    ¬ Sets g f v := by
  rintro (⟨-, h⟩ | ⟨hword, -⟩)
  · rw [h] at hf
    cases hf
  · rw [Given.has_eq_isSome_value?, Field.flag, hword] at hf
    cases hf

namespace Opens

variable {here words : List String} {d : Directory here} {g : Given} {source file : Path}

/-- An option that is given gives a value. -/
theorem exists_sets (h : Opens words d g source file) {f : Field} (hf : g.has f.flag = true) :
    ∃ v, Sets g f v := by
  by_cases hdefault : f = .heapDefault
  · subst hdefault
    obtain ⟨o, ho, heq⟩ := List.any_eq_true.1 hf
    have hcheck := Command.checkFlags_eq_ok_iff.1 h.flags o ho
    rw [of_decide_eq_true heq, Field.flag] at hcheck
    rw [Given.has_eq_isSome_value?, Option.isSome_iff_exists] at hf
    obtain ⟨word, hword⟩ := hf
    rw [Field.flag] at hword
    simp only [Command.checkFlag, hword] at hcheck
    split at hcheck
    · next hnumber =>
      obtain ⟨n, hn⟩ := Option.isSome_iff_exists.1 hnumber
      exact ⟨_, .number hword hn⟩
    · cases hcheck
  · exact ⟨_, .on hdefault hf⟩

/-- The settings of a run: the file is taken up first, then the options. -/
theorem interpret_eq (h : Opens words d g source file) (hload : (Call.load d file).Returns) :
    ∃ s : Settings, s = ({} : Settings).session [.load d file, .update (Command.flagPatch g)] ∧
      ∀ input fuel, Command.interpret words d input fuel =
        Command.interpretSource d (Command.threshold g s) s source input fuel := by
  obtain ⟨typed, htyped, rfl⟩ := h.file
  obtain ⟨patch, hpatch⟩ := Call.returns_iff.1 hload
  have hconfigured : Command.configured d g = .ok (({} : Settings).update patch) := by
    simp only [Command.configured, htyped, Call.call_of_ok hpatch]
  have hupdate : (Call.update (Command.flagPatch g)).patch = .ok (Command.flagPatch g) := rfl
  refine ⟨_, rfl, fun input fuel => ?_⟩
  simp only [session, List.foldl_cons, List.foldl_nil, after, Call.call_of_ok hpatch,
    Call.call_of_ok hupdate, Command.interpret, Command.withCommandLine, h.parsed, h.help, h.flags,
    h.source, hconfigured]
  rfl

end Opens

/-- An option has the last word, and behind it the file. -/
theorem value?_session_load_update {here : List String} {d : Directory here} {file : Path}
    (hload : (Call.load d file).Returns) (s : Settings) (g : Given) {f : Field} {v : Value} :
    (s.session [.load d file, .update (Command.flagPatch g)]).value? f = some v ↔
      Sets g f v ∨ (∀ w, ¬ Sets g f w) ∧ ((Call.load d file).Gives f v ∨
        (∀ w, ¬ (Call.load d file).Gives f w) ∧ s.value? f = some v) := by
  have hoptions (w : Value) : (Call.update (Command.flagPatch g)).Says f w ↔ Sets g f w := by
    rw [Call.Says, and_iff_right (Call.returns_iff.2 ⟨_, rfl⟩), Call.gives_iff rfl,
      value?_flagPatch]
  have hfile (w : Value) : (Call.load d file).Says f w ↔ (Call.load d file).Gives f w :=
    and_iff_right hload
  simp only [session, List.foldl_cons, List.foldl_nil, value?_after, hoptions, hfile]

/-- Settings are the last word on each of them.

* A request is refused or not whatever the settings are, and if it is they all stay. New values are
  never refused. A file is refused unless it can be read, is a settings file, and its section, if it
  has one, is a table of known settings in which the default of heap cells is an integer, the others
  are truth values, and every number can be logged.
* After any requests, each setting has the value that was given last by a request that was not
  refused, and the value it had at first if there is none.
* The tool that runs programs runs them under such settings. If the command line names a settings
  file that is not refused, then an option that is given wins, and a setting whose option is left
  off is as the file has it, or by default if the file says nothing about it. -/
theorem settings_hold_last_word :
    ((∀ c : Call, c.Returns ∨ ∃ f, ∀ s : Settings, s.call c = .error f s) ∧
      (∀ patch, (Call.update patch).Returns) ∧
      ∀ here (d : Directory here) path, (Call.load d path).Returns ↔ ∃ text entries,
        Command.readText d path = .ok text ∧ HasSection text entries ∧ Acceptable entries) ∧
    (∀ (s : Settings) (calls : List Call) (f : Field) (v : Value),
      (s.session calls).value? f = some v ↔
        LastWord calls f v ∨ Unsaid calls f ∧ s.value? f = some v) ∧
    ∀ here words (d : Directory here) g source file, Opens words d g source file →
      (Call.load d file).Returns → ∃ s : Settings,
        (∀ input fuel, Command.interpret words d input fuel =
          Command.interpretSource d (Command.threshold g s) s source input fuel) ∧
        (∀ f, g.has f.flag = true → ∃ v, Sets g f v ∧ s.value? f = some v) ∧
        ∀ f, g.has f.flag = false → ∀ v, s.value? f = some v ↔
          (Call.load d file).Gives f v ∨
            (∀ w, ¬ (Call.load d file).Gives f w) ∧ ({} : Settings).value? f = some v := by
  refine ⟨⟨Call.returns_or_refused, fun patch => Call.returns_iff.2 ⟨patch, rfl⟩,
    fun here d path => Call.returns_load_iff⟩, fun s calls f v => value?_session s calls,
    fun here words d g source file hopens hload => ?_⟩
  obtain ⟨s, rfl, hinterpret⟩ := hopens.interpret_eq hload
  refine ⟨_, hinterpret, fun f hf => ?_, fun f hf v => ?_⟩
  · obtain ⟨v, hv⟩ := hopens.exists_sets hf
    exact ⟨v, hv, (value?_session_load_update hload {} g).2 (.inl hv)⟩
  · have hleft := not_sets hf
    rw [value?_session_load_update hload, or_iff_right (hleft v), and_iff_right hleft]

/-- The file turns the listing off and has zero as the default of heap cells, next to a date and a
string on two lines in a section of no concern; the command line turns the listing on. -/
theorem settings_hold_last_word_zero :
    let file : String := "[interpreter]\nheap_default = 0\ndump = false\n" ++
      "[about]\nday = 1979-05-27\ntext = \"\"\"two\nlines\"\"\"\n"
    let d : Directory := ⟨⟨[(["p.ws"], .file []), (["w.toml"], .file file.toUTF8.toList)]⟩⟩
    ∃ s : Settings,
      (∀ input fuel, Command.interpret ["-c", "w.toml", "--dump", "p.ws"] d input fuel =
        Command.interpretSource d .warning s (.ofText "p.ws") input fuel) ∧
      s.value? .dump = some (.bool true) ∧ s.value? .heapDefault = some (.integer 0) ∧
      s.value? .verbose = some (.bool false) := by
  intro file d
  let g : Given := ⟨[(.config, "w.toml"), (.dump, "")], ["p.ws"]⟩
  let load : Call := .load d (.ofText "w.toml")
  have hopens : Opens ["-c", "w.toml", "--dump", "p.ws"] d g (.ofText "p.ws") (.ofText "w.toml") :=
    { parsed := by rfl
      help := by decide
      flags := by decide +kernel
      source := by decide +kernel
      file := ⟨"w.toml", rfl, rfl⟩ }
  have hpatch : load.patch = .ok { dump := some false, heapDefault := some 0 } := by
    have hsome : load.patch.toOption = some { dump := some false, heapDefault := some 0 } := by
      decide +kernel
    cases hload : load.patch with
    | error f =>
      rw [hload] at hsome
      cases hsome
    | ok patch =>
      rw [hload] at hsome
      cases hsome
      rfl
  have hzero : load.Gives .heapDefault (.integer 0) := (Call.gives_iff hpatch).2 rfl
  have hsilent (w : Value) : ¬ load.Gives .verbose w := fun h => by
    cases (Call.gives_iff hpatch).1 h
  obtain ⟨s, hinterpret, hgiven, hleft⟩ := settings_hold_last_word.2.2 _ _ d g _ _ hopens
    (Call.returns_iff.2 ⟨_, hpatch⟩)
  obtain ⟨v, hv, hdump⟩ := hgiven .dump (by decide)
  refine ⟨s, hinterpret, ?_, ?_, ?_⟩
  · cases hv
    exact hdump
  · exact (hleft .heapDefault (by decide) _).2 (.inl hzero)
  · exact (hleft .verbose (by decide) _).2 (.inr ⟨hsilent, rfl⟩)

end Whitespace.Settings
