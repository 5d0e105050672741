import Whitespace.Command.Interpret
import Whitespace.Proofs.Command.Options
import Whitespace.Proofs.Decoder.Pieces
import Whitespace.Proofs.Listing
import Whitespace.Proofs.Machine.Surroundings

/-!
# Exit codes

The tool that runs programs tells by its exit code what became of the source: it was not decoded, it
ran to its end, it did something wrong, it met a number that is too long, or it was interrupted. Its
output is what the program has written, and nothing else. What is shown besides goes to the log,
and so the options that ask for more of it change neither.

## Main definitions

* `Calls` — a command line that runs a source under some settings.
* `Classified` — what an exit code and an output say of a source.
* `outcome?` — the exit code and the output that a source comes to.
* `Given.decisive` — the options that are not only about what is shown.

## Main statements

* `interpretSource_of_error`, `interpretSource_of_ok` — what becomes of a source that can be read.
* `Calls.outcome_interpret` — the exit code and the output in one equation.
* `interpret_classifies` — exit code and output classify the run.
-/

namespace Whitespace

/-- A decoded program can be shown. -/
theorem exists_dumpText_of_decode {split : Bool} {source : List UInt8} {p : Program}
    (h : decode split source = .ok p) : ∃ text, Command.dumpText p = .ok text := by
  obtain ⟨is, rfl, his⟩ := decode_sound h
  obtain ⟨text, htext, -⟩ := Program.layout_listing his
  exact ⟨_, by rw [Command.dumpText, htext]; rfl⟩

namespace Command

/-! ## Sources -/

/-- The run of a program under given settings on an input. -/
def runProgram (s : Settings) (input : Input) (fuel : Nat) (p : Program) : Option Run :=
  Machine.run { program := p, settings := s, ending := input.ending } input.text fuel

theorem runProgram_congr {s s' : Settings} (htrace : s'.trace = s.trace)
    (hdefault : s'.heapDefault = s.heapDefault) : runProgram s' = runProgram s := by
  funext input fuel p
  rw [runProgram, runProgram, Machine.run_congr p input.ending htrace hdefault]

/-- The exit code for a source that is not decoded. -/
def decodeExitCode : Decoder.Error → Nat
  | .malformed .. => 1
  | .tooLong _ => 100

section Sources

variable {here : List String} {d : Directory here} {s : Settings} {path : Path}
  {contents : List UInt8} (level : Level)

/-- A source that is not decoded is reported without a look at the input. -/
theorem interpretSource_of_error (hread : d.read path = .ok contents) {e : Decoder.Error}
    (hdecode : decode s.splitCrlf contents = .error e) :
    ∃ stderr, ∀ input fuel, interpretSource d level s path input fuel =
      some { exitCode := decodeExitCode e, stderr, directory := d } := by
  have hresult := (toExcept_decodeContents s.splitCrlf path.text contents).trans hdecode
  cases e with
  | malformed | tooLong =>
    apply Exists.intro
    intro input fuel
    simp only [interpretSource, hread, hresult]
    rfl

/-- A source that is decoded is run, and the report has the output of the run. -/
theorem interpretSource_of_ok (hread : d.read path = .ok contents) {p : Program}
    (hdecode : decode s.splitCrlf contents = .ok p) :
    ∃ stderr : Run → String, ∀ input fuel, interpretSource d level s path input fuel =
      (runProgram s input fuel p).map fun r =>
        { exitCode := (verdict r.ending).1
          stdout := r.state.output
          stderr := stderr r
          directory := d } := by
  have hresult := (toExcept_decodeContents s.splitCrlf path.text contents).trans hdecode
  obtain ⟨text, htext⟩ := exists_dumpText_of_decode hdecode
  cases hdump : s.dump with
  | true =>
    apply Exists.intro
    intro input fuel
    simp only [interpretSource, hread, hresult, hdump, if_true, htext]
    rfl
  | false =>
    apply Exists.intro
    intro input fuel
    simp only [interpretSource, hread, hresult, hdump]
    rfl

end Sources

/-! ## Command lines -/

/-- The options that are not only about what is shown. -/
def Given.decisive (g : Given) : List (Flag × String) :=
  g.flags.filter fun o => o.1 ≠ .verbose ∧ o.1 ≠ .dump

/-- The command line is understood as `g` and runs the source `contents` under the settings `s`: it
does not ask for help and names one file, which can be read; the default of heap cells, if given, is
a number; and the settings file, if given, is there and can be loaded. -/
structure Calls {here : List String} (words : List String) (d : Directory here) (g : Given)
    (contents : List UInt8) (s : Settings) : Prop where
  spelled : Spelled interpreter words g
  help : g.has .help = false
  source : ∃ source, g.arguments = [source] ∧ d.leadsSomewhere source = true ∧
    d.read (.ofText source) = .ok contents
  heapDefault : ∀ v, g.value? .heapDefault = some v → (Text.readDecimal? v.toList).isSome
  config : ∀ path, g.value? .config = some path → d.leadsSomewhere path = true
  settings : ∃ s₀, configured d g = .ok s₀ ∧ s = s₀.update (flagPatch g)

section CommandLines

variable {here words : List String} {d : Directory here} {g g' : Given} {contents : List UInt8}
  {s : Settings}

theorem Given.has_eq (g : Given) {f : Flag} (hf : f ≠ .verbose ∧ f ≠ .dump) :
    g.has f = g.decisive.any (·.1 = f) := by
  rw [Given.has, Given.decisive, List.any_filter]
  congr 1
  funext o
  by_cases ho : o.1 = f <;> simp [ho, hf]

theorem Given.value?_eq (g : Given) {f : Flag} (hf : f ≠ .verbose ∧ f ≠ .dump) :
    g.value? f = (g.decisive.reverse.find? (·.1 = f)).map (·.2) := by
  rw [Given.value?, Given.decisive, ← List.filter_reverse, List.find?_filter]
  congr 2
  funext o
  by_cases ho : o.1 = f <;> simp [ho, hf]

theorem Calls.checkFlags (h : Calls words d g contents s) : checkFlags d g = .ok () := by
  have hcheck (f : Flag) : checkFlag d g f = .ok () := by
    unfold checkFlag
    split
    · next v hv => rw [if_pos (h.heapDefault v hv)]
    · next path hpath => rw [existing, if_pos (h.config path hpath)]
    · rfl
  exact checkFlags_eq_ok_iff.2 fun o _ => hcheck o.1

/-- A command line that runs a source does so. -/
theorem Calls.interpret_eq (h : Calls words d g contents s) :
    ∃ path, d.read path = .ok contents ∧ ∀ input fuel,
      interpret words d input fuel = interpretSource d (threshold g s) s path input fuel := by
  obtain ⟨source, harguments, hsource, hread⟩ := h.source
  have hargument : sourceArgument d g = .ok (.ofText source) := by
    simp only [sourceArgument, harguments, existing, hsource, if_true]
    rfl
  obtain ⟨s₀, hs₀, rfl⟩ := h.settings
  refine ⟨.ofText source, hread, fun input fuel => ?_⟩
  simp only [interpret, withCommandLine, parse_of_spelled h.spelled, h.help, h.checkFlags,
    hargument, hs₀]
  rfl

theorem Calls.interpret_of_error (h : Calls words d g contents s) {e : Decoder.Error}
    (hdecode : decode s.splitCrlf contents = .error e) :
    ∃ stderr, ∀ input fuel, interpret words d input fuel =
      some { exitCode := decodeExitCode e, stderr, directory := d } := by
  obtain ⟨path, hread, hinterpret⟩ := h.interpret_eq
  obtain ⟨stderr, hsource⟩ := interpretSource_of_error (threshold g s) hread hdecode
  exact ⟨stderr, fun input fuel => (hinterpret input fuel).trans (hsource input fuel)⟩

theorem Calls.interpret_of_ok (h : Calls words d g contents s) {p : Program}
    (hdecode : decode s.splitCrlf contents = .ok p) :
    ∃ stderr : Run → String, ∀ input fuel, interpret words d input fuel =
      (runProgram s input fuel p).map fun r =>
        { exitCode := (verdict r.ending).1
          stdout := r.state.output
          stderr := stderr r
          directory := d } := by
  obtain ⟨path, hread, hinterpret⟩ := h.interpret_eq
  obtain ⟨stderr, hsource⟩ := interpretSource_of_ok (threshold g s) hread hdecode
  exact ⟨stderr, fun input fuel => (hinterpret input fuel).trans (hsource input fuel)⟩

/-- Options that are only about what is shown leave the rest of the settings alone. -/
theorem Calls.of_decisive (h : Calls words d g contents s) {words' : List String}
    (hspelled : Spelled interpreter words' g') (harguments : g'.arguments = g.arguments)
    (hdecisive : g'.decisive = g.decisive) :
    ∃ s', Calls words' d g' contents s' ∧ s'.splitCrlf = s.splitCrlf ∧ s'.trace = s.trace ∧
      s'.heapDefault = s.heapDefault := by
  have hhas (f : Flag) (hf : f ≠ .verbose ∧ f ≠ .dump) : g'.has f = g.has f := by
    rw [g'.has_eq hf, g.has_eq hf, hdecisive]
  have hvalue (f : Flag) (hf : f ≠ .verbose ∧ f ≠ .dump) : g'.value? f = g.value? f := by
    rw [g'.value?_eq hf, g.value?_eq hf, hdecisive]
  have hconfigured : configured d g' = configured d g := by
    rw [configured, configured, hvalue .config (by decide)]
  obtain ⟨s₀, hs₀, rfl⟩ := h.settings
  refine ⟨s₀.update (flagPatch g'), ⟨hspelled, ?_, ?_, ?_, ?_, ?_⟩, ?_, ?_, ?_⟩
  · rw [hhas .help (by decide), h.help]
  · rw [harguments]
    exact h.source
  · rw [hvalue .heapDefault (by decide)]
    exact h.heapDefault
  · rw [hvalue .config (by decide)]
    exact h.config
  · exact ⟨s₀, hconfigured.trans hs₀, rfl⟩
  · simp only [Settings.update, flagPatch, hhas .splitCrlf (by decide)]
  · simp only [Settings.update, flagPatch, hhas .trace (by decide)]
  · simp only [Settings.update, flagPatch, hvalue .heapDefault (by decide)]

end CommandLines

/-! ## Classes of runs -/

/-- What a report says of a source that was decoded to `decoded`, and whose program has the run
`run?` if it ends. The exit code is 1 if the source is malformed, 2 if the program did something
wrong, 0 if it halted or ran off its end, 100 if a number was too long, 3 if the user interrupted
it, and so in no other case. The output is the one of the run, and there is none without a run. -/
structure Classified {here : List String} (decoded : Except Decoder.Error Program)
    (run? : Program → Option Run) (r : Report here) : Prop where
  malformed : r.exitCode = 1 ↔
    ∃ cause offset index, decoded = .error (.malformed cause offset index)
  fault : r.exitCode = 2 ↔ ∃ p run f place, decoded = .ok p ∧ run? p = some run ∧
    run.ending = .stopped (.fault f place)
  finished : r.exitCode = 0 ↔ ∃ p run, decoded = .ok p ∧ run? p = some run ∧
    (run.ending = .halted ∨ run.ending = .ranOff)
  tooLong : r.exitCode = 100 ↔ (∃ e, decoded = .error (.tooLong e)) ∨
    ∃ p run e, decoded = .ok p ∧ run? p = some run ∧ run.ending = .stopped (.tooLong e)
  interrupted : r.exitCode = 3 ↔ ∃ p run, decoded = .ok p ∧ run? p = some run ∧
    run.ending = .stopped .interrupted
  exhaustive : r.exitCode ∈ [0, 1, 2, 3, 100]
  handled : r.failure? = none
  silent : ∀ e, decoded = .error e → r.stdout = ""
  output : ∀ p run, decoded = .ok p → run? p = some run → r.stdout = run.state.output

theorem classified_of_error {here : List String} {run? : Program → Option Run} (e : Decoder.Error)
    (stderr : String) (d : Directory here) :
    Classified (.error e) run? { exitCode := decodeExitCode e, stderr, directory := d } := by
  cases e <;> constructor <;> simp [decodeExitCode]

theorem classified_of_run {here : List String} {run? : Program → Option Run} {p : Program}
    {run : Run} (hrun : run? p = some run)
    (hending : run.ending.Safe p ∨ run.ending = .stopped .interrupted) (stderr : String)
    (d : Directory here) :
    Classified (.ok p) run?
      { exitCode := (verdict run.ending).1
        stdout := run.state.output
        stderr
        directory := d } := by
  have houtput (p' : Program) (run' : Run) (hp : (.ok p : Except Decoder.Error Program) = .ok p')
      (hrun' : run? p' = some run') : run.state.output = run'.state.output := by
    cases hp
    cases hrun.symm.trans hrun'
    rfl
  obtain ⟨ending, state, log⟩ := run
  rcases hending with hsafe | rfl
  · cases hsafe <;> refine ⟨?_, ?_, ?_, ?_, ?_, ?_, rfl, nofun, houtput⟩ <;> simp [verdict, hrun]
  · refine ⟨?_, ?_, ?_, ?_, ?_, ?_, rfl, nofun, houtput⟩ <;> simp [verdict, hrun]

/-- The exit code and the output. -/
def Report.outcome {here : List String} (r : Report here) : Nat × String := (r.exitCode, r.stdout)

/-- The exit code and the output for a source that was decoded to `decoded`, and whose program has
the run `run?` if it ends. -/
def outcome? (decoded : Except Decoder.Error Program) (run? : Program → Option Run) :
    Option (Nat × String) :=
  match decoded with
  | .error e => some (decodeExitCode e, "")
  | .ok p => (run? p).map fun r => ((verdict r.ending).1, r.state.output)

namespace Calls

variable {here words : List String} {d : Directory here} {g : Given} {contents : List UInt8}
  {s : Settings} {input : Input} {fuel : Nat}

theorem outcome_interpret (h : Calls words d g contents s) (input : Input) (fuel : Nat) :
    (interpret words d input fuel).map Report.outcome =
      outcome? (decode s.splitCrlf contents) (runProgram s input fuel) := by
  cases hdecode : decode s.splitCrlf contents with
  | error e =>
    obtain ⟨stderr, hinterpret⟩ := h.interpret_of_error hdecode
    rw [hinterpret]
    rfl
  | ok p =>
    obtain ⟨stderr, hinterpret⟩ := h.interpret_of_ok hdecode
    rw [hinterpret, Option.map_map]
    rfl

theorem classified (h : Calls words d g contents s) (hinput : ∀ e, input.ending ≠ .undecodable e)
    {r : Report here} (hr : interpret words d input fuel = some r) :
    Classified (decode s.splitCrlf contents) (runProgram s input fuel) r := by
  cases hdecode : decode s.splitCrlf contents with
  | error e =>
    obtain ⟨stderr, hinterpret⟩ := h.interpret_of_error hdecode
    rw [hinterpret] at hr
    cases hr
    exact classified_of_error e stderr d
  | ok p =>
    obtain ⟨stderr, hinterpret⟩ := h.interpret_of_ok hdecode
    rw [hinterpret] at hr
    obtain ⟨run, hrun, rfl⟩ := Option.map_eq_some_iff.1 hr
    have hending := Machine.safe_or_interrupted (proper_of_decode hdecode) hinput hrun
    exact classified_of_run hrun hending (stderr run) d

end Calls

/-- Exit code and output of the tool classify the run. Let a command line run a source under some
settings, with a text as input that may be interrupted at its end.

* The tool ends exactly if the source is not decoded or the run of its program ends.
* Its report then classifies the source and the run.
* If the source is malformed, the report is the same for every input, so that none is read.
* A command line that differs in the options that are only about what is shown leads to the same
  exit code and the same output. -/
theorem interpret_classifies {here words : List String} {d : Directory here} {g : Given}
    {contents : List UInt8} {s : Settings} (h : Calls words d g contents s) (input : Input)
    (hinput : ∀ e, input.ending ≠ .undecodable e) :
    (∀ fuel, (interpret words d input fuel).isSome ↔
      ∀ p, decode s.splitCrlf contents = .ok p → (runProgram s input fuel p).isSome) ∧
    (∀ fuel r, interpret words d input fuel = some r →
      Classified (decode s.splitCrlf contents) (runProgram s input fuel) r) ∧
    (∀ cause offset index, decode s.splitCrlf contents = .error (.malformed cause offset index) →
      ∃ r, ∀ other fuel, interpret words d other fuel = some r) ∧
    ∀ words' g', Spelled interpreter words' g' → g'.arguments = g.arguments →
      g'.decisive = g.decisive → ∀ fuel,
        (interpret words' d input fuel).map Report.outcome =
          (interpret words d input fuel).map Report.outcome := by
  refine ⟨fun fuel => ?_, fun fuel r hr => h.classified hinput hr,
    fun cause offset index hdecode => ?_,
    fun words' g' hspelled harguments hdecisive fuel => ?_⟩
  · rw [← Option.isSome_map, h.outcome_interpret]
    cases decode s.splitCrlf contents <;> simp [outcome?]
  · obtain ⟨stderr, hinterpret⟩ := h.interpret_of_error hdecode
    exact ⟨_, hinterpret⟩
  · obtain ⟨s', h', hsplit, htrace, hdefault⟩ := h.of_decisive hspelled harguments hdecisive
    rw [h'.outcome_interpret, h.outcome_interpret, hsplit, runProgram_congr htrace hdefault]

/-- A program writes a number and then adds without operands. It is run once with more shown and
once without. -/
theorem interpret_classifies_underflow :
    ∃ d : Directory,
      (interpret ["--heap-default=0", "-v", "p.ws", "--dump"] d {} 5).map Report.outcome =
        some (2, "7") ∧
      (interpret ["p.ws", "--heap-default", "0"] d {} 5).map Report.outcome = some (2, "7") := by
  let contents : List UInt8 := [32, 32, 32, 9, 9, 9, 10, 9, 10, 32, 9, 9, 32, 32, 32]
  let d : Directory := ⟨⟨[(["p.ws"], .file contents)]⟩⟩
  let p : Program := ⟨#[⟨.push, some 7⟩, ⟨.writeNumber, none⟩, ⟨.add, none⟩], {}⟩
  let s : Settings := { verbose := true, dump := true, heapDefault := some 0 }
  have hdefault : Worded interpreter "--heap-default=0".toList { flags := [(.heapDefault, "0")] } :=
    .value (f := .heapDefault) (by decide) rfl ['0']
  have hverbose : Worded interpreter "-v".toList { flags := [(.verbose, "")] } :=
    .joined (by decide) (.flag (f := .verbose) (by decide) rfl rfl .done)
  have hdump : Worded interpreter "--dump".toList { flags := [(.dump, "")] } :=
    .plain (f := .dump) (by decide) rfl
  have hsource : "p.ws".toList.head? ≠ some '-' := by decide
  have hshown : Spelled interpreter ["--heap-default=0", "-v", "p.ws", "--dump"]
      ⟨[(.heapDefault, "0"), (.verbose, ""), (.dump, "")], ["p.ws"]⟩ :=
    .options hdefault rfl (.options hverbose rfl (.argument (.inr hsource)
      (.options hdump rfl .done)))
  have hplain : Spelled interpreter ["p.ws", "--heap-default", "0"]
      ⟨[(.heapDefault, "0")], ["p.ws"]⟩ :=
    .argument (.inr hsource) (.valued (.pending (f := .heapDefault) (by decide) rfl) rfl .done)
  have hcalls : Calls ["--heap-default=0", "-v", "p.ws", "--dump"] d
      ⟨[(.heapDefault, "0"), (.verbose, ""), (.dump, "")], ["p.ws"]⟩ contents s :=
    { spelled := hshown
      help := rfl
      source := ⟨"p.ws", rfl, by decide +kernel, rfl⟩
      heapDefault := fun v hv => by cases hv; decide +kernel
      config := nofun
      settings := ⟨{}, rfl, by decide +kernel⟩ }
  have hdecode : decode false contents = .ok p := by decide +kernel
  obtain ⟨run, hrun, houtcome⟩ : ∃ run,
      runProgram s {} 5 p = some run ∧ run.outcome =
        (.stopped (.fault .popEmpty (some (2, ⟨.add, none⟩))), { pc := 3, output := "7" }) := by
    rw [← Option.map_eq_some_iff, runProgram, Machine.outcome_run]
    decide +kernel
  have hending := congrArg Prod.fst houtcome
  have hstate := congrArg Prod.snd houtcome
  obtain ⟨hends, hclass, -, hsame⟩ := interpret_classifies hcalls {} nofun
  obtain ⟨r, hr⟩ := Option.isSome_iff_exists.1 ((hends 5).2 fun p' hp => by
    cases hdecode.symm.trans hp
    exact Option.isSome_iff_exists.2 ⟨run, hrun⟩)
  have hreport : r.outcome = (2, "7") := by
    have hcode := (hclass 5 r hr).fault.2 ⟨p, run, _, _, hdecode, hrun, hending⟩
    have hstdout := (hclass 5 r hr).output p run hdecode hrun
    rw [show run.state = _ from hstate] at hstdout
    exact Prod.ext hcode hstdout
  have hfirst := congrArg (Option.map Report.outcome) hr
  rw [Option.map_some, hreport] at hfirst
  exact ⟨d, hfirst, (hsame _ _ hplain rfl rfl 5).trans hfirst⟩

end Command

end Whitespace
