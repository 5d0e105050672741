import Whitespace.Command.Assemble
import Whitespace.Proofs.Command.Directory
import Whitespace.Proofs.Command.Options

/-!
# What assembling leaves behind

The tool that assembles writes one file, and only if its input can be read and assembled. Without a
name for the output it takes the name of the input under another suffix, so that the input stays,
unless it has this suffix already.

## Main definitions

* `Assembled` — the source that a file is assembled to.
* `Requests` — a command line that asks to assemble a file.
* `Ends` — the three ways in which assembling a file into another ends.

## Main statements

* `withSuffix?_eq_self_iff` — the paths that stay when they get the suffix.
* `ends_assembleInto` — assembling ends in one of the three ways.
* `assemble_touches_output_only` — what becomes of the files and folders.
-/

namespace Whitespace.Command

/-! ## Writing -/

variable {here : List String} {d d' : Directory here}

theorem grows_of_writeBelow {p : Path} {contents : List UInt8} {e : FileError}
    (h : writeBelow d p contents = (d', .error e)) : d.Grows d' := by
  have hgrows := d.grows_growFolders p.parent
  rw [writeBelow] at h
  split at h
  · next hgrow =>
    rw [hgrow] at hgrows
    cases h
    exact hgrows
  · next hgrow =>
    rw [hgrow] at hgrows
    split at h
    · cases h
      exact hgrows
    · cases h

theorem puts_of_writeBelow {p : Path} {contents : List UInt8}
    (h : writeBelow d p contents = (d', .ok ())) :
    ∃ place, d'.locate p = .ok place ∧ d.Puts d' place contents := by
  have hgrows := d.grows_growFolders p.parent
  rw [writeBelow] at h
  split at h
  · cases h
  · next grown hgrow =>
    rw [hgrow] at hgrows
    split at h
    · cases h
    · next hwrite =>
      cases h
      exact Directory.puts_of_write hgrows hwrite

/-! ## Suffixes -/

theorem getLast?_append_suffix (front : String) :
    (front ++ ".ws").toList.getLast? = some 's' := by
  simp

theorem stem_append_suffix {front : List Char} (hfront : front ≠ []) :
    Path.stem (front ++ ".ws".toList) = front := by
  have htail : ((front ++ ".ws".toList).reverse.takeWhile (· ≠ '.')).reverse = ['w', 's'] := by
    simp
  rw [Path.stem, htail]
  simp [hfront]

/-- The names that stay when the suffix is put to their stem: those that have it behind something
else. -/
theorem ofList_stem_append_eq_iff (name : String) :
    String.ofList (Path.stem name.toList) ++ ".ws" = name ↔
      ∃ front, front ≠ "" ∧ name = front ++ ".ws" := by
  constructor
  · intro h
    refine ⟨_, fun hnil => ?_, h.symm⟩
    rw [hnil] at h
    subst h
    exact absurd hnil (by decide)
  · rintro ⟨front, hfront, rfl⟩
    rw [String.toList_append, stem_append_suffix (by simpa using hfront), String.ofList_toList]

theorem withSuffix?_concat {root : String} {names : List String} {name : String}
    (hname : name ≠ "") :
    Path.withSuffix? ⟨root, names ++ [name]⟩ ".ws" =
      some ⟨root, names ++ [String.ofList (Path.stem name.toList) ++ ".ws"]⟩ := by
  have hlast : Path.name ⟨root, names ++ [name]⟩ = name := by simp [Path.name]
  rw [Path.withSuffix?, hlast, if_neg hname, List.dropLast_concat]

/-- A path with the suffix is a name in the same folder, and not a way back. -/
theorem exists_of_withSuffix?_eq_some {p output : Path} (h : p.withSuffix? ".ws" = some output) :
    ∃ root names name name', p = ⟨root, names ++ [name]⟩ ∧ output = ⟨root, names ++ [name']⟩ ∧
      name' ≠ "." ∧ name' ≠ ".." := by
  obtain ⟨root, all⟩ := p
  obtain rfl | ⟨names, name, rfl⟩ := List.eq_nil_or_concat' all
  · cases h
  · have hends (other : String) (hother : other.toList.getLast? ≠ some 's') :
        String.ofList (Path.stem name.toList) ++ ".ws" ≠ other := by
      rintro rfl
      exact hother (getLast?_append_suffix _)
    have hname : name ≠ "" := by
      rintro rfl
      simp [Path.withSuffix?, Path.name] at h
    rw [withSuffix?_concat hname] at h
    cases h
    exact ⟨root, names, name, _, rfl, rfl, hends _ (by decide), hends _ (by decide)⟩

/-- The suffix leads back to the same path exactly if it is there already. -/
theorem withSuffix?_eq_self_iff (p : Path) :
    p.withSuffix? ".ws" = some p ↔ ∃ front, front ≠ "" ∧ p.name = front ++ ".ws" := by
  have hnot (front : String) : "" ≠ front ++ ".ws" := fun h => by
    have hlast := getLast?_append_suffix front
    rw [← h] at hlast
    cases hlast
  obtain ⟨root, all⟩ := p
  obtain rfl | ⟨names, name, rfl⟩ := List.eq_nil_or_concat' all
  · simp [Path.withSuffix?, Path.name, hnot]
  · have hlast : Path.name ⟨root, names ++ [name]⟩ = name := by simp [Path.name]
    by_cases hname : name = ""
    · subst hname
      simp [Path.withSuffix?, hlast, hnot]
    · rw [withSuffix?_concat hname, hlast, ← ofList_stem_append_eq_iff]
      simp

/-! ## Assembling -/

/-- The file can be read and is assembled to the source. -/
def Assembled (d : Directory here) (input : Path) (tagged : Bool) (source : String) : Prop :=
  ∃ text, readText d input = .ok text ∧ Assembly.assemble tagged text = .ok source

/-- How assembling a file into another ends: the file cannot be read or assembled, and nothing is
changed; or the source cannot be written, and folders may have been made for it; or it is
written. -/
inductive Ends (d : Directory here) (tagged : Bool) (input output : Path) (r : Report here) :
    Prop where
  | refused (hinput : ∀ source, ¬ Assembled d input tagged source) (hcode : r.exitCode ≠ 0)
      (hdirectory : r.directory = d)
  | unwritten {source : String} (hinput : Assembled d input tagged source) (hcode : r.exitCode ≠ 0)
      (hdirectory : d.Grows r.directory)
  | written {source : String} {place : List String} (hinput : Assembled d input tagged source)
      (hcode : r.exitCode = 0) (hplace : r.directory.locate output = .ok place)
      (hdirectory : d.Puts r.directory place source.toUTF8.toList)

theorem ends_assembleInto (d : Directory here) (level : Level) (tagged : Bool) (log : Log)
    (input output : Path) :
    Ends d tagged input output (assembleInto d level tagged log input output) := by
  cases hread : readText d input with
  | error f =>
    simp only [assembleInto, hread]
    refine .refused ?_ (by simp [Report.failed]) rfl
    rintro source ⟨text, htext, -⟩
    cases hread.symm.trans htext
  | ok text =>
    cases hassemble : Assembly.assembleLogged tagged text with
    | error e more =>
      simp only [assembleInto, hread, hassemble]
      refine .refused ?_ (by simp [Report.failed]) rfl
      rintro source ⟨text', htext, hsource⟩
      cases hread.symm.trans htext
      rw [Assembly.assemble, hassemble] at hsource
      cases hsource
    | ok source more =>
      have hinput : Assembled d input tagged source :=
        ⟨text, hread, by rw [Assembly.assemble, hassemble]⟩
      simp only [assembleInto, hread, hassemble]
      split
      · next hwrite =>
        exact .unwritten hinput (by simp [Report.failed]) (grows_of_writeBelow hwrite)
      · next hwrite =>
        obtain ⟨place, hplace, hputs⟩ := puts_of_writeBelow hwrite
        exact .written hinput rfl hplace hputs

/-- The command line asks to assemble the file `input`, into the file `output?` if one is named. -/
structure Requests (words : List String) (g : Given) (input : Path) (output? : Option Path) :
    Prop where
  parsed : assembler.parse words = .ok g
  help : g.has .help = false
  arguments : fileArguments g = .ok (input, output?)

namespace Requests

variable {words : List String} {g : Given} {input : Path} {output? : Option Path}

/-- The options of the tool are always right. -/
theorem checkFlags (h : Requests words g input output?) (d : Directory here) :
    checkFlags d g = .ok () := by
  refine checkFlags_eq_ok_iff.2 fun o ho => ?_
  have hflag := mem_flags_of_parse h.parsed o ho
  simp only [assembler, List.mem_cons, List.not_mem_nil, or_false] at hflag
  rcases hflag with hflag | hflag | hflag <;> rw [hflag] <;> rfl

/-- A file is assembled into the output that is named, or into the one that goes with it. -/
theorem ends (h : Requests words g input output?) (d : Directory here) {output : Path}
    (houtput : (output? <|> input.withSuffix? ".ws") = some output) :
    Ends d (g.has .tagged) input output (assemble words d) := by
  simp only [assemble, withCommandLine, h.parsed, h.help, h.checkFlags, h.arguments, houtput]
  exact ends_assembleInto ..

/-- Without a name there is no output. -/
theorem failed (h : Requests words g input output?) (d : Directory here)
    (houtput : (output? <|> input.withSuffix? ".ws") = none) :
    (assemble words d).exitCode ≠ 0 ∧ (assemble words d).directory = d := by
  simp only [assemble, withCommandLine, h.parsed, h.help, h.checkFlags, h.arguments, houtput]
  exact ⟨by simp [Report.failed], rfl⟩

end Requests

/-- Assembling touches only its output. Let a command line ask to assemble a file, in any directory.

* If the file cannot be read or assembled, the tool fails, and no file or folder is changed.
* If the tool does not fail, the output holds exactly the source that the file is assembled to. The
  output is the file that is named, or else the one with the suffix `.ws` in place of that of the
  input. All other files and folders stay, and only folders are added to them.
* If no output is named, the input is read as before, however the tool ends, unless its name is
  something and the suffix `.ws` behind it. -/
theorem assemble_touches_output_only {words : List String} {g : Given} {input : Path}
    {output? : Option Path} (h : Requests words g input output?) (d : Directory here) :
    ((∀ source, ¬ Assembled d input (g.has .tagged) source) →
      (assemble words d).exitCode ≠ 0 ∧ (assemble words d).directory = d) ∧
    ((assemble words d).exitCode = 0 → ∃ source output place,
      Assembled d input (g.has .tagged) source ∧
      (output? <|> input.withSuffix? ".ws") = some output ∧
      (assemble words d).directory.read output = .ok source.toUTF8.toList ∧
      (assemble words d).directory.locate output = .ok place ∧
      d.Puts (assemble words d).directory place source.toUTF8.toList) ∧
    (output? = none → (¬ ∃ front, front ≠ "" ∧ input.name = front ++ ".ws") →
      ∀ contents, d.read input = .ok contents →
        (assemble words d).directory.read input = .ok contents) := by
  cases houtput : (output? <|> input.withSuffix? ".ws") with
  | none =>
    obtain ⟨hcode, hdirectory⟩ := h.failed d houtput
    refine ⟨fun _ => ⟨hcode, hdirectory⟩, fun hzero => absurd hzero hcode, ?_⟩
    rw [hdirectory]
    exact fun _ _ contents hread => hread
  | some output =>
    cases h.ends d houtput with
    | refused hinput hcode hdirectory =>
      refine ⟨fun _ => ⟨hcode, hdirectory⟩, fun hzero => absurd hzero hcode, ?_⟩
      rw [hdirectory]
      exact fun _ _ contents hread => hread
    | unwritten hinput hcode hdirectory =>
      exact ⟨fun hno => absurd hinput (hno _), fun hzero => absurd hzero hcode,
        fun _ _ contents hread => hdirectory.read hread⟩
    | @written source place hinput hcode hplace hputs =>
      refine ⟨fun hno => absurd hinput (hno _), fun _ => ⟨source, output, place, hinput, rfl,
        Directory.read_eq_ok_iff.2 ⟨place, hplace, hputs.written⟩, hplace, hputs⟩,
        fun hnone hsuffix contents hread => ?_⟩
      subst hnone
      obtain ⟨root, names, name, name', rfl, rfl, hdot, hback⟩ :=
        exists_of_withSuffix?_eq_some houtput
      refine hputs.read_of_ne (fun q hq => ?_) hread
      have hne : name ≠ name' := by
        rintro rfl
        exact hsuffix ((withSuffix?_eq_self_iff _).1 houtput)
      exact Directory.locate_ne hne hdot hback (Directory.locate_of_folders hputs.folder_kept hq)
        hplace

/-- A file in a folder is assembled next to itself. -/
theorem assemble_touches_output_only_in_folder :
    let contents : List UInt8 := "push 1".toUTF8.toList
    let d : Directory := ⟨⟨[(["lib"], .folder), (["lib", "p.asm"], .file contents)]⟩⟩
    ∃ source, Assembled d (.ofText "lib/p.asm") true source ∧
      (assemble ["--annotate", "lib/p.asm"] d).directory.read (.ofText "lib/p.ws") =
        .ok source.toUTF8.toList ∧
      (assemble ["--annotate", "lib/p.asm"] d).directory.read (.ofText "lib/p.asm") =
        .ok contents := by
  intro contents d
  have hrequests : Requests ["--annotate", "lib/p.asm"] ⟨[(.tagged, "")], ["lib/p.asm"]⟩
      (.ofText "lib/p.asm") none :=
    { parsed := rfl
      help := by decide
      arguments := by rfl }
  have hsuffix : ¬ ∃ front, front ≠ "" ∧ Path.name (.ofText "lib/p.asm") = front ++ ".ws" := by
    rintro ⟨front, -, hname⟩
    have hlast : (Path.name (.ofText "lib/p.asm")).toList.getLast? = some 'm' := by decide +kernel
    rw [hname, getLast?_append_suffix] at hlast
    exact absurd hlast (by decide)
  obtain ⟨-, hwritten, hkept⟩ := assemble_touches_output_only hrequests d
  obtain ⟨source, output, -, hsource, houtput, hread, -⟩ := hwritten (by decide +kernel)
  have hname : output = .ofText "lib/p.ws" := by
    have hderived : Path.withSuffix? (.ofText "lib/p.asm") ".ws" = some (.ofText "lib/p.ws") := by
      decide +kernel
    cases houtput.symm.trans hderived
    rfl
  subst hname
  exact ⟨source, hsource, hread, hkept rfl hsuffix contents (by decide +kernel)⟩

/-- A file that has the suffix already is lost: without a name for the output it is the output
itself. -/
theorem assemble_overwrites_input :
    let d : Directory := ⟨⟨[(["a.ws"], .file "push 1".toUTF8.toList)]⟩⟩
    (assemble ["a.ws"] d).exitCode = 0 ∧
      d.read (.ofText "a.ws") = .ok "push 1".toUTF8.toList ∧
      (assemble ["a.ws"] d).directory.read (.ofText "a.ws") = .ok "   \t\n".toUTF8.toList := by
  decide +kernel

end Whitespace.Command
