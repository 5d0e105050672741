import Mathlib.Data.List.Basic
import Whitespace.Command.Directory

/-!
# Changes of a directory

A path leads somewhere through folders only. So it still leads there when folders are added and when
a file is put where no folder is, and these are the only ways in which a directory changes.

## Main definitions

* `Directory.beyond` — where a name leads from a folder.
* `Directory.Grows` — a directory that differs from another in additional folders only.
* `Directory.Puts` — a directory that differs from another in one file and in additional folders.

## Main statements

* `Directory.follow_of_folders` — a path leads to the same place while the folders stay.
* `Directory.grows_growFolders` — making folders adds folders only.
* `Directory.puts_of_write` — writing a file changes one place.
* `Directory.locate_ne` — two names in one folder lead to different places.
-/

namespace Whitespace.Command.Directory

variable {here : List String} {d d' d'' : Directory here} {p : Path} {place place' : List String}

/-! ## Places -/

theorem entry?_insert (d : Directory here) (hplace : place ≠ []) (e : Entry) (q : List String) :
    Directory.entry? (⟨d.entries.insert place e⟩ : Directory here) q =
      if q = place then some e else d.entry? q := by
  by_cases hq : q = []
  · subst hq
    simp [Directory.entry?, Ne.symm hplace]
  · simp [Directory.entry?, hq]

/-- Where a name leads from a folder. -/
def beyond (place : List String) (name : String) : List String :=
  if name = "." then place
  else if name = ".." then place.dropLast
  else place ++ [name]

/-- Names lead on through folders only. -/
theorem follow_cons_eq_ok_iff {start : List String} {name : String} {rest : List String} :
    d.follow start (name :: rest) = .ok place ↔
      d.entry? start = some .folder ∧ d.follow (beyond start name) rest = .ok place := by
  rw [follow, beyond]
  cases hentry : d.entry? start with
  | none => simp
  | some e =>
    cases e with
    | file contents => simp
    | folder =>
      by_cases hdot : name = "."
      · simp [hdot]
      · by_cases hback : name = ".." <;> simp [hdot, hback]

/-- A path leads to the same place as long as the folders stay. -/
theorem follow_of_folders (h : ∀ q, d.entry? q = some .folder → d'.entry? q = some .folder)
    {names : List String} {start : List String} (hfollow : d.follow start names = .ok place) :
    d'.follow start names = .ok place := by
  induction names generalizing start with
  | nil => exact hfollow
  | cons name rest ih =>
    obtain ⟨hfolder, hrest⟩ := follow_cons_eq_ok_iff.1 hfollow
    exact follow_cons_eq_ok_iff.2 ⟨h start hfolder, ih hrest⟩

/-- The last name leads on from the folder that the others lead to. -/
theorem follow_concat {names : List String} {name : String} {start : List String}
    (h : d.follow start (names ++ [name]) = .ok place) :
    ∃ q, d.follow start names = .ok q ∧ place = beyond q name := by
  induction names generalizing start with
  | nil =>
    obtain ⟨-, hplace⟩ := follow_cons_eq_ok_iff.1 h
    cases hplace
    exact ⟨start, rfl, rfl⟩
  | cons first rest ih =>
    obtain ⟨hfolder, hrest⟩ := follow_cons_eq_ok_iff.1 h
    obtain ⟨q, hq, hplace⟩ := ih hrest
    exact ⟨q, follow_cons_eq_ok_iff.2 ⟨hfolder, hq⟩, hplace⟩

theorem locate_eq_ok_iff :
    d.locate p = .ok place ↔ d.follow (p.start here) p.names = .ok place := by
  rw [locate]
  cases d.follow (p.start here) p.names <;> simp [Except.mapError]

theorem locate_of_folders (h : ∀ q, d.entry? q = some .folder → d'.entry? q = some .folder)
    (hlocate : d.locate p = .ok place) : d'.locate p = .ok place :=
  locate_eq_ok_iff.2 (follow_of_folders h (locate_eq_ok_iff.1 hlocate))

/-- A name that is neither one dot nor two leads to another place than every other name in the same
folder. -/
theorem beyond_ne {name name' : String} (hne : name ≠ name') (hdot : name' ≠ ".")
    (hback : name' ≠ "..") (place : List String) : beyond place name ≠ beyond place name' := by
  have hbeyond : beyond place name' = place ++ [name'] := by rw [beyond, if_neg hdot, if_neg hback]
  have hlength (q : List String) (hq : q.length ≤ place.length) : q ≠ place ++ [name'] := by
    rintro rfl
    simp only [List.length_append, List.length_singleton] at hq
    omega
  rw [hbeyond, beyond]
  split
  · exact hlength place (Nat.le_refl _)
  · split
    · exact hlength _ (by simp)
    · simpa using hne

theorem locate_ne {root : String} {names : List String} {name name' : String} (hne : name ≠ name')
    (hdot : name' ≠ ".") (hback : name' ≠ "..") (h : d.locate ⟨root, names ++ [name]⟩ = .ok place)
    (h' : d.locate ⟨root, names ++ [name']⟩ = .ok place') : place ≠ place' := by
  obtain ⟨q, hq, rfl⟩ := follow_concat (locate_eq_ok_iff.1 h)
  obtain ⟨q', hq', rfl⟩ := follow_concat (locate_eq_ok_iff.1 h')
  cases hq.symm.trans hq'
  exact beyond_ne hne hdot hback q

/-! ## Operations -/

theorem read_eq_ok_iff {contents : List UInt8} :
    d.read p = .ok contents ↔
      ∃ place, d.locate p = .ok place ∧ d.entry? place = some (.file contents) := by
  rw [read]
  cases d.locate p with
  | error e => simp [bind, Except.bind]
  | ok place =>
    cases hentry : d.entry? place with
    | none => simp [bind, Except.bind, hentry, throw, throwThe, MonadExceptOf.throw]
    | some e =>
      cases e with
      | folder => simp [bind, Except.bind, hentry, throw, throwThe, MonadExceptOf.throw]
      | file c => simp [bind, Except.bind, hentry, pure, Except.pure]

theorem write_eq_ok_iff {contents : List UInt8} :
    d.write p contents = .ok d' ↔ ∃ place, d.locate p = .ok place ∧
      d.entry? place ≠ some .folder ∧ d' = ⟨d.entries.insert place (.file contents)⟩ := by
  rw [write]
  cases d.locate p with
  | error e => simp [bind, Except.bind]
  | ok place =>
    cases hentry : d.entry? place with
    | none => simp [bind, Except.bind, hentry, pure, Except.pure, eq_comm]
    | some e =>
      cases e with
      | folder => simp [bind, Except.bind, hentry, throw, throwThe, MonadExceptOf.throw]
      | file c => simp [bind, Except.bind, hentry, pure, Except.pure, eq_comm]

theorem makeFolder_eq_ok_iff :
    d.makeFolder p = .ok d' ↔ ∃ place, d.locate p = .ok place ∧ d.entry? place = none ∧
      d' = ⟨d.entries.insert place .folder⟩ := by
  rw [makeFolder]
  cases d.locate p with
  | error e => simp [bind, Except.bind]
  | ok place =>
    cases hentry : d.entry? place with
    | none => simp [bind, Except.bind, hentry, pure, Except.pure, eq_comm]
    | some e => simp [bind, Except.bind, hentry, throw, throwThe, MonadExceptOf.throw]

/-- Writing puts contents to one place, where no folder is. -/
theorem entry?_of_write {contents : List UInt8} (h : d.write p contents = .ok d') :
    ∃ place, d.locate p = .ok place ∧ d.entry? place ≠ some .folder ∧
      ∀ q, d'.entry? q = if q = place then some (.file contents) else d.entry? q := by
  obtain ⟨place, hplace, hfolder, rfl⟩ := write_eq_ok_iff.1 h
  have hne : place ≠ [] := by
    rintro rfl
    exact hfolder rfl
  exact ⟨place, hplace, hfolder, entry?_insert d hne (.file contents)⟩

/-! ## Folders -/

/-- The directories differ in additional folders only. -/
structure Grows (d d' : Directory here) : Prop where
  kept : ∀ {q e}, d.entry? q = some e → d'.entry? q = some e
  added : ∀ {q e}, d.entry? q = none → d'.entry? q = some e → e = .folder

namespace Grows

theorem refl (d : Directory here) : d.Grows d where
  kept h := h
  added hnone h := by cases hnone.symm.trans h

theorem trans (h : d.Grows d') (h' : d'.Grows d'') : d.Grows d'' where
  kept hq := h'.kept (h.kept hq)
  added {q e} hnone hq := by
    cases hq' : d'.entry? q with
    | none => exact h'.added hq' hq
    | some e' =>
      cases (h'.kept hq').symm.trans hq
      exact h.added hnone hq'

end Grows

theorem grows_of_makeFolder (h : d.makeFolder p = .ok d') : d.Grows d' := by
  obtain ⟨place, -, hnone, rfl⟩ := makeFolder_eq_ok_iff.1 h
  have hne : place ≠ [] := by
    rintro rfl
    cases hnone
  constructor
  · intro q e hq
    rw [entry?_insert d hne, if_neg, hq]
    rintro rfl
    cases hnone.symm.trans hq
  · intro q e hq hq'
    rw [entry?_insert d hne] at hq'
    split at hq'
    · cases hq'
      rfl
    · cases hq.symm.trans hq'

/-- Making folders adds folders only, also when it fails halfway. -/
theorem grows_growFolders (d : Directory here) (p : Path) : d.Grows (d.growFolders p).1 := by
  fun_induction growFolders d p with
  | case1 p d' hmake => exact grows_of_makeFolder hmake
  | case2 p e hmake hmissing d' e' hparent ih => rwa [hparent] at ih
  | case3 p e hmake hmissing d' hparent d'' hagain ih =>
    rw [hparent] at ih
    exact ih.trans (grows_of_makeFolder hagain)
  | case4 p e hmake hmissing d' hparent | case5 p e hmake hmissing d' hparent =>
    rename_i ih
    rwa [hparent] at ih
  | case6 | case7 => exact .refl d

/-- What was there is read as before. -/
theorem Grows.read (h : d.Grows d') {contents : List UInt8} (hread : d.read p = .ok contents) :
    d'.read p = .ok contents := by
  obtain ⟨q, hq, hentry⟩ := read_eq_ok_iff.1 hread
  exact read_eq_ok_iff.2 ⟨q, locate_of_folders (fun _ => h.kept) hq, h.kept hentry⟩

/-! ## A file and the folders it lies in -/

/-- The directories differ in the file at `place`, where no folder was and which now has the given
contents, and in additional folders. -/
structure Puts (d d' : Directory here) (place : List String) (contents : List UInt8) : Prop where
  free : d.entry? place ≠ some .folder
  written : d'.entry? place = some (.file contents)
  kept : ∀ {q e}, q ≠ place → d.entry? q = some e → d'.entry? q = some e
  added : ∀ {q e}, q ≠ place → d.entry? q = none → d'.entry? q = some e → e = .folder

namespace Puts

variable {contents : List UInt8}

theorem folder_kept (h : d.Puts d' place contents) (q : List String)
    (hq : d.entry? q = some .folder) : d'.entry? q = some .folder := by
  refine h.kept ?_ hq
  rintro rfl
  exact h.free hq

/-- A file at another place is read as before. -/
theorem read_of_ne (h : d.Puts d' place contents) {c : List UInt8}
    (hne : ∀ q, d.locate p = .ok q → q ≠ place) (hread : d.read p = .ok c) :
    d'.read p = .ok c := by
  obtain ⟨q, hq, hentry⟩ := read_eq_ok_iff.1 hread
  exact read_eq_ok_iff.2 ⟨q, locate_of_folders h.folder_kept hq, h.kept (hne q hq) hentry⟩

end Puts

/-- Writing a file where folders were made for it. -/
theorem puts_of_write (hgrows : d.Grows d') {contents : List UInt8}
    (h : d'.write p contents = .ok d'') :
    ∃ place, d''.locate p = .ok place ∧ d.Puts d'' place contents := by
  obtain ⟨place, hplace, hfree, hentry⟩ := entry?_of_write h
  refine ⟨place, locate_of_folders (fun q hq => ?_) hplace, ?_, ?_, ?_, ?_⟩
  · rw [hentry, if_neg, hq]
    rintro rfl
    exact hfree hq
  · exact fun hfolder => hfree (hgrows.kept hfolder)
  · rw [hentry, if_pos rfl]
  · intro q e hne hq
    rw [hentry, if_neg hne, hgrows.kept hq]
  · intro q e hne hq hq'
    rw [hentry, if_neg hne] at hq'
    exact hgrows.added hq hq'

end Whitespace.Command.Directory
