import Mathlib.Data.List.Induction
import Whitespace.Proofs.Config.Keys
import Whitespace.Proofs.Decimal
import Whitespace.Settings.Load

/-!
# Sections of settings files

The section of a settings file that is about runs is taken over as a whole or not at all. It is
refused if a key is no setting, if a value has not exactly the kind that its setting takes, or if it
holds a number too long to be logged. What is taken over is, for each setting, the value under its
name.

## Main definitions

* `Settings.Field` — the settings, with their names in files and the values they take.
* `Settings.value?`, `Settings.Patch.value?` — settings and changes of them, field by field.
* `Settings.Acceptable` — the sections that are taken over.
* `Settings.HasSection` — the section of a file.

## Main statements

* `Settings.value?_update` — an update, field by field.
* `Settings.load_eq_ok_iff` — which files are taken over, and what they change.
* `Settings.value?_sectionPatch` — a change gives each setting the value under its name.
-/

namespace Whitespace.Settings

open Config

/-! ## Fields -/

/-- The settings one by one. -/
inductive Field where
  | verbose
  | trace
  | dump
  | splitCrlf
  | heapDefault
  deriving DecidableEq, Repr

namespace Field

/-- The name of a setting in a file. -/
def name : Field → String
  | verbose => "verbose"
  | trace => "trace"
  | dump => "dump"
  | splitCrlf => "split_crlf"
  | heapDefault => "heap_default"

/-- The values that a setting takes: the default of heap cells an integer, all others a truth value,
and none of them any other value. -/
def Takes (f : Field) : Value → Prop
  | .bool _ => f ≠ heapDefault
  | .integer _ => f = heapDefault
  | _ => False

theorem name_injective {f g : Field} (h : f.name = g.name) : f = g := by
  revert h
  cases f <;> cases g <;> decide

end Field

/-- The value of a setting, none for a default of heap cells that is not set. -/
def value? (s : Settings) : Field → Option Value
  | .verbose => some (.bool s.verbose)
  | .trace => some (.bool s.trace)
  | .dump => some (.bool s.dump)
  | .splitCrlf => some (.bool s.splitCrlf)
  | .heapDefault => s.heapDefault.map .integer

/-- The new value of a setting, if there is one. -/
def Patch.value? (p : Patch) : Field → Option Value
  | .verbose => p.verbose.map .bool
  | .trace => p.trace.map .bool
  | .dump => p.dump.map .bool
  | .splitCrlf => p.splitCrlf.map .bool
  | .heapDefault => p.heapDefault.map .integer

/-- A setting has its new value if there is one, and else the old value. -/
theorem value?_update (s : Settings) (p : Patch) (f : Field) :
    (s.update p).value? f = (p.value? f).or (s.value? f) := by
  cases f with
  | verbose => cases h : p.verbose <;> simp [value?, Patch.value?, update, h]
  | trace => cases h : p.trace <;> simp [value?, Patch.value?, update, h]
  | dump => cases h : p.dump <;> simp [value?, Patch.value?, update, h]
  | splitCrlf => cases h : p.splitCrlf <;> simp [value?, Patch.value?, update, h]
  | heapDefault => cases h : p.heapDefault <;> simp [value?, Patch.value?, update, h]

/-- Giving a setting a value that it takes gives it this value and leaves the others alone. -/
theorem Patch.value?_set (p : Patch) {f : Field} {v : Value} (h : f.Takes v) (g : Field) :
    (p.set f.name v).value? g = if g = f then some v else p.value? g := by
  cases f <;> cases v <;> cases g <;> first | rfl | simp [Field.Takes] at h

/-! ## Sections -/

/-- The section is taken over: its keys are settings, each with a value that the setting takes, and
its numbers can be logged. -/
structure Acceptable (entries : Entries) : Prop where
  takes : ∀ e ∈ entries, ∃ f : Field, e.1 = f.name ∧ f.Takes e.2
  fits : ∀ e ∈ entries, ∀ n, e.2 = .integer n → Decimal.Fits n

/-- The changes that a section asks for. -/
def sectionPatch (entries : Entries) : Patch := entries.foldl (fun p e => p.set e.1 e.2) {}

theorem isKnown_iff {key : String} : isKnown key = true ↔ ∃ f : Field, key = f.name := by
  constructor
  · intro h
    simp only [isKnown, kinds, List.any_cons, List.any_nil, Bool.or_false, Bool.or_eq_true,
      decide_eq_true_eq] at h
    rcases h with rfl | rfl | rfl | rfl | rfl
    · exact ⟨.verbose, rfl⟩
    · exact ⟨.trace, rfl⟩
    · exact ⟨.dump, rfl⟩
    · exact ⟨.splitCrlf, rfl⟩
    · exact ⟨.heapDefault, rfl⟩
  · rintro ⟨f, rfl⟩
    cases f <;> decide

/-- The kind that is wanted for a setting is the kind of the values it takes. -/
theorem kind_eq_wanted_iff (f : Field) (v : Value) :
    v.kind = ((kinds.find? (·.1 = f.name)).map (·.2)).getD "" ↔ f.Takes v := by
  have hmoment (m : Moment) : m.kind ≠ "bool" ∧ m.kind ≠ "int" := by
    cases m <;> simp [Moment.kind]
  cases f <;> cases v <;> simp [Field.Takes, Value.kind, kinds, Field.name, hmoment]

theorem checkKinds_eq_ok_iff (path : String) {entries : Entries}
    (hknown : ∀ e ∈ entries, ∃ f : Field, e.1 = f.name) :
    checkKinds path entries = .ok () ↔ ∀ e ∈ entries, ∃ f : Field, e.1 = f.name ∧ f.Takes e.2 := by
  induction entries with
  | nil => simp [checkKinds]
  | cons e entries ih =>
    obtain ⟨key, v⟩ := e
    obtain ⟨⟨f, rfl⟩, hrest⟩ := List.forall_mem_cons.1 hknown
    have hhead : (∃ g : Field, f.name = g.name ∧ g.Takes v) ↔ f.Takes v := by
      constructor
      · rintro ⟨g, hname, hg⟩
        exact Field.name_injective hname ▸ hg
      · exact fun hf => ⟨f, rfl, hf⟩
    rw [List.forall_mem_cons, hhead, ← ih hrest, ← kind_eq_wanted_iff, checkKinds]
    split
    · next hkind => simp [hkind]
    · next hkind =>
      simp only [hkind, false_and, iff_false]
      cases v.text <;> exact nofun

/-- A section of acceptable kinds can be logged if its numbers can. -/
theorem writes_entryTexts {entries : Entries}
    (h : ∀ e ∈ entries, ∃ f : Field, e.1 = f.name ∧ f.Takes e.2) :
    Decimal.Writes (∀ e ∈ entries, ∀ n, e.2 = .integer n → Decimal.Fits n)
      (Value.entryTexts entries) := by
  induction entries with
  | nil => exact .ok [] nofun
  | cons e entries ih =>
    obtain ⟨key, v⟩ := e
    obtain ⟨⟨f, -, hf⟩, hrest⟩ := List.forall_mem_cons.1 h
    have hvalue : Decimal.Writes (∀ n, v = .integer n → Decimal.Fits n) v.text := by
      cases v with
      | bool b => rw [Value.text]; exact .ok _ nofun
      | integer n => rw [Value.text]; exact (Decimal.writes_write n).congr (by simp)
      | _ => exact hf.elim
    rw [Value.entryTexts]
    have hcons := hvalue.bind fun first => (ih hrest).map fun others =>
      (Text.quote key ++ ": " ++ first) :: others
    refine hcons.congr ?_
    rw [List.forall_mem_cons]

theorem unknown_eq_nil_iff {entries : Entries} :
    (entries.map (·.1)).filter (!isKnown ·) = [] ↔ ∀ e ∈ entries, ∃ f : Field, e.1 = f.name := by
  simp only [List.filter_eq_nil_iff, List.forall_mem_map, Bool.not_eq_true', ← isKnown_iff,
    Bool.not_eq_false]

/-- The checks of a section one after the other. -/
theorem loadTable_eq (path : String) (entries : Entries) :
    loadTable path entries =
      if (entries.map (·.1)).filter (!isKnown ·) = [] then
        match checkKinds path entries, (Value.table entries).text with
        | .error e, _ => .error e
        | .ok (), .error e => .error (.tooLong e)
        | .ok (), .ok shown =>
          .ok (sectionPatch entries, ⟨.debug, "Settings from " ++ path ++ ": " ++ shown⟩)
      else
        .error (.unknown ((sortedKeys ((entries.map (·.1)).filter (!isKnown ·))).map Text.quote)
          path) := by
  by_cases hunknown : (entries.map (·.1)).filter (!isKnown ·) = []
  · rw [loadTable, hunknown, if_pos rfl]
    cases checkKinds path entries with
    | error e => rfl
    | ok u => cases (Value.table entries).text <;> rfl
  · rw [loadTable, if_neg hunknown]
    simp only [ne_eq, hunknown, not_false_eq_true, if_true]
    rfl

/-- A section is taken over exactly if it is acceptable. -/
theorem loadTable_eq_ok_iff (path : String) {entries : Entries} {patch : Patch} :
    (∃ record, loadTable path entries = .ok (patch, record)) ↔
      Acceptable entries ∧ patch = sectionPatch entries := by
  rw [loadTable_eq]
  split
  · next hunknown =>
    have hkinds := checkKinds_eq_ok_iff path (unknown_eq_nil_iff.1 hunknown)
    cases hcheck : checkKinds path entries with
    | error e =>
      have hno : ¬ Acceptable entries := fun h => by
        rw [hcheck] at hkinds
        exact absurd (hkinds.2 h.takes) nofun
      simp [hno]
    | ok u =>
      have htakes := hkinds.1 hcheck
      have hwrites := writes_entryTexts htakes
      rw [Value.text]
      generalize Value.entryTexts entries = texts at hwrites
      cases hwrites with
      | ok texts hfits =>
        have hyes : Acceptable entries := ⟨htakes, hfits⟩
        simp [Except.map, hyes, eq_comm]
      | tooLong hfits =>
        have hno : ¬ Acceptable entries := fun h => hfits h.fits
        simp [Except.map, hno]
  · next hunknown =>
    have hno : ¬ Acceptable entries := fun h => hunknown <| unknown_eq_nil_iff.2 fun e he =>
      let ⟨f, hf, _⟩ := h.takes e he
      ⟨f, hf⟩
    simp [hno]

/-- A change gives each setting the value under its name, and only that. -/
theorem value?_sectionPatch {entries : Entries} (hkeys : (entries.map Prod.fst).Nodup)
    (htakes : ∀ e ∈ entries, ∃ f : Field, e.1 = f.name ∧ f.Takes e.2) (f : Field) (v : Value) :
    (sectionPatch entries).value? f = some v ↔ (f.name, v) ∈ entries := by
  induction entries using List.reverseRecOn with
  | nil => cases f <;> simp [sectionPatch, Patch.value?]
  | append_singleton entries e ih =>
    obtain ⟨key, w⟩ := e
    obtain ⟨g, hname, hg⟩ := htakes (key, w) (List.mem_append_right _ (List.mem_singleton_self _))
    obtain rfl : key = g.name := hname
    rw [List.map_append, List.map_singleton] at hkeys
    obtain ⟨hkeys, -, hnew⟩ := List.nodup_append.1 hkeys
    have hstep : sectionPatch (entries ++ [(g.name, w)]) =
        (sectionPatch entries).set g.name w := by
      simp [sectionPatch]
    have hrest := ih hkeys fun e he => htakes e (List.mem_append_left _ he)
    rw [hstep, Patch.value?_set _ hg, List.mem_append, List.mem_singleton, Prod.mk.injEq]
    by_cases hf : f = g
    · subst hf
      have hnot : (f.name, v) ∉ entries := fun hmem =>
        hnew f.name (List.mem_map.2 ⟨_, hmem, rfl⟩) f.name (List.mem_singleton_self _) rfl
      simp [hnot, eq_comm]
    · have hne : f.name ≠ g.name := fun h => hf (Field.name_injective h)
      simp [hf, hne, hrest]

/-! ## Files -/

/-- The section of a settings file that is about runs. Without one the file says nothing. -/
inductive HasSection (text : List Char) : Entries → Prop where
  | absent {table : Entries} (hparse : Config.parse text = .ok table)
      (h : table.valueOf? "interpreter" = none) : HasSection text []
  | present {table entries : Entries} (hparse : Config.parse text = .ok table)
      (h : table.valueOf? "interpreter" = some (.table entries)) : HasSection text entries

theorem HasSection.nodup_keys {text : List Char} {entries : Entries} (h : HasSection text entries) :
    (entries.map Prod.fst).Nodup := by
  cases h with
  | absent => exact List.nodup_nil
  | present hparse h => exact ((wellKeyed_of_parse hparse).valueOf? h).keys

theorem HasSection.unique {text : List Char} {entries entries' : Entries}
    (h : HasSection text entries) (h' : HasSection text entries') : entries = entries' := by
  cases h with
  | absent hparse h =>
    cases h' with
    | absent => rfl
    | present hparse' h' =>
      cases hparse.symm.trans hparse'
      cases h.symm.trans h'
  | present hparse h =>
    cases h' with
    | absent hparse' h' =>
      cases hparse.symm.trans hparse'
      cases h.symm.trans h'
    | present hparse' h' =>
      cases hparse.symm.trans hparse'
      cases h.symm.trans h'
      rfl

/-- A file is taken over exactly if it can be read and has an acceptable section or none, and the
changes are those of the section. -/
theorem load_eq_ok_iff (path : String) {text : List Char} {patch : Patch} :
    (∃ record, load path text = .ok (patch, record)) ↔
      ∃ entries, HasSection text entries ∧ Acceptable entries ∧ patch = sectionPatch entries := by
  constructor
  · rintro ⟨record, h⟩
    unfold load at h
    split at h
    · cases h
    · next table hparse =>
      split at h
      · next hnone => exact ⟨[], .absent hparse hnone, (loadTable_eq_ok_iff path).1 ⟨record, h⟩⟩
      · next entries hsome =>
        exact ⟨entries, .present hparse hsome, (loadTable_eq_ok_iff path).1 ⟨record, h⟩⟩
      · cases h
  · rintro ⟨entries, hsection, h⟩
    obtain ⟨record, hload⟩ := (loadTable_eq_ok_iff path).2 h
    refine ⟨record, ?_⟩
    cases hsection with
    | absent hparse hnone => simp only [load, hparse, hnone, hload]
    | present hparse hsome => simp only [load, hparse, hsome, hload]

end Whitespace.Settings
