import Mathlib.Data.List.Nodup
import Whitespace.Config.Parser

/-!
# Keys of settings files

A settings file that can be read holds a table, and no table in it has a key twice: a statement that
would give a key a second time is refused. So what a table says of a key does not depend on the
order of its entries.

## Main definitions

* `Value.WellKeyed` — no table in the value, at any depth, has a key twice.
* `Yields` — what is read, if something is, has a property.

## Main statements

* `wellKeyed_change` — changing a table deep inside another one.
* `yields_value`, `yields_lines` — values and files.
* `wellKeyed_of_parse` — the table of a settings file.
-/

namespace Whitespace.Config

/-- No table in the value has a key twice. -/
inductive Value.WellKeyed : Value → Prop where
  | bool (b : Bool) : WellKeyed (.bool b)
  | integer (v : Int) : WellKeyed (.integer v)
  | float (x : Binary64) : WellKeyed (.float x)
  | string (s : String) : WellKeyed (.string s)
  | moment (m : Moment) : WellKeyed (.moment m)
  | array {items : List Value} (h : ∀ v ∈ items, WellKeyed v) : WellKeyed (.array items)
  | table {entries : Entries} (hkeys : (entries.map Prod.fst).Nodup)
      (h : ∀ e ∈ entries, WellKeyed e.2) : WellKeyed (.table entries)

/-! ## Tables -/

namespace Entries

variable {t : Entries} {key : String} {v : Value}

theorem mem_of_valueOf? (h : t.valueOf? key = some v) : (key, v) ∈ t := by
  obtain ⟨⟨k, w⟩, hfind, rfl⟩ := Option.map_eq_some_iff.1 h
  have hk : k = key := by simpa using List.find?_some hfind
  exact hk ▸ List.mem_of_find?_eq_some hfind

theorem not_mem_of_valueOf? (h : t.valueOf? key = none) : key ∉ t.map Prod.fst := by
  intro hmem
  obtain ⟨e, he, hkey⟩ := List.mem_map.1 hmem
  have hnone := List.find?_eq_none.1 (Option.map_eq_none_iff.1 h) e he
  exact hnone (decide_eq_true hkey)

theorem keys_replace (t : Entries) (key : String) (v : Value) :
    (t.replace key v).map Prod.fst = t.map Prod.fst := by
  rw [replace, List.map_map]
  refine List.map_congr_left fun e _ => ?_
  by_cases he : e.1 = key <;> simp [he]

end Entries

namespace Value.WellKeyed

variable {t : Entries} {key : String} {v : Value} {vs : List Value}

theorem keys (h : (Value.table t).WellKeyed) : (t.map Prod.fst).Nodup := by
  cases h with
  | table hkeys _ => exact hkeys

theorem entries (h : (Value.table t).WellKeyed) : ∀ e ∈ t, e.2.WellKeyed := by
  cases h with
  | table _ hvalues => exact hvalues

theorem items (h : (Value.array vs).WellKeyed) : ∀ v ∈ vs, v.WellKeyed := by
  cases h with
  | array hitems => exact hitems

theorem nil : (Value.table []).WellKeyed := .table List.nodup_nil nofun

theorem valueOf? (ht : (Value.table t).WellKeyed) (h : t.valueOf? key = some v) : v.WellKeyed :=
  ht.entries _ (Entries.mem_of_valueOf? h)

/-- A key that is not there yet can be added. -/
theorem add (ht : (Value.table t).WellKeyed) (h : t.valueOf? key = none) (hv : v.WellKeyed) :
    (Value.table (t ++ [(key, v)])).WellKeyed := by
  refine .table ?_ ?_
  · rw [List.map_append, List.map_singleton]
    exact (List.nodup_append_comm.1 (List.nodup_cons.2 ⟨Entries.not_mem_of_valueOf? h, ht.keys⟩))
  · intro e he
    rcases List.mem_append.1 he with he | he
    · exact ht.entries e he
    · rw [List.mem_singleton.1 he]
      exact hv

theorem replace (ht : (Value.table t).WellKeyed) (hv : v.WellKeyed) :
    (Value.table (t.replace key v)).WellKeyed := by
  refine .table ?_ ?_
  · rw [Entries.keys_replace]
    exact ht.keys
  · intro e he
    obtain ⟨e', he', rfl⟩ := List.mem_map.1 he
    split
    · exact hv
    · exact ht.entries e' he'

/-- The array with its last item replaced. -/
theorem concat (h : (Value.array vs).WellKeyed) (hv : v.WellKeyed) {front : List Value}
    (hfront : ∀ w ∈ front, w ∈ vs) : (Value.array (front ++ [v])).WellKeyed := by
  refine .array fun w hw => ?_
  rcases List.mem_append.1 hw with hw | hw
  · exact h.items w (hfront w hw)
  · rw [List.mem_singleton.1 hw]
    exact hv

end Value.WellKeyed

open Value (WellKeyed)

/-- What a change of a table keeps, a change of a table deep inside keeps. -/
theorem wellKeyed_change {arrays : Bool} {f : Entries → Option Entries}
    (hf : ∀ t t', f t = some t' → (Value.table t).WellKeyed → (Value.table t').WellKeyed)
    {key : Key} {t t' : Entries} (h : change arrays f key t = some t')
    (ht : (Value.table t).WellKeyed) : (Value.table t').WellKeyed := by
  induction key generalizing t t' with
  | nil => exact hf t t' h ht
  | cons k rest ih =>
    rw [change] at h
    split at h
    · next hnone =>
      obtain ⟨sub, hsub, rfl⟩ := Option.map_eq_some_iff.1 h
      exact ht.add hnone (ih hsub .nil)
    · next sub hsome =>
      obtain ⟨sub', hsub, rfl⟩ := Option.map_eq_some_iff.1 h
      exact ht.replace (ih hsub (ht.valueOf? hsome))
    · next items hsome =>
      split at h
      · next hlast =>
        obtain ⟨sub', hsub, rfl⟩ := Option.map_eq_some_iff.1 h
        have hitems := ht.valueOf? hsome
        have hsub' := ih hsub (hitems.items _ (List.mem_of_getLast? hlast))
        exact ht.replace (hitems.concat hsub' fun w hw => (List.dropLast_sublist _).mem hw)
      · cases h
    · cases h

theorem wellKeyed_addEntry {key : String} {v : Value} (hv : v.WellKeyed) (t t' : Entries)
    (h : addEntry key v t = some t') (ht : (Value.table t).WellKeyed) :
    (Value.table t').WellKeyed := by
  unfold addEntry at h
  split at h
  · next hnone =>
    cases h
    exact ht.add hnone hv
  · cases h

theorem wellKeyed_addTable {key : String} (t t' : Entries) (h : addTable key t = some t')
    (ht : (Value.table t).WellKeyed) : (Value.table t').WellKeyed := by
  have hnew : (Value.array [.table []]).WellKeyed := .array fun v hv => by
    rw [List.mem_singleton.1 hv]
    exact .nil
  unfold addTable at h
  split at h
  · next hnone =>
    cases h
    exact ht.add hnone hnew
  · next hsome =>
    cases h
    exact ht.replace ((ht.valueOf? hsome).concat .nil fun _ hw => hw)
  · cases h

/-! ## Statements -/

/-- The table built so far has no key twice. -/
def Document.WellKeyed (d : Document) : Prop := (Value.table d.entries).WellKeyed

namespace Document.WellKeyed

variable {d d' : Document} {key : Key} {v : Value}

theorem openTable (hd : d.WellKeyed) (h : d.openTable key = some d') : d'.WellKeyed := by
  unfold Document.openTable at h
  dsimp only at h
  split at h
  · cases h
  · obtain ⟨t, ht, rfl⟩ := Option.map_eq_some_iff.1 h
    exact wellKeyed_change (fun t t' heq ht => Option.some.inj heq ▸ ht) ht hd

theorem openArray (hd : d.WellKeyed) (h : d.openArray key = some d') : d'.WellKeyed := by
  unfold Document.openArray at h
  dsimp only at h
  split at h
  · cases h
  · obtain ⟨t, ht, rfl⟩ := Option.map_eq_some_iff.1 h
    exact wellKeyed_change wellKeyed_addTable ht hd

theorem put (hd : d.WellKeyed) (hv : v.WellKeyed) (h : d.put key v = some d') : d'.WellKeyed := by
  unfold Document.put at h
  dsimp only at h
  split at h
  · cases h
  · obtain ⟨t, ht, rfl⟩ := Option.map_eq_some_iff.1 h
    exact wellKeyed_change (wellKeyed_addEntry hv) ht hd

end Document.WellKeyed

/-- The table between braces has no key twice. -/
def Inline.WellKeyed (t : Inline) : Prop := (Value.table t.entries).WellKeyed

theorem Inline.WellKeyed.put {t t' : Inline} {key : Key} {v : Value} (ht : t.WellKeyed)
    (hv : v.WellKeyed) (h : t.put key v = some t') : t'.WellKeyed := by
  unfold Inline.put at h
  split at h
  · cases h
  · obtain ⟨entries, hentries, rfl⟩ := Option.map_eq_some_iff.1 h
    exact wellKeyed_change (wellKeyed_addEntry hv) hentries ht

/-! ## Reading -/

/-- What is read, if something is, has the property `P`. -/
def Yields {α : Type} (P : α → Prop) (x : Except Error α) : Prop := ∀ a, x = .ok a → P a

section Yields

variable {α β : Type} {P : α → Prop} {Q : β → Prop}

theorem yields_ok {a : α} (h : P a) : Yields P (.ok a) := by
  rintro _ ⟨⟩
  exact h

theorem yields_error (e : Error) : Yields P (.error e) := nofun

theorem yields_any (x : Except Error α) : Yields (fun _ => True) x := fun _ _ => trivial

theorem Yields.bind {x : Except Error α} {f : α → Except Error β} (hx : Yields P x)
    (hf : ∀ a, P a → Yields Q (f a)) : Yields Q (x >>= f) := by
  cases x with
  | error e => exact yields_error e
  | ok a => exact hf a (hx a rfl)

theorem Yields.map {x : Except Error α} {f : α → β} (hx : Yields P x) (hf : ∀ a, P a → Q (f a)) :
    Yields Q (x.map f) := by
  cases x with
  | error e => exact yields_error e
  | ok a => exact yields_ok (hf a (hx a rfl))

theorem yields_orMalformed {x : Option α} (h : ∀ a, x = some a → P a) :
    Yields P (orMalformed x) := by
  cases x with
  | none => exact yields_error _
  | some a => exact yields_ok (h a rfl)

end Yields

/-- The value that was read has no key twice. -/
abbrev ReadsWell (r : Value × List Char) : Prop := r.1.WellKeyed

theorem yields_decimalNumber {negative : Bool} {s : List Char}
    {r : Except Error (Value × List Char)} (h : decimalNumber? negative s = some r) :
    Yields ReadsWell r := by
  obtain ⟨⟨whole, rest⟩, -, h⟩ := Option.bind_eq_some_iff.1 h
  dsimp only at h
  split at h
  · cases h
    exact yields_ok (.float _)
  · split at h
    · split at h
      · cases h
        exact yields_ok (.integer _)
      · cases h
        exact yields_error _
    · cases h
      exact yields_ok (.float _)

theorem wellKeyed_of_specialFloat? {negative : Bool} {s : List Char} {r : Value × List Char}
    (h : specialFloat? negative s = some r) : ReadsWell r := by
  unfold specialFloat? at h
  split at h <;> cases h <;> exact .float _

theorem wellKeyed_of_radixInteger? {s : List Char} {r : Value × List Char}
    (h : radixInteger? s = some r) : ReadsWell r := by
  have hdigits {base : Nat} {rest : List Char}
      (h : (someDigits? (fun c => (Text.hexDigit? c).any (· < base)) rest).bind (fun r =>
        some (Value.integer ((r.1.filterMap Text.hexDigit?).foldl (base * · + ·) 0 : Nat), r.2)) =
          some r) : ReadsWell r := by
    obtain ⟨⟨digits, rest'⟩, -, h⟩ := Option.bind_eq_some_iff.1 h
    cases h
    exact .integer _
  unfold radixInteger? at h
  split at h
  · exact hdigits h
  · exact hdigits h
  · exact hdigits h
  · cases h

theorem yields_number (s : List Char) : Yields ReadsWell (number s) := by
  unfold number
  dsimp only
  -- every branch ends with a decimal number, an integer in another base or a special fraction
  repeat' split
  all_goals first
    | exact yields_decimalNumber ‹_›
    | exact yields_ok (wellKeyed_of_radixInteger? ‹_›)
    | exact yields_orMalformed fun r => wellKeyed_of_specialFloat?

/-- The three readers that call each other, by induction on the number of calls. -/
theorem yields_value_and (fuel : Nat) :
    (∀ s, Yields ReadsWell (value fuel s)) ∧
    (∀ s, Yields (fun r => ∀ v ∈ r.1, v.WellKeyed) (arrayItems fuel s)) ∧
    ∀ t s, t.WellKeyed → Yields ReadsWell (inlineEntries fuel t s) := by
  induction fuel with
  | zero => exact ⟨fun s => yields_error _, fun s => yields_error _, fun t s _ => yields_error _⟩
  | succ fuel ih =>
    obtain ⟨hvalue, harray, hinline⟩ := ih
    refine ⟨fun s => ?_, fun s => ?_, fun t s ht => ?_⟩
    · unfold value
      split
      · exact (yields_any _).map fun r _ => .string _
      · exact (yields_any _).map fun r _ => .string _
      · exact (yields_any _).map fun r _ => .string _
      · exact (yields_any _).map fun r _ => .string _
      · exact yields_ok (.bool true)
      · exact yields_ok (.bool false)
      · refine (yields_any _).bind fun rest _ => (harray rest).bind fun r hr => ?_
        exact yields_ok (.array hr)
      · split
        · exact yields_ok .nil
        · exact hinline {} _ .nil
      · split
        · exact (yields_any _).map fun r _ => .moment _
        · exact yields_number s
    · unfold arrayItems
      split
      · exact yields_ok nofun
      · refine (hvalue s).bind fun r hr => (yields_any _).bind fun rest _ => ?_
        split
        · exact yields_ok (by simpa using hr)
        · refine (yields_any _).bind fun rest _ => (harray rest).bind fun rs hrs => ?_
          exact yields_ok (List.forall_mem_cons.2 ⟨hr, hrs⟩)
        · exact yields_error _
    · rw [inlineEntries]
      refine (yields_any _).bind fun k _ => ?_
      dsimp only
      split
      · refine (hvalue _).bind fun r hr => ?_
        refine (yields_orMalformed fun t' ht' => ht.put hr ht').bind fun t' ht' => ?_
        split
        · exact yields_ok ht'
        · exact hinline t' _ ht'
        · exact yields_error _
      · exact yields_error _

theorem yields_value (fuel : Nat) (s : List Char) : Yields ReadsWell (value fuel s) :=
  (yields_value_and fuel).1 s

variable {d : Document}

theorem yields_entry (hd : d.WellKeyed) (s : List Char) :
    Yields (fun r => r.1.WellKeyed) (entry d s) := by
  unfold entry
  refine (yields_any _).bind fun k _ => ?_
  dsimp only
  split
  · refine (yields_value _ _).bind fun r hr => ?_
    refine (yields_orMalformed fun d' => hd.put hr).bind fun d' hd' => ?_
    exact yields_ok hd'
  · exact yields_error _

theorem yields_header (hd : d.WellKeyed) (s : List Char) :
    Yields (fun r => r.1.WellKeyed) (header d s) := by
  unfold header
  split
  · refine (yields_any _).bind fun k _ => ?_
    dsimp only
    split
    · refine (yields_orMalformed fun d' => hd.openArray).bind fun d' hd' => ?_
      exact yields_ok hd'
    · exact yields_error _
  · refine (yields_any _).bind fun k _ => ?_
    dsimp only
    split
    · refine (yields_orMalformed fun d' => hd.openTable).bind fun d' hd' => ?_
      exact yields_ok hd'
    · exact yields_error _

theorem yields_statement (hd : d.WellKeyed) (s : List Char) :
    Yields (fun r => r.1.WellKeyed) (statement d s) := by
  unfold statement
  split
  · exact yields_ok hd
  · split
    · exact yields_ok hd
    · split
      · exact yields_header hd _
      · exact yields_entry hd _

theorem yields_lines (fuel : Nat) (hd : d.WellKeyed) (s : List Char) :
    Yields Document.WellKeyed (lines fuel d s) := by
  induction fuel generalizing d s with
  | zero => exact yields_error _
  | succ fuel ih =>
    rw [lines]
    refine (yields_statement hd _).bind fun r hr => (yields_any _).bind fun rest _ => ?_
    split
    · exact yields_ok hr
    · exact ih hr _
    · exact yields_error _

/-- No table of a settings file has a key twice. -/
theorem wellKeyed_of_parse {text : List Char} {entries : Entries}
    (h : parse text = .ok entries) : (Value.table entries).WellKeyed :=
  Yields.map (Q := fun t => (Value.table t).WellKeyed)
    (yields_lines (text.length + 1) (d := {}) .nil text) (fun _ hd => hd) entries h

end Whitespace.Config
