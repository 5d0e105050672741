import Mathlib.Data.List.Induction
import Mathlib.Data.List.Nodup
import Whitespace.Table

/-!
# Entries of a table

A table that was built by insertions holds every key once, so its entries are exactly what reading
it gives.

## Main definitions

* `Table.Functional` — every key stands in one entry only.
* `Table.mapValues`, `Table.override` — a table with other values, and one table over another.

## Main statements

* `Table.mem_entries_iff` — the entries of a functional table are its readings.
* `Table.get?_ofList` — in a table built by insertions, the last one under a key is read.
* `Table.get?_override`, `Table.override_insert` — reading and writing one table over another.
-/

namespace Whitespace.Table

variable {κ ν : Type}

/-- Every key stands in one entry only. -/
def Functional (t : Table κ ν) : Prop := (t.entries.map Prod.fst).Nodup

theorem functional_empty : (empty : Table κ ν).Functional := List.nodup_nil

variable [DecidableEq κ]

theorem keys_write (k : κ) (v : ν) (entries : List (κ × ν)) :
    (write k v entries).map Prod.fst =
      if k ∈ entries.map Prod.fst then entries.map Prod.fst else entries.map Prod.fst ++ [k] := by
  induction entries with
  | nil => simp [write]
  | cons e rest ih =>
    by_cases he : e.1 = k
    · simp [write, he]
    · simp only [write, he, if_false, List.map_cons, ih, List.mem_cons, Ne.symm he, false_or]
      split <;> simp

theorem mem_keys_insert (t : Table κ ν) (k a : κ) (v : ν) :
    a ∈ (t.insert k v).entries.map Prod.fst ↔ a = k ∨ a ∈ t.entries.map Prod.fst := by
  rw [insert, keys_write]
  split <;> grind

theorem Functional.insert {t : Table κ ν} (h : t.Functional) (k : κ) (v : ν) :
    (t.insert k v).Functional := by
  rw [Functional, Table.insert, keys_write]
  split
  · exact h
  · next hk => exact List.nodup_append.2 ⟨h, List.nodup_singleton k, by grind⟩

theorem mem_entries_iff {t : Table κ ν} (h : t.Functional) (k : κ) (v : ν) :
    (k, v) ∈ t.entries ↔ t.get? k = some v := by
  obtain ⟨entries⟩ := t
  rw [Functional] at h
  rw [get?]
  induction entries with
  | nil => simp [lookup]
  | cons e rest ih =>
    obtain ⟨k', v'⟩ := e
    simp only [List.map_cons, List.nodup_cons] at h
    by_cases hk : k' = k
    · subst hk
      have hrest : (k', v) ∉ rest := fun hmem => h.1 (List.mem_map.2 ⟨_, hmem, rfl⟩)
      simp [lookup, hrest, eq_comm]
    · rw [lookup, if_neg hk, ← ih h.2]
      simp [Ne.symm hk]

/-! ## Tables built by insertions -/

theorem ofList_concat (entries : List (κ × ν)) (e : κ × ν) :
    ofList (entries ++ [e]) = (ofList entries).insert e.1 e.2 := by
  simp [ofList]

/-- The last insertion under a key is the one that is read. -/
theorem get?_ofList (entries : List (κ × ν)) (k : κ) :
    (ofList entries).get? k = lookup k entries.reverse := by
  induction entries using List.reverseRecOn with
  | nil => rfl
  | append_singleton entries e ih =>
    rw [ofList_concat, get?_insert, ih, List.reverse_concat, lookup]
    simp only [eq_comm]

theorem lookup_eq_none_iff (k : κ) (entries : List (κ × ν)) :
    lookup k entries = none ↔ ∀ v, (k, v) ∉ entries := by
  induction entries with
  | nil => simp [lookup]
  | cons e rest ih =>
    obtain ⟨k', v'⟩ := e
    by_cases hk : k' = k
    · have hmem : (k, v') ∈ (k', v') :: rest := by rw [hk]; exact List.mem_cons_self
      simp only [lookup, hk, if_true, reduceCtorEq, false_iff]
      exact fun h => h v' (hk ▸ hmem)
    · simp [lookup, hk, ih, Ne.symm hk]

theorem get?_ofList_eq_none_iff (entries : List (κ × ν)) (k : κ) :
    (ofList entries).get? k = none ↔ ∀ v, (k, v) ∉ entries := by
  simp only [get?_ofList, lookup_eq_none_iff, List.mem_reverse]

/-! ## One table over another -/

/-- The table with `f` applied to its values. -/
def mapValues {μ : Type} (f : ν → μ) (t : Table κ ν) : Table κ μ :=
  ⟨t.entries.map fun e => (e.1, f e.2)⟩

theorem mapValues_insert {μ : Type} (f : ν → μ) (t : Table κ ν) (k : κ) (v : ν) :
    (t.insert k v).mapValues f = (t.mapValues f).insert k (f v) := by
  obtain ⟨entries⟩ := t
  simp only [mapValues, insert, mk.injEq]
  induction entries with
  | nil => rfl
  | cons e rest ih => grind [write]

theorem get?_mapValues {μ : Type} (f : ν → μ) (t : Table κ ν) (k : κ) :
    (t.mapValues f).get? k = (t.get? k).map f := by
  obtain ⟨entries⟩ := t
  simp only [mapValues, get?]
  induction entries with
  | nil => rfl
  | cons e rest ih => grind [lookup]

omit [DecidableEq κ] in
theorem Functional.mapValues {μ : Type} {t : Table κ ν} (h : t.Functional) (f : ν → μ) :
    (t.mapValues f).Functional := by
  simpa [Functional, Table.mapValues, Function.comp_def] using h

/-- The table `t` with the entries of `u` inserted one after the other. -/
def override (t u : Table κ ν) : Table κ ν :=
  u.entries.foldl (fun t e => t.insert e.1 e.2) t

theorem get?_override (t : Table κ ν) {u : Table κ ν} (hu : u.Functional) (k : κ) :
    (t.override u).get? k = (u.get? k).or (t.get? k) := by
  obtain ⟨entries⟩ := u
  simp only [override, get?]
  induction entries generalizing t with
  | nil => rfl
  | cons e rest ih =>
    obtain ⟨hfirst, hrest⟩ := List.nodup_cons.1 hu
    rw [List.foldl_cons, ih _ hrest]
    have hkey : k = e.1 → lookup k rest = none := by
      rintro rfl
      exact (lookup_eq_none_iff e.1 rest).2 fun v hv => hfirst (List.mem_map.2 ⟨_, hv, rfl⟩)
    have hread := get?_insert t e.1 k e.2
    grind [lookup, get?]

theorem write_write_self (k : κ) (v w : ν) (entries : List (κ × ν)) :
    write k w (write k v entries) = write k w entries := by
  induction entries with
  | nil => simp [write]
  | cons e rest ih => grind [write]

/-- Writes under two keys can be exchanged if one of the keys is there already, so that no entry is
added for it. -/
theorem write_comm {k a : κ} (hne : a ≠ k) (v x : ν) {entries : List (κ × ν)}
    (hk : k ∈ entries.map Prod.fst) :
    write k v (write a x entries) = write a x (write k v entries) := by
  induction entries with
  | nil => simp at hk
  | cons e rest ih => grind [write]

theorem foldl_insert_comm {k : κ} (v : ν) {entries : List (κ × ν)}
    (hnew : k ∉ entries.map Prod.fst) {t : Table κ ν} (hk : k ∈ t.entries.map Prod.fst) :
    (entries.foldl (fun t e => t.insert e.1 e.2) t).insert k v =
      entries.foldl (fun t e => t.insert e.1 e.2) (t.insert k v) := by
  induction entries generalizing t with
  | nil => rfl
  | cons e rest ih =>
    rw [List.map_cons, List.mem_cons, not_or] at hnew
    have hkeep : k ∈ (t.insert e.1 e.2).entries.map Prod.fst :=
      (mem_keys_insert t e.1 k e.2).2 (.inr hk)
    have hcomm : (t.insert e.1 e.2).insert k v = (t.insert k v).insert e.1 e.2 := by
      rw [insert, insert, write_comm (Ne.symm hnew.1) v e.2 hk, insert, insert]
    rw [List.foldl_cons, ih hnew.2 hkeep, hcomm, List.foldl_cons]

/-- Writing to the upper table is writing to both. -/
theorem override_insert (t : Table κ ν) {u : Table κ ν} (hu : u.Functional) (k : κ) (v : ν) :
    t.override (u.insert k v) = (t.override u).insert k v := by
  obtain ⟨entries⟩ := u
  simp only [override, insert]
  induction entries generalizing t with
  | nil => rfl
  | cons e rest ih =>
    obtain ⟨hfirst, hrest⟩ := List.nodup_cons.1 hu
    by_cases he : e.1 = k
    · subst he
      have hk : e.1 ∈ (t.insert e.1 e.2).entries.map Prod.fst :=
        (mem_keys_insert t e.1 e.1 e.2).2 (.inl rfl)
      have hlast : (t.insert e.1 e.2).insert e.1 v = t.insert e.1 v := by
        rw [insert, insert, write_write_self, insert]
      have hlater := foldl_insert_comm v hfirst hk
      rw [hlast] at hlater
      simpa [write, insert] using hlater.symm
    · have hlater := ih (t.insert e.1 e.2) hrest
      simpa [write, he, insert] using hlater

end Whitespace.Table
