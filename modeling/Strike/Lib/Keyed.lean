/-
**Lists with keys.**

The entries of a list are told apart by a key. `alter` changes the first entry with a key in its place.

* `lookup_alter_self`, `filter_alter`, `map_key_alter`: it changes that entry and no other, and no key.

`firsts` keeps the first entry of each key.

* `nodup_firsts`, `mem_firsts`, `firsts_of_nodup`: it has every key once, and is the list itself if that has.
-/

import Mathlib

namespace Strike.Lib

variable {α κ : Type} [DecidableEq κ]

/-- The first entry with a key. -/
def lookup (key : α → κ) (k : κ) (entries : List α) : Option α := entries.find? (key · = k)

/-- The list with the first entry of a key changed. -/
def alter (key : α → κ) (k : κ) (change : α → α) : List α → List α
  | [] => []
  | entry :: entries => if key entry = k then change entry :: entries else entry :: alter key k change entries

section

variable {key : α → κ} {k : κ}

theorem lookup_mem {entries : List α} {entry : α} (found : lookup key k entries = some entry) : entry ∈ entries :=
  List.mem_of_find?_eq_some found

theorem lookup_eq_none {entries : List α} : lookup key k entries = none ↔ k ∉ entries.map key := by
  simp [lookup, List.find?_eq_none, List.mem_map]

variable {change : α → α}

theorem map_key_alter (keeps : ∀ entry, key (change entry) = key entry) (entries : List α) :
    (alter key k change entries).map key = entries.map key := by
  induction entries with
  | nil => rfl
  | cons entry entries ih =>
    rw [alter]
    split
    · rw [List.map_cons, List.map_cons, keeps]
    · rw [List.map_cons, List.map_cons, ih]

theorem lookup_alter_self (keeps : ∀ entry, key (change entry) = key entry) (entries : List α) :
    lookup key k (alter key k change entries) = (lookup key k entries).map change := by
  induction entries with
  | nil => rfl
  | cons entry entries ih =>
    rw [alter, lookup, lookup]
    by_cases own : key entry = k
    · rw [if_pos own, List.find?_cons_of_pos (by simpa [keeps] using own),
        List.find?_cons_of_pos (by simpa using own), Option.map_some]
    · rw [if_neg own, List.find?_cons_of_neg (by simpa using own), List.find?_cons_of_neg (by simpa using own)]
      exact ih

theorem filter_alter (keeps : ∀ entry, key (change entry) = key entry) (entries : List α) :
    (alter key k change entries).filter (key · ≠ k) = entries.filter (key · ≠ k) := by
  induction entries with
  | nil => rfl
  | cons entry entries ih =>
    rw [alter]
    split
    · next own =>
        rw [List.filter_cons_of_neg (by simpa [keeps] using own), List.filter_cons_of_neg (by simpa using own)]
    · next other =>
        rw [List.filter_cons_of_pos (by simpa using other), List.filter_cons_of_pos (by simpa using other), ih]

theorem mem_alter {entries : List α} {entry : α} (there : entry ∈ alter key k change entries) :
    entry ∈ entries ∨ ∃ old ∈ lookup key k entries, entry = change old := by
  induction entries with
  | nil => exact absurd there List.not_mem_nil
  | cons first entries ih =>
    rw [alter] at there
    by_cases own : key first = k
    · rw [if_pos own, List.mem_cons] at there
      rcases there with rfl | later
      · exact .inr ⟨first, List.find?_cons_of_pos (by simpa using own), rfl⟩
      · exact .inl (List.mem_cons_of_mem _ later)
    · rw [if_neg own, List.mem_cons] at there
      have skips : lookup key k (first :: entries) = lookup key k entries :=
        List.find?_cons_of_neg (by simpa using own)
      rw [skips]
      rcases there with rfl | later
      · exact .inl List.mem_cons_self
      · exact (ih later).imp_left (List.mem_cons_of_mem _)

variable {entries : List α} {entry : α}

theorem lookup_append_new (absent : lookup key k entries = none) (own : key entry = k) :
    lookup key k (entries ++ [entry]) = some entry := by
  rw [lookup, List.find?_append]
  rw [lookup] at absent
  rw [absent, Option.none_or, List.find?_cons_of_pos (by simpa using own)]

theorem filter_append_new (own : key entry = k) :
    (entries ++ [entry]).filter (key · ≠ k) = entries.filter (key · ≠ k) := by
  rw [List.filter_append, List.filter_cons_of_neg (by simpa using own), List.filter_nil, List.append_nil]

theorem nodup_append_new (apart : (entries.map key).Nodup) (absent : lookup key k entries = none)
    (own : key entry = k) : ((entries ++ [entry]).map key).Nodup := by
  rw [List.map_append, List.map_singleton, own]
  exact List.nodup_append.mpr ⟨apart, List.nodup_singleton k, fun a there b only => by
    rw [List.mem_singleton] at only
    rw [only]
    rintro rfl
    exact lookup_eq_none.mp absent there⟩

end

/-- Where the keys are apart, only the first entry has its key. -/
theorem filter_key_eq_lookup {key : α → κ} {k : κ} (entries : List α) :
    (entries.map key).Nodup → entries.filter (key · = k) = (lookup key k entries).toList := by
  induction entries with
  | nil => exact fun _ => rfl
  | cons entry entries ih =>
    intro apart
    rw [List.map_cons, List.nodup_cons] at apart
    rw [lookup]
    by_cases own : key entry = k
    · have none_ : entries.filter (key · = k) = [] := by
        rw [ih apart.2, lookup_eq_none.mpr (own ▸ apart.1), Option.toList_none]
      rw [List.filter_cons_of_pos (by simpa using own), List.find?_cons_of_pos (by simpa using own), none_]
      rfl
    · rw [List.filter_cons_of_neg (by simpa using own), List.find?_cons_of_neg (by simpa using own)]
      exact ih apart.2

/-! ### The first of each key -/

/-- An entry is put behind the others if its key is new. -/
def addNew (key : α → κ) (kept : List α) (entry : α) : List α :=
  if key entry ∈ kept.map key then kept else kept ++ [entry]

/-- The first entry of each key. -/
def firsts (key : α → κ) (entries : List α) : List α := entries.foldl (addNew key) []

section

variable {key : α → κ}

theorem nodup_addNew {kept : List α} (apart : (kept.map key).Nodup) (entry : α) :
    ((addNew key kept entry).map key).Nodup := by
  unfold addNew
  split
  · exact apart
  · next new => exact nodup_append_new apart (lookup_eq_none.mpr new) rfl

theorem mem_addNew {kept : List α} {entry : α} {k : κ} :
    k ∈ (addNew key kept entry).map key ↔ k ∈ kept.map key ∨ k = key entry := by
  unfold addNew
  split
  · next old =>
      constructor
      · exact .inl
      · rintro (there | rfl)
        · exact there
        · exact old
  · rw [List.map_append, List.mem_append, List.map_singleton, List.mem_singleton]

theorem nodup_foldl_addNew (entries : List α) :
    ∀ {kept : List α}, (kept.map key).Nodup → ((entries.foldl (addNew key) kept).map key).Nodup := by
  induction entries with
  | nil => exact fun apart => apart
  | cons entry entries ih => exact fun apart => ih (nodup_addNew apart entry)

theorem mem_foldl_addNew {k : κ} (entries : List α) :
    ∀ {kept : List α}, k ∈ (entries.foldl (addNew key) kept).map key ↔ k ∈ kept.map key ∨ k ∈ entries.map key := by
  induction entries with
  | nil => simp
  | cons entry entries ih =>
    intro kept
    rw [List.foldl_cons, ih, mem_addNew, List.map_cons, List.mem_cons, or_assoc]

theorem foldl_addNew_of_nodup (entries : List α) :
    ∀ {kept : List α}, ((kept ++ entries).map key).Nodup → entries.foldl (addNew key) kept = kept ++ entries := by
  induction entries with
  | nil => exact fun _ => (List.append_nil _).symm
  | cons entry entries ih =>
    intro kept apart
    have new : key entry ∉ kept.map key := by
      rw [List.map_append, List.map_cons] at apart
      exact fun old => (List.nodup_append.mp apart).2.2 _ old _ List.mem_cons_self rfl
    rw [List.append_cons] at apart ⊢
    rw [List.foldl_cons, addNew, if_neg new]
    exact ih apart

theorem map_foldl_addNew (entries : List α) :
    ∀ {kept : List α}, (entries.foldl (addNew key) kept).map key = (entries.map key).foldl (addNew id) (kept.map key) := by
  induction entries with
  | nil => exact fun {_} => rfl
  | cons entry entries ih =>
    intro kept
    have one : (addNew key kept entry).map key = addNew id (kept.map key) (key entry) := by
      unfold addNew
      rw [List.map_id, id]
      split
      · rfl
      · rw [List.map_append, List.map_singleton]
    rw [List.foldl_cons, ih, one, List.map_cons, List.foldl_cons]

theorem map_firsts (entries : List α) : (firsts key entries).map key = firsts id (entries.map key) :=
  map_foldl_addNew entries

theorem nodup_firsts (entries : List α) : ((firsts key entries).map key).Nodup :=
  nodup_foldl_addNew entries List.nodup_nil

theorem mem_firsts {entries : List α} {k : κ} : k ∈ (firsts key entries).map key ↔ k ∈ entries.map key := by
  rw [firsts, mem_foldl_addNew]
  simp

theorem firsts_of_nodup {entries : List α} (apart : (entries.map key).Nodup) : firsts key entries = entries :=
  foldl_addNew_of_nodup entries apart

end

end Strike.Lib
