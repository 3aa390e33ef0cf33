import Mathlib.Data.List.Basic
import Mathlib.Data.List.Nodup

/-!
# Lists keyed by an identifier

A small table kept as a list: each element has a key, and the operations look for
the first element with a given one.  They are the loops `iter().find(..)`,
`iter_mut().find(..)` followed by a write or a push, and `retain(..)`.
-/

namespace PbsGui.Lib.Keyed

open List

variable {α κ : Type*} [DecidableEq κ]

def lookup (key : α → κ) (wanted : κ) (items : List α) : Option α :=
  items.find? fun item => key item = wanted

/-- Replace the first element with the key of `item`, or append `item`. -/
def upsert (key : α → κ) (item : α) : List α → List α
  | [] => [item]
  | first :: rest => if key first = key item then item :: rest else first :: upsert key item rest

def remove (key : α → κ) (wanted : κ) (items : List α) : List α :=
  items.filter fun item => key item ≠ wanted

def modify (key : α → κ) (wanted : κ) (change : α → α) : List α → List α
  | [] => []
  | first :: rest =>
    if key first = wanted then change first :: rest
    else first :: modify key wanted change rest

variable {key : α → κ} {items : List α} {item new : α} {wanted other : κ} {change : α → α}

theorem lookup_cons (first : α) (rest : List α) :
    lookup key wanted (first :: rest) =
      if key first = wanted then some first else lookup key wanted rest := by
  by_cases h : key first = wanted <;> simp [lookup, h]

theorem mem_of_lookup (h : lookup key wanted items = some item) :
    item ∈ items ∧ key item = wanted :=
  ⟨mem_of_find?_eq_some h, by simpa using find?_some h⟩

theorem lookup_isSome_iff : (lookup key wanted items).isSome ↔ wanted ∈ items.map key := by
  simp [lookup]

theorem lookup_eq_none_iff : lookup key wanted items = none ↔ wanted ∉ items.map key := by
  rw [← lookup_isSome_iff]
  simp

theorem upsert_of_notMem (h : key new ∉ items.map key) : upsert key new items = items ++ [new] := by
  induction items with
  | nil => rfl
  | cons first rest ih =>
    have hfirst : key first ≠ key new := fun heq => h (heq ▸ mem_cons_self)
    have hrest : key new ∉ rest.map key := fun hmem => h (mem_cons_of_mem _ hmem)
    rw [upsert, if_neg hfirst, ih hrest, cons_append]

theorem mem_of_mem_upsert (h : item ∈ upsert key new items) : item = new ∨ item ∈ items := by
  induction items with
  | nil => exact .inl (mem_singleton.mp h)
  | cons first rest ih =>
    rw [upsert] at h
    split at h
    · exact (mem_cons.mp h).imp_right (mem_cons_of_mem _)
    · rcases mem_cons.mp h with rfl | hrest
      · exact .inr mem_cons_self
      · exact (ih hrest).imp_right (mem_cons_of_mem _)

theorem mem_upsert_self : new ∈ upsert key new items := by
  induction items with
  | nil => exact mem_singleton_self new
  | cons first rest ih =>
    rw [upsert]
    split
    · exact mem_cons_self
    · exact mem_cons_of_mem _ ih

theorem mem_upsert_of_ne (h : item ∈ items) (hne : key item ≠ key new) :
    item ∈ upsert key new items := by
  induction items with
  | nil => cases h
  | cons first rest ih =>
    rw [upsert]
    split
    · rename_i hfirst
      rcases mem_cons.mp h with rfl | hrest
      · exact absurd hfirst hne
      · exact mem_cons_of_mem _ hrest
    · rcases mem_cons.mp h with rfl | hrest
      · exact mem_cons_self
      · exact mem_cons_of_mem _ (ih hrest)

theorem mem_of_mem_modify (h : item ∈ modify key wanted change items) :
    item ∈ items ∨ ∃ old ∈ items, key old = wanted ∧ item = change old := by
  induction items with
  | nil => exact .inl h
  | cons first rest ih =>
    rw [modify] at h
    split at h
    · rename_i hfirst
      rcases mem_cons.mp h with rfl | hrest
      · exact .inr ⟨first, mem_cons_self, hfirst, rfl⟩
      · exact .inl (mem_cons_of_mem _ hrest)
    · rcases mem_cons.mp h with rfl | hrest
      · exact .inl mem_cons_self
      · obtain hmem | ⟨old, hmem, hold⟩ := ih hrest
        · exact .inl (mem_cons_of_mem _ hmem)
        · exact .inr ⟨old, mem_cons_of_mem _ hmem, hold⟩

theorem exists_of_mem_modify (hnodup : (items.map key).Nodup)
    (h : item ∈ modify key wanted change items) (hitem : key item = wanted) : ∃ old ∈ items, item = change old := by
  induction items with
  | nil => cases h
  | cons first rest ih =>
    obtain ⟨hnew, hrest⟩ := nodup_cons.mp hnodup
    rw [modify] at h
    split at h
    · rename_i hfirst
      rcases mem_cons.mp h with rfl | hmem
      · exact ⟨first, mem_cons_self, rfl⟩
      · rw [hfirst, ← hitem] at hnew
        exact absurd (mem_map_of_mem hmem) hnew
    · rename_i hfirst
      rcases mem_cons.mp h with rfl | hmem
      · exact absurd hitem hfirst
      · obtain ⟨old, hold, heq⟩ := ih hrest hmem
        exact ⟨old, mem_cons_of_mem _ hold, heq⟩

theorem map_key_upsert :
    (upsert key item items).map key =
      if key item ∈ items.map key then items.map key else items.map key ++ [key item] := by
  induction items with
  | nil => simp [upsert]
  | cons first rest ih =>
    by_cases h : key first = key item
    · simp [upsert, h]
    · have hne : key item ≠ key first := fun heq => h heq.symm
      simp only [upsert, if_neg h, map_cons, ih, mem_cons, hne, false_or]
      split <;> simp

theorem mem_keys_upsert :
    wanted ∈ (upsert key item items).map key ↔ wanted = key item ∨ wanted ∈ items.map key := by
  rw [map_key_upsert]
  split
  · rename_i hmem
    exact ⟨.inr, fun h => h.elim (fun heq => heq ▸ hmem) id⟩
  · rw [mem_append, mem_singleton, or_comm]

theorem mem_keys_remove :
    other ∈ (remove key wanted items).map key ↔ other ≠ wanted ∧ other ∈ items.map key := by
  simp only [remove, mem_map, mem_filter, decide_eq_true_eq]
  constructor
  · rintro ⟨item, ⟨hitem, hne⟩, rfl⟩
    exact ⟨hne, item, hitem, rfl⟩
  · rintro ⟨hne, item, hitem, rfl⟩
    exact ⟨item, ⟨hitem, hne⟩, rfl⟩

theorem nodup_upsert (h : (items.map key).Nodup) : ((upsert key item items).map key).Nodup := by
  rw [map_key_upsert]
  split
  · exact h
  · rename_i hnew
    refine nodup_append.mpr ⟨h, nodup_singleton _, ?_⟩
    intro left hleft right hright heq
    rw [heq, mem_singleton.mp hright] at hleft
    exact hnew hleft

theorem nodup_remove (h : (items.map key).Nodup) : ((remove key wanted items).map key).Nodup :=
  h.sublist (filter_sublist.map key)

theorem map_key_modify (hkey : ∀ item, key (change item) = key item) :
    (modify key wanted change items).map key = items.map key := by
  induction items with
  | nil => rfl
  | cons first rest ih =>
    by_cases h : key first = wanted
    · simp only [modify, if_pos h, map_cons, hkey]
    · simp only [modify, if_neg h, map_cons, ih]

theorem lookup_upsert :
    lookup key wanted (upsert key item items) =
      if key item = wanted then some item else lookup key wanted items := by
  induction items with
  | nil => rw [upsert, lookup_cons]
  | cons first rest ih =>
    by_cases h : key first = key item
    · rw [upsert, if_pos h, lookup_cons, lookup_cons, h]
      split <;> rfl
    · rw [upsert, if_neg h, lookup_cons, lookup_cons, ih]
      by_cases hfirst : key first = wanted
      · rw [if_pos hfirst, if_pos hfirst, if_neg fun heq => h (hfirst.trans heq.symm)]
      · rw [if_neg hfirst, if_neg hfirst]

theorem lookup_modify (hkey : ∀ item, key (change item) = key item) :
    lookup key other (modify key wanted change items) =
      if other = wanted then (lookup key other items).map change else lookup key other items := by
  induction items with
  | nil => simp [modify, lookup]
  | cons first rest ih =>
    by_cases h : key first = wanted
    · rw [modify, if_pos h, lookup_cons, lookup_cons, hkey, h]
      by_cases hother : other = wanted
      · simp [hother]
      · simp [hother, Ne.symm hother]
    · rw [modify, if_neg h, lookup_cons, lookup_cons, ih]
      by_cases hfirst : key first = other
      · have hother : other ≠ wanted := fun heq => h (hfirst.trans heq)
        simp [hfirst, hother]
      · simp [hfirst]

end PbsGui.Lib.Keyed
