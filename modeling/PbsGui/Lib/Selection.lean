import Mathlib.Data.List.Induction
import Mathlib.Data.List.Pairwise
import Mathlib.Data.List.Sort
import Mathlib.Data.List.TakeWhile
import Mathlib.Order.Basic

/-!
# Selecting from lists by a key

Operations of the standard iterators and vectors: the last of the elements with the
greatest key (`max_by_key`), a stable sort by a key (`sort_by_key`), a list up to and
including the first element with a property, and a list without an element like the one before
it (`dedup_by`).
-/

namespace PbsGui.Lib

open List

variable {α β : Type*}

theorem eq_of_key_eq {key : α → β} {items : List α}
    (hdist : items.Pairwise fun left right => key left ≠ key right) {left right : α}
    (hleft : left ∈ items) (hright : right ∈ items) (hkey : key left = key right) : left = right := by
  have : Std.Symm fun left right : α => key left ≠ key right := ⟨fun _ _ h => h.symm⟩
  by_contra hdiffer
  exact hdist.forall hleft hright hdiffer hkey

section Max

variable [LinearOrder β]

/-- The last of the elements with the greatest key, as `Iterator::max_by_key`. -/
def maxByKey (key : α → β) (items : List α) : Option α :=
  items.foldl (fun best item =>
    match best with
    | none => some item
    | some best => if key best ≤ key item then some item else some best) none

variable {key : α → β}

theorem maxByKey_append_singleton (items : List α) (item : α) :
    maxByKey key (items ++ [item]) =
      match maxByKey key items with
      | none => some item
      | some best => if key best ≤ key item then some item else some best := by
  simp only [maxByKey, foldl_append, foldl_cons, foldl_nil]

theorem maxByKey_spec (items : List α) :
    (maxByKey key items = none ∧ items = []) ∨
      ∃ best ∈ items, maxByKey key items = some best ∧ ∀ item ∈ items, key item ≤ key best := by
  induction items using reverseRecOn with
  | nil => exact .inl ⟨rfl, rfl⟩
  | append_singleton items item ih =>
    right
    rw [maxByKey_append_singleton]
    rcases ih with ⟨hnone, rfl⟩ | ⟨best, hbest, hsome, hmax⟩
    · exact ⟨item, by simp, by rw [hnone], by simp⟩
    · rw [hsome]
      by_cases hle : key best ≤ key item
      · refine ⟨item, by simp, if_pos hle, fun other hother => ?_⟩
        rcases mem_append.mp hother with hold | hnew
        · exact (hmax other hold).trans hle
        · rw [mem_singleton.mp hnew]
      · refine ⟨best, mem_append_left _ hbest, if_neg hle, fun other hother => ?_⟩
        rcases mem_append.mp hother with hold | hnew
        · exact hmax other hold
        · rw [mem_singleton.mp hnew]
          exact (not_le.mp hle).le

theorem maxByKey_of_last {items : List α} {item : α}
    (hmax : ∀ other ∈ items, key other ≤ key item) :
    maxByKey key (items ++ [item]) = some item := by
  rw [maxByKey_append_singleton]
  rcases @maxByKey_spec _ _ _ key items with ⟨hnone, -⟩ | ⟨best, hbest, hsome, -⟩
  · rw [hnone]
  · rw [hsome]
    exact if_pos (hmax best hbest)

end Max

/-- The list up to and including the first element with the property. -/
def takeThrough (stop : α → Bool) : List α → List α
  | [] => []
  | item :: rest => if stop item then [item] else item :: takeThrough stop rest

section TakeThrough

variable {stop : α → Bool} {items : List α}

theorem takeThrough_isPrefix : takeThrough stop items <+: items := by
  induction items with
  | nil => exact prefix_refl _
  | cons item rest ih =>
    rw [takeThrough]
    split
    · exact ⟨rest, rfl⟩
    · exact prefix_cons_inj item |>.mpr ih

variable {before later : List α}

theorem takeThrough_of_split {item : α} (hstop : stop item = true)
    (hitems : items = before ++ item :: later) : takeThrough stop items <+: before ++ [item] := by
  induction before generalizing items with
  | nil =>
    rw [hitems, nil_append, takeThrough, if_pos hstop]
    exact prefix_refl _
  | cons first before ih =>
    rw [hitems, cons_append, takeThrough]
    split
    · exact ⟨before ++ [item], rfl⟩
    · exact prefix_cons_inj first |>.mpr (ih rfl)

/-- Elements before the first one with the property are all taken, and so is the
one after them. -/
theorem mem_takeThrough_of_before {item : α} (hpre : ∀ other ∈ before, stop other = false) :
    item ∈ takeThrough stop (before ++ item :: later) := by
  induction before with
  | nil =>
    rw [nil_append, takeThrough]
    split <;> exact mem_cons_self
  | cons first before ih =>
    rw [cons_append, takeThrough, if_neg (by simp [hpre first])]
    exact mem_cons_of_mem _ (ih (forall_mem_cons.mp hpre).2)

theorem takeThrough_concat {before : List α} (hpre : ∀ other ∈ before, stop other = false)
    (item : α) : takeThrough stop (before ++ [item]) = before ++ [item] := by
  induction before with
  | nil => simp [takeThrough]
  | cons first before ih =>
    rw [cons_append, takeThrough, if_neg (by simp [hpre first]), ih (forall_mem_cons.mp hpre).2]

theorem exists_mem_takeThrough_iff :
    (∃ item ∈ takeThrough stop items, stop item = true) ↔ ∃ item ∈ items, stop item = true := by
  induction items with
  | nil => rfl
  | cons item rest ih =>
    rw [takeThrough]
    split
    · next hstop => simp [hstop]
    · next hgoes => simpa [hgoes] using ih

end TakeThrough

/-! ### Sorted lists -/

section Sorted

variable [LinearOrder β] {key : α → β} {items : List α}

/-- The stable sort of `slice::sort_by_key`. -/
def sortByKey (key : α → β) (items : List α) : List α :=
  items.insertionSort fun left right => key left ≤ key right

theorem mem_sortByKey {item : α} : item ∈ sortByKey key items ↔ item ∈ items := mem_insertionSort _

theorem sortByKey_eq_nil_iff : sortByKey key items = [] ↔ items = [] := by
  rw [← length_eq_zero_iff, sortByKey, length_insertionSort, length_eq_zero_iff]

theorem sortByKey_pairwise : (sortByKey key items).Pairwise fun left right => key left ≤ key right :=
  haveI : Std.Total fun left right : α => key left ≤ key right :=
    ⟨fun left right => le_total (key left) (key right)⟩
  haveI : IsTrans α fun left right => key left ≤ key right := ⟨fun _ _ _ => le_trans⟩
  pairwise_insertionSort _ _

/-- A list with rising keys is what its elements are sorted to, in whatever order
they come. -/
theorem sortByKey_eq_of_perm {sorted : List α} (hperm : items.Perm sorted)
    (hsorted : sorted.Pairwise fun left right => key left < key right) :
    sortByKey key items = sorted := by
  have hsame : (sortByKey key items).Perm sorted := (perm_insertionSort _ items).trans hperm
  refine hsame.eq_of_pairwise ?_ sortByKey_pairwise (hsorted.imp fun h => h.le)
  intro left right hleft hright hle hge
  exact eq_of_key_eq (hsorted.imp fun h => h.ne) (hsame.subset hleft) hright (le_antisymm hle hge)

section

variable (hsorted : items.Pairwise fun left right => key left ≤ key right)

include hsorted

/-- In a sorted list the elements past a bound are the ones from the first of them
on. -/
theorem filter_eq_dropWhile {bound : β} :
    items.filter (fun item => decide (bound < key item)) =
      items.dropWhile fun item => decide (key item ≤ bound) := by
  induction items with
  | nil => rfl
  | cons item rest ih =>
    obtain ⟨hhead, hrest⟩ := pairwise_cons.mp hsorted
    rw [filter_cons, dropWhile_cons]
    by_cases hpast : bound < key item
    · have hall : rest.filter (fun item => decide (bound < key item)) = rest :=
        filter_eq_self.mpr fun other hother =>
          decide_eq_true (lt_of_lt_of_le hpast (hhead other hother))
      rw [if_pos (decide_eq_true hpast), if_neg (by simpa using hpast), hall]
    · rw [if_neg (by simpa using hpast), if_pos (by simpa using hpast), ih hrest]

theorem mem_before_of_key_lt {before later : List α} {item other : α}
    (hitems : items = before ++ item :: later) (hother : other ∈ items)
    (hkey : key other < key item) : other ∈ before := by
  rw [hitems] at hsorted hother
  rcases mem_append.mp hother with hpre | hrest
  · exact hpre
  · have hlater := (pairwise_append.mp hsorted).2.1
    rcases mem_cons.mp hrest with rfl | hmem
    · exact absurd hkey (lt_irrefl _)
    · exact absurd hkey (not_lt.mpr ((pairwise_cons.mp hlater).1 other hmem))

theorem not_mem_takeThrough {stop : α → Bool} {item last : α} (hlast : last ∈ items)
    (hstop : stop last = true) (hkey : key last < key item) : item ∉ takeThrough stop items := by
  intro hmem
  obtain ⟨before, later, hsplit⟩ := append_of_mem hlast
  have hitem := (takeThrough_of_split hstop hsplit).subset hmem
  rw [hsplit] at hsorted
  obtain ⟨-, -, hcross⟩ := pairwise_append.mp hsorted
  rcases mem_append.mp hitem with hpre | hsame
  · exact absurd hkey (not_lt.mpr (hcross item hpre last mem_cons_self))
  · rw [mem_singleton.mp hsame] at hkey
    exact lt_irrefl _ hkey

end

/-- The first of the elements with its key is taken if no element with a smaller
key has the property. -/
theorem mem_takeThrough_sortByKey {stop : α → Bool} {item : α}
    (hstop : ∀ other ∈ items, stop other = true → key item ≤ key other) :
    item ∈ takeThrough stop (sortByKey key (item :: items)) := by
  rw [sortByKey, insertionSort_cons_eq_take_drop]
  refine mem_takeThrough_of_before fun other hother => ?_
  by_contra hcontra
  rw [Bool.not_eq_false] at hcontra
  have hmem := (mem_insertionSort _).mp (takeWhile_subset _ hother)
  have hless := mem_takeWhile_imp hother
  simp only [decide_eq_true_eq] at hless
  exact hless (hstop other hmem hcontra)

end Sorted

/-- The elements that are not the same as the one that is kept before them. -/
def dedupAfter (same : α → α → Bool) (last : α) : List α → List α
  | [] => []
  | item :: rest =>
    if same item last then dedupAfter same last rest else item :: dedupAfter same item rest

/-- The list without an element that is the same as the one kept before it, as
`Vec::dedup_by`. -/
def dedupBy (same : α → α → Bool) : List α → List α
  | [] => []
  | first :: rest => first :: dedupAfter same first rest

section FirstOfEach

variable [LinearOrder β] {key : α → β} {items : List α} {same : α → α → Bool}

theorem filter_sortByKey {ofKey : α → Bool} {k : β} (hkey : ∀ item, ofKey item = true ↔ key item = k) :
    (sortByKey key items).filter ofKey = items.filter ofKey := by
  have hequal : (items.filter ofKey).Pairwise fun left right => key left ≤ key right := by
    refine pairwise_iff_forall_sublist.mpr fun {left right} hsub => ?_
    have hboth : ∀ item ∈ [left, right], key item = k := fun item hitem =>
      (hkey item).mp (mem_filter.mp (hsub.subset hitem)).2
    rw [hboth left (by simp), hboth right (by simp)]
  have hsublist := (sublist_insertionSort hequal filter_sublist).filter ofKey
  simp only [filter_filter, Bool.and_self] at hsublist
  refine (hsublist.eq_of_length_le ?_).symm
  exact Nat.le_of_eq ((perm_insertionSort _ items).filter _).length_eq

variable (hsame : ∀ item last, same item last = true ↔ key item = key last)
include hsame

theorem find?_sortByKey (item : α) :
    (sortByKey key items).find? (same · item) = items.find? (same · item) := by
  rw [← head?_filter, ← head?_filter, filter_sortByKey (hsame · item)]

theorem dedupAfter_spec {last : α}
    (hsorted : (last :: items).Pairwise fun left right => key left ≤ key right) :
    ((last :: dedupAfter same last items).Pairwise fun left right => key left < key right) ∧
      ∀ item, item ∈ last :: dedupAfter same last items ↔
        (last :: items).find? (same · item) = some item := by
  induction items generalizing last with
  | nil =>
    refine ⟨pairwise_singleton _ _, fun item => ?_⟩
    rw [dedupAfter, mem_singleton, find?_singleton]
    constructor
    · rintro rfl
      rw [if_pos ((hsame _ _).mpr rfl)]
    · intro hfind
      split at hfind
      · exact (Option.some.inj hfind).symm
      · cases hfind
  | cons first rest ih =>
    obtain ⟨hlast, hrest⟩ := pairwise_cons.mp hsorted
    rw [dedupAfter]
    split
    case isTrue heq =>
      -- the element is dropped, and its key is that of the one before it
      obtain ⟨hlt, hmem⟩ := ih (hsorted.sublist (List.Sublist.cons_cons last
        (sublist_cons_self first rest)))
      refine ⟨hlt, fun item => (hmem item).trans ?_⟩
      have halike : same first item = same last item := by
        rw [Bool.eq_iff_iff, hsame, hsame, (hsame first last).mp heq]
      rw [find?_cons, find?_cons, find?_cons, halike]
      cases same last item <;> rfl
    case isFalse hne =>
      obtain ⟨hlt, hmem⟩ := ih hrest
      have hfirst : key last < key first :=
        lt_of_le_of_ne (hlast first mem_cons_self) fun h => hne ((hsame first last).mpr h.symm)
      have habove : ∀ item ∈ first :: dedupAfter same first rest, key last < key item := by
        intro item hitem
        rcases mem_cons.mp hitem with rfl | hlater
        · exact hfirst
        · exact hfirst.trans (rel_of_pairwise_cons hlt hlater)
      refine ⟨pairwise_cons.mpr ⟨habove, hlt⟩, fun item => ?_⟩
      rw [mem_cons, find?_cons]
      cases hitem : same last item with
      | true =>
        have hkey := (hsame last item).mp hitem
        refine ⟨fun h => ?_, fun h => .inl (Option.some.inj h).symm⟩
        exact congrArg some (h.resolve_right fun h => (habove item h).ne hkey).symm
      | false =>
        refine ⟨fun h => (hmem item).mp (h.resolve_left fun h => ?_), fun h =>
          .inr ((hmem item).mpr h)⟩
        rw [h, (hsame last last).mpr rfl] at hitem
        cases hitem

/-- Sorted by the key and without the further elements of each key, a list has its
elements with rising keys, and each is the first of the list with its key. -/
theorem dedupBy_sortByKey :
    ((dedupBy same (sortByKey key items)).Pairwise fun left right => key left < key right) ∧
      ∀ item, item ∈ dedupBy same (sortByKey key items) ↔
        items.find? (same · item) = some item := by
  have hspec : ∀ sorted : List α, (sorted.Pairwise fun left right => key left ≤ key right) →
      ((dedupBy same sorted).Pairwise fun left right => key left < key right) ∧
        ∀ item, item ∈ dedupBy same sorted ↔ sorted.find? (same · item) = some item := by
    intro sorted hsorted
    cases sorted with
    | nil => exact ⟨List.Pairwise.nil, fun item => by simp [dedupBy]⟩
    | cons => exact dedupAfter_spec hsame hsorted
  obtain ⟨hlt, hmem⟩ := hspec _ sortByKey_pairwise
  refine ⟨hlt, fun item => (hmem item).trans ?_⟩
  rw [find?_sortByKey hsame]

end FirstOfEach

end PbsGui.Lib
