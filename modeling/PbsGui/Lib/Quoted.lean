import Mathlib.Data.List.DropRight

/-!
# Quoted literals and last parts

A literal between quotes, in which a quote is doubled, is read back whatever it contains.
A text is cut behind its last separator, and a text that is put together from a front
that ends there and a rest without separators is cut at the same place.  Both are about
lists over any type.
-/

namespace PbsGui.Lib

open List

section Quotes

variable {α : Type*} [DecidableEq α] {mark : α}

def doubleMarks (mark : α) (text : List α) : List α :=
  text.flatMap fun c => if c = mark then [mark, mark] else [c]

/-- The literal up to its closing quote, and the text behind that. -/
def readQuoted (mark : α) : List α → Option (List α × List α)
  | [] => none
  | [c] => if c = mark then some ([], []) else none
  | c :: next :: rest =>
    if c = mark then
      if next = mark then (readQuoted mark rest).map fun (text, later) => (mark :: text, later)
      else some ([], next :: rest)
    else (readQuoted mark (next :: rest)).map fun (text, later) => (c :: text, later)

theorem readQuoted_cons {c : α} (hc : c ≠ mark) (text : List α) :
    readQuoted mark (c :: text) =
      (readQuoted mark text).map fun (text, later) => (c :: text, later) := by
  cases text with
  | nil => simp [readQuoted, hc]
  | cons => rw [readQuoted, if_neg hc]

/-- A literal is read back, if what follows its closing quote is not another one. -/
theorem readQuoted_doubleMarks (text : List α) {later : List α} (h : later.head? ≠ some mark) :
    readQuoted mark (doubleMarks mark text ++ mark :: later) = some (text, later) := by
  induction text with
  | nil =>
    cases later with
    | nil => simp [doubleMarks, readQuoted]
    | cons next =>
      have hnext : next ≠ mark := fun heq => h (by rw [heq]; rfl)
      simp [doubleMarks, readQuoted, hnext]
  | cons c text ih =>
    rw [doubleMarks, flatMap_cons, ← doubleMarks, append_assoc]
    by_cases hc : c = mark
    · rw [if_pos hc, cons_append, cons_append, nil_append, readQuoted, if_pos rfl,
        if_pos rfl, ih, hc]
      rfl
    · rw [if_neg hc, cons_append, nil_append, readQuoted_cons hc, ih]
      rfl

theorem doubleMarks_eq_self {text : List α} (h : mark ∉ text) : doubleMarks mark text = text := by
  induction text with
  | nil => rfl
  | cons c text ih =>
    rw [mem_cons, not_or] at h
    rw [doubleMarks, flatMap_cons, ← doubleMarks, ih h.2, if_neg (Ne.symm h.1), singleton_append]

end Quotes

section LastPart

variable {α : Type*} {free : α → Bool} {front rest : List α}

theorem rtakeWhile_append (hfront : ∀ c, front.getLast? = some c → free c = false)
    (hrest : ∀ c ∈ rest, free c = true) : (front ++ rest).rtakeWhile free = rest := by
  have hnone : front.reverse.takeWhile free = [] := by
    rcases eq_nil_or_concat front with rfl | ⟨init, last, rfl⟩
    · rfl
    · rw [concat_eq_append] at hfront ⊢
      rw [reverse_append, reverse_singleton, singleton_append]
      exact takeWhile_cons_of_neg (by simp [hfront last])
  rw [rtakeWhile, reverse_append,
    takeWhile_append_of_pos fun c hc => hrest c (mem_reverse.mp hc), hnone,
    append_nil, reverse_reverse]

theorem append_free_inj {front' rest' : List α}
    (hfront : ∀ c, front.getLast? = some c → free c = false) (hrest : ∀ c ∈ rest, free c = true)
    (hfront' : ∀ c, front'.getLast? = some c → free c = false)
    (hrest' : ∀ c ∈ rest', free c = true) :
    front ++ rest = front' ++ rest' ↔ front = front' ∧ rest = rest' := by
  constructor
  · intro heq
    have hsame : rest = rest' := by
      rw [← rtakeWhile_append hfront hrest, heq, rtakeWhile_append hfront' hrest']
    subst hsame
    exact ⟨append_cancel_right heq, rfl⟩
  · rintro ⟨rfl, rfl⟩
    rfl

end LastPart

end PbsGui.Lib
