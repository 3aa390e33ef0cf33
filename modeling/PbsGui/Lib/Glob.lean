import Mathlib.Data.List.Basic
import Mathlib.Data.List.Forall2

/-!
# Patterns with wildcards

A pattern is a list of tokens: a run of any characters, any one character, or a character
for itself.  A matcher that goes from left to right has to come back only to the last run it
has passed: that run can take whatever a later cover of the tokens before it would have left.
-/

namespace PbsGui.Lib

open List

variable {α : Type}

inductive GlobToken (α : Type)
  | run
  | one
  | char (c : α)

def GlobToken.Accepts : GlobToken α → α → Prop
  | .run, _ => False
  | .one, _ => True
  | .char c, other => c = other

/-- The text matches the pattern. -/
inductive GlobMatches : List (GlobToken α) → List α → Prop
  | nil : GlobMatches [] []
  | run (skipped : List α) {pattern : List (GlobToken α)} {text : List α}
      (hrest : GlobMatches pattern text) : GlobMatches (.run :: pattern) (skipped ++ text)
  | single {token : GlobToken α} {c : α} {pattern : List (GlobToken α)} {text : List α}
      (haccepts : token.Accepts c) (hrest : GlobMatches pattern text) :
      GlobMatches (token :: pattern) (c :: text)

namespace GlobMatches

variable {token : GlobToken α} {c : α} {pattern seg : List (GlobToken α)} {text mid : List α}

theorem not_nil_cons : ¬ GlobMatches ([] : List (GlobToken α)) (c :: text) := nofun

theorem cons_iff_of_accepts (hacc : token.Accepts c) :
    GlobMatches (token :: pattern) (c :: text) ↔ GlobMatches pattern text := by
  refine ⟨fun h => ?_, single hacc⟩
  generalize hfull : c :: text = full at h
  cases h with
  | run => exact hacc.elim
  | single _ hrest =>
    cases hfull
    exact hrest

theorem not_cons_of_refuses (hrun : token ≠ .run) (hrefuses : ¬ token.Accepts c) :
    ¬ GlobMatches (token :: pattern) (c :: text) := by
  intro h
  generalize hfull : c :: text = full at h
  cases h with
  | run => exact hrun rfl
  | single hacc =>
    cases hfull
    exact hrefuses hacc

theorem run_iff : GlobMatches (.run :: pattern) text ↔
    ∃ skipped rest, text = skipped ++ rest ∧ GlobMatches pattern rest := by
  constructor
  · intro h
    cases h with
    | run skipped hrest => exact ⟨skipped, _, rfl, hrest⟩
    | single hacc => exact hacc.elim
  · rintro ⟨skipped, rest, rfl, hrest⟩
    exact .run skipped hrest

theorem run_cons_iff : GlobMatches (.run :: pattern) (c :: text) ↔
    GlobMatches pattern (c :: text) ∨ GlobMatches (.run :: pattern) text := by
  rw [run_iff]
  constructor
  · rintro ⟨skipped, rest, htext, hrest⟩
    cases skipped with
    | nil => exact .inl (htext ▸ hrest)
    | cons first skipped =>
      obtain ⟨-, rfl⟩ := cons.inj htext
      exact .inr (.run skipped hrest)
  · rintro (hnothing | hmore)
    · exact ⟨[], c :: text, rfl, hnothing⟩
    · obtain ⟨skipped, rest, rfl, hrest⟩ := run_iff.mp hmore
      exact ⟨c :: skipped, rest, rfl, hrest⟩

theorem run_of_suffix {rest : List α} (hsuff : rest <:+ text)
    (h : GlobMatches (.run :: pattern) rest) : GlobMatches (.run :: pattern) text := by
  obtain ⟨front, rfl⟩ := hsuff
  obtain ⟨skipped, later, rfl, hlater⟩ := run_iff.mp h
  rw [← append_assoc]
  exact .run (front ++ skipped) hlater

theorem nil_iff : GlobMatches pattern [] ↔ ∀ token ∈ pattern, token = .run := by
  induction pattern with
  | nil => exact ⟨fun _ => forall_mem_nil _, fun _ => .nil⟩
  | cons token pattern ih =>
    rw [forall_mem_cons]
    constructor
    · intro h
      generalize hnil : ([] : List α) = text at h
      cases h with
      | run skipped hrest =>
        obtain ⟨-, rfl⟩ := append_eq_nil_iff.mp hnil.symm
        exact ⟨rfl, ih.mp hrest⟩
      | single => cases hnil
    · rintro ⟨rfl, hrest⟩
      exact .run [] (ih.mpr hrest)

variable (hcovers : List.Forall₂ GlobToken.Accepts seg mid)

include hcovers

theorem append_iff : GlobMatches (seg ++ pattern) (mid ++ text) ↔ GlobMatches pattern text := by
  induction hcovers with
  | nil => rfl
  | cons hacc _ ih => exact (cons_iff_of_accepts hacc).trans ih

theorem exists_front (h : GlobMatches (seg ++ pattern) text) :
    ∃ front rest, text = front ++ rest ∧ front.length = mid.length ∧ GlobMatches pattern rest := by
  induction hcovers generalizing text with
  | nil => exact ⟨[], text, rfl, rfl, h⟩
  | cons hacc _ ih =>
    cases h with
    | run => exact hacc.elim
    | single _ hrest =>
      obtain ⟨front, rest, rfl, hlen, hmatches⟩ := ih hrest
      exact ⟨_ :: front, rest, rfl, congrArg Nat.succ hlen, hmatches⟩

/-- Behind a run and tokens that cover what comes first, a second run makes the first one
immaterial. -/
theorem run_run_iff :
    GlobMatches (.run :: (seg ++ .run :: pattern)) (mid ++ text) ↔
      GlobMatches (.run :: pattern) text := by
  refine ⟨fun h => ?_, fun h => .run [] ((append_iff hcovers).mpr h)⟩
  obtain ⟨skipped, later, htext, hlater⟩ := run_iff.mp h
  obtain ⟨front, rest, rfl, hlen, hrest⟩ := exists_front hcovers hlater
  -- the cover that was used ends where the first one does, or later
  refine run_of_suffix (suffix_of_suffix_length_le ?_ (suffix_append mid text) ?_) hrest
  · rw [htext, ← append_assoc]
    exact suffix_append _ rest
  · have htotal := congrArg length htext
    simp only [length_append] at htotal
    omega

/-- Behind a run, tokens that cover the whole text leave nothing for the pattern. -/
theorem run_append_iff : GlobMatches (.run :: (seg ++ pattern)) mid ↔ GlobMatches pattern [] := by
  constructor
  · intro h
    obtain ⟨skipped, later, htext, hlater⟩ := run_iff.mp h
    obtain ⟨front, rest, rfl, hlen, hrest⟩ := exists_front hcovers hlater
    have htotal := congrArg length htext
    simp only [length_append] at htotal
    obtain rfl : rest = [] := eq_nil_of_length_eq_zero (by omega)
    exact hrest
  · intro h
    have hmatches := (append_iff hcovers).mpr h
    rw [append_nil] at hmatches
    exact .run [] hmatches

end GlobMatches

end PbsGui.Lib
