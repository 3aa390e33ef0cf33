import PbsGui.Lib.Glob

/-!
# File specifications

`glob_match` (`matchspec.rs`) matches a file name against the file specification of a VSS
writer.  It goes through pattern and text with two cursors and remembers the last `*` it has
passed.  Where the two differ, that `*` takes one more character and the cursors go back to
it.
-/

namespace PbsGui.Ad

open Lib List

/-- The cursors of the matcher, and the last star with the place in the text up to which it
reaches. -/
structure GlobCursor (pat text : List Char) where
  p : Nat
  t : Nat
  star : Option Nat
  starT : Nat
  p_le : p ≤ pat.length
  t_le : t ≤ text.length
  star_lt : ∀ sp, star = some sp → sp < p
  starT_le : ∀ sp, star = some sp → starT ≤ t

namespace GlobCursor

variable {pat text : List Char} (cursor : GlobCursor pat text)

def start (pat text : List Char) : GlobCursor pat text where
  p := 0
  t := 0
  star := none
  starT := 0
  p_le := Nat.zero_le _
  t_le := Nat.zero_le _
  star_lt _ h := nomatch h
  starT_le _ h := nomatch h

def advance (hp : cursor.p < pat.length) (ht : cursor.t < text.length) : GlobCursor pat text :=
  { cursor with
    p := cursor.p + 1
    t := cursor.t + 1
    p_le := hp
    t_le := ht
    star_lt := fun sp h => Nat.lt_succ_of_lt (cursor.star_lt sp h)
    starT_le := fun sp h => Nat.le_succ_of_le (cursor.starT_le sp h) }

def passStar (hp : cursor.p < pat.length) : GlobCursor pat text :=
  { cursor with
    p := cursor.p + 1
    star := some cursor.p
    starT := cursor.t
    p_le := hp
    star_lt := fun _ h => Option.some.inj h ▸ Nat.lt_succ_self _
    starT_le := fun _ _ => Nat.le_refl _ }

def backtrack {sp : Nat} (hstar : cursor.star = some sp) (ht : cursor.t < text.length) :
    GlobCursor pat text :=
  { cursor with
    p := sp + 1
    t := cursor.starT + 1
    starT := cursor.starT + 1
    p_le := Nat.le_trans (cursor.star_lt sp hstar) cursor.p_le
    t_le := Nat.lt_of_le_of_lt (cursor.starT_le sp hstar) ht
    star_lt := fun _ h => Option.some.inj (hstar.symm.trans h) ▸ Nat.lt_succ_self _
    starT_le := fun _ _ => Nat.le_refl _ }

/-- The stars at the end of a pattern, as the last loop passes them. -/
def skipStars (pat : List Char) (p : Nat) : Nat :=
  if _hp : p < pat.length ∧ pat[p]? = some '*' then skipStars pat (p + 1) else p
termination_by pat.length - p

/-- How much of the pattern stands behind the last star. -/
def behindStar : Nat := pat.length - cursor.star.elim 0 (· + 1)

theorem behindStar_passStar (hp : cursor.p < pat.length) :
    (cursor.passStar hp).behindStar < cursor.behindStar := by
  have hbehind : cursor.star.elim 0 (· + 1) ≤ cursor.p := by
    cases hstar : cursor.star with
    | none => exact Nat.zero_le _
    | some sp => exact cursor.star_lt sp hstar
  simp only [behindStar, passStar, Option.elim_some]
  omega

/-- The loop.  A reset of the cursors moves the end of the last star on, and a later star
has less of the pattern behind it, so the loop ends. -/
def run (cursor : GlobCursor pat text) : Bool :=
  if ht : cursor.t < text.length then
    if hsame : cursor.p < pat.length ∧
        (pat[cursor.p]? = some '?' ∨ pat[cursor.p]? = text[cursor.t]?) then
      run (cursor.advance hsame.1 ht)
    else if hstar : cursor.p < pat.length ∧ pat[cursor.p]? = some '*' then
      run (cursor.passStar hstar.1)
    else
      match hlast : cursor.star with
      | some _ => run (cursor.backtrack hlast ht)
      | none => false
  else skipStars pat cursor.p == pat.length
termination_by (cursor.behindStar, text.length - cursor.starT, text.length - cursor.t)
decreasing_by
  · exact .right _ (.right _ (Nat.sub_lt_sub_left ht (Nat.lt_succ_self _)))
  · exact .left _ _ (cursor.behindStar_passStar hstar.1)
  · have hreach := Nat.lt_of_le_of_lt (cursor.starT_le _ hlast) ht
    exact .right _ (.left _ _ (Nat.sub_lt_sub_left hreach (Nat.lt_succ_self _)))

end GlobCursor

def globMatch (pat text : List Char) : Bool := (GlobCursor.start pat text).run

/-- `filespec_matches`; `lowercase` is `str::to_lowercase`. -/
def filespecMatches (lowercase : List Char → List Char) (spec name : List Char) : Bool :=
  globMatch (lowercase spec) (lowercase name)

/-! ### What it matches -/

def globToken (c : Char) : GlobToken Char :=
  if c = '*' then .run else if c = '?' then .one else .char c

def globTokens (pat : List Char) : List (GlobToken Char) := pat.map globToken

theorem globToken_accepts {c : Char} (hc : c ≠ '*') (other : Char) :
    (globToken c).Accepts other ↔ c = '?' ∨ c = other := by
  rw [globToken, if_neg hc]
  split
  · next hone => simp [GlobToken.Accepts, hone]
  · next hone => simp [GlobToken.Accepts, hone]

theorem globToken_eq_run_iff {c : Char} : globToken c = .run ↔ c = '*' := by
  rw [globToken]
  split
  · next hrun => exact ⟨fun _ => hrun, fun _ => rfl⟩
  · next hrun => split <;> exact ⟨nofun, fun h => absurd h hrun⟩

theorem drop_of_getElem? {α : Type} {items : List α} {i : Nat} {item : α}
    (hitem : items[i]? = some item) : items.drop i = item :: items.drop (i + 1) := by
  rw [drop_eq_getElem?_toList_append, hitem]
  rfl

theorem globTokens_drop {pat : List Char} {p : Nat} {c : Char} (hc : pat[p]? = some c) :
    (globTokens pat).drop p = globToken c :: (globTokens pat).drop (p + 1) :=
  drop_of_getElem? (by rw [globTokens, getElem?_map, hc]; rfl)

namespace GlobCursor

variable {pat text : List Char} {cursor : GlobCursor pat text}

/-- How far the matcher has come: the rest decides, or the pattern from the last star on does,
of which the tokens up to the cursor cover the text up to the other. -/
def Progress (cursor : GlobCursor pat text) : Prop :=
  match cursor.star with
  | none => GlobMatches (globTokens pat) text ↔
      GlobMatches ((globTokens pat).drop cursor.p) (text.drop cursor.t)
  | some sp =>
    (GlobMatches (globTokens pat) text ↔
      GlobMatches (.run :: (globTokens pat).drop (sp + 1)) (text.drop cursor.starT)) ∧
    ∃ seg mid, (globTokens pat).drop (sp + 1) = seg ++ (globTokens pat).drop cursor.p ∧
      text.drop cursor.starT = mid ++ text.drop cursor.t ∧
      List.Forall₂ GlobToken.Accepts seg mid

theorem Progress.start : (GlobCursor.start pat text).Progress := Iff.rfl

theorem Progress.advance (h : cursor.Progress) {c other : Char} (hc : pat[cursor.p]? = some c)
    (hother : text[cursor.t]? = some other) (hacc : (globToken c).Accepts other)
    (hp : cursor.p < pat.length) (ht : cursor.t < text.length) :
    (cursor.advance hp ht).Progress := by
  have hpat := globTokens_drop hc
  have htext := drop_of_getElem? hother
  unfold Progress at h ⊢
  simp only [GlobCursor.advance]
  split at h
  · rw [hpat, htext, GlobMatches.cons_iff_of_accepts hacc] at h
    exact h
  · obtain ⟨hwhole, seg, mid, hseg, hmid, hcov⟩ := h
    refine ⟨hwhole, seg ++ [globToken c], mid ++ [other], ?_, ?_, ?_⟩
    · rw [hseg, hpat, append_assoc, singleton_append]
    · rw [hmid, htext, append_assoc, singleton_append]
    · exact rel_append hcov (.cons hacc .nil)

theorem Progress.passStar (h : cursor.Progress) (hstar : pat[cursor.p]? = some '*')
    (hp : cursor.p < pat.length) : (cursor.passStar hp).Progress := by
  have hpat := globTokens_drop hstar
  rw [globToken_eq_run_iff.mpr rfl] at hpat
  refine ⟨?_, [], [], rfl, rfl, .nil⟩
  unfold Progress at h
  split at h
  · rwa [hpat] at h
  · obtain ⟨hwhole, seg, mid, hseg, hmid, hcov⟩ := h
    rw [hwhole, hseg, hmid, hpat, GlobMatches.run_run_iff hcov]
    rfl

theorem Progress.backtrack (h : cursor.Progress) {sp : Nat} (hlast : cursor.star = some sp)
    (ht : cursor.t < text.length)
    (hdiffers : ¬ GlobMatches ((globTokens pat).drop cursor.p) (text.drop cursor.t)) :
    (cursor.backtrack hlast ht).Progress := by
  have hreach : cursor.starT < text.length := Nat.lt_of_le_of_lt (cursor.starT_le sp hlast) ht
  have htext := drop_eq_getElem_cons hreach
  unfold Progress at h ⊢
  simp only [GlobCursor.backtrack, hlast] at h ⊢
  obtain ⟨hwhole, seg, mid, hseg, hmid, hcov⟩ := h
  refine ⟨?_, [], [], rfl, rfl, .nil⟩
  -- the last star does not end here, since what follows it does not match here
  have hhere : ¬ GlobMatches ((globTokens pat).drop (sp + 1)) (text.drop cursor.starT) := by
    rw [hseg, hmid, GlobMatches.append_iff hcov]
    exact hdiffers
  rw [htext] at hhere hwhole
  rw [hwhole, GlobMatches.run_cons_iff, or_iff_right hhere]

theorem Progress.finish (h : cursor.Progress) (ht : ¬ cursor.t < text.length) :
    GlobMatches (globTokens pat) text ↔ ∀ c ∈ pat.drop cursor.p, c = '*' := by
  have hend : text.drop cursor.t = [] := drop_eq_nil_of_le (Nat.le_of_not_lt ht)
  have hstars : GlobMatches ((globTokens pat).drop cursor.p) [] ↔
      ∀ c ∈ pat.drop cursor.p, c = '*' := by
    rw [GlobMatches.nil_iff, globTokens, ← map_drop, forall_mem_map]
    simp only [globToken_eq_run_iff]
  unfold Progress at h
  rw [hend] at h
  split at h
  · exact h.trans hstars
  · obtain ⟨hwhole, seg, mid, hseg, hmid, hcov⟩ := h
    rw [append_nil] at hmid
    rw [hwhole, hseg, hmid, GlobMatches.run_append_iff hcov]
    exact hstars

theorem skipStars_eq_length_iff {p : Nat} (hp : p ≤ pat.length) :
    skipStars pat p = pat.length ↔ ∀ c ∈ pat.drop p, c = '*' := by
  fun_induction skipStars pat p with
  | case1 p hstar ih =>
    rw [drop_of_getElem? hstar.2, forall_mem_cons]
    exact (ih hstar.1).trans (and_iff_right rfl).symm
  | case2 p hstar =>
    constructor
    · rintro rfl
      rw [drop_length]
      exact forall_mem_nil _
    · intro hall
      by_contra hshort
      have hlt : p < pat.length := Nat.lt_of_le_of_ne hp hshort
      have hdrop := drop_eq_getElem_cons hlt
      rw [hdrop] at hall
      refine hstar ⟨hlt, ?_⟩
      rw [getElem?_eq_getElem hlt, hall _ mem_cons_self]

theorem not_matches_here {p t : Nat} (ht : t < text.length)
    (hsame : ¬ (p < pat.length ∧ (pat[p]? = some '?' ∨ pat[p]? = text[t]?)))
    (hstar : ¬ (p < pat.length ∧ pat[p]? = some '*')) :
    ¬ GlobMatches ((globTokens pat).drop p) (text.drop t) := by
  rw [drop_eq_getElem_cons ht]
  by_cases hp : p < pat.length
  · have hc := getElem?_eq_getElem hp
    have hrun : pat[p] ≠ '*' := fun heq => hstar ⟨hp, by rw [hc, heq]⟩
    rw [globTokens_drop hc]
    refine GlobMatches.not_cons_of_refuses (fun h => hrun (globToken_eq_run_iff.mp h)) ?_
    rw [globToken_accepts hrun]
    rintro (hone | hsingle)
    · exact hsame ⟨hp, .inl (by rw [hc, hone])⟩
    · exact hsame ⟨hp, .inr (by rw [hc, hsingle, getElem?_eq_getElem ht])⟩
  · have hnil : (globTokens pat).drop p = [] := by
      rw [globTokens, ← map_drop, drop_eq_nil_of_le (Nat.le_of_not_lt hp)]
      rfl
    rw [hnil]
    exact GlobMatches.not_nil_cons

theorem run_eq_true_iff (htext : '*' ∉ text) (h : cursor.Progress) :
    cursor.run = true ↔ GlobMatches (globTokens pat) text := by
  -- along the loop: both go on, a star is passed, the last star takes more, or it ends
  fun_induction run cursor with
  | case1 cursor ht hsame ih =>
    have hc := getElem?_eq_getElem hsame.1
    have hother := getElem?_eq_getElem ht
    have hnotStar : text[cursor.t] ≠ '*' := fun heq => htext (heq ▸ getElem_mem ht)
    refine ih (h.advance hc hother ?_ hsame.1 ht)
    rcases hsame.2 with hone | hsingle
    · rw [hc] at hone
      rw [Option.some.inj hone]
      trivial
    · rw [Option.some.inj (hc.symm.trans (hsingle.trans hother))]
      exact (globToken_accepts hnotStar _).mpr (.inr rfl)
  | case2 cursor ht hsame hstar ih => exact ih (h.passStar hstar.2 hstar.1)
  | case3 cursor ht hsame hstar sp hlast ih =>
    exact ih (h.backtrack hlast ht (not_matches_here ht hsame hstar))
  | case4 cursor ht hsame hstar hnone =>
    unfold Progress at h
    rw [hnone] at h
    exact ⟨nofun, fun hmatches => absurd (h.mp hmatches) (not_matches_here ht hsame hstar)⟩
  | case5 cursor ht => rw [h.finish ht, beq_iff_eq, skipStars_eq_length_iff cursor.p_le]

end GlobCursor

/-- The matcher answers for every pattern whether a text without stars matches it. -/
theorem globMatch_iff (pat : List Char) {text : List Char} (htext : '*' ∉ text) :
    globMatch pat text = true ↔ GlobMatches (globTokens pat) text :=
  GlobCursor.run_eq_true_iff htext .start

/-- The star has to give up the first place where the next character stands. -/
theorem globMatch_backtracks :
    '*' ∉ ['b', 'a', 'a', 'c'] ∧ globMatch ['*', 'a', '?'] ['b', 'a', 'a', 'c'] = true :=
  ⟨by decide, (globMatch_iff ['*', 'a', '?'] (by decide)).mpr
    (.run ['b', 'a'] (.single rfl (.single trivial .nil)))⟩

end PbsGui.Ad
