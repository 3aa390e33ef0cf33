import Mathlib.Logic.Function.Basic

/-!
# A registry whose entries have owners

A map from keys to entries, each with an owner.  An owner puts its entry in place of
whatever is there, and takes it out again only if it is still its own.  Against the
history of the insertions: the entry of a key is that of the owner that came last, for as
long as that owner has not left.
-/

namespace PbsGui.Lib.Registry

open Function

variable {κ α ω : Type*}

/-- The entries are those of the newest owners, as far as they are alive. -/
structure Tracks (owner : α → ω) (entries : κ → Option α) (newest : κ → Option ω)
    (live : ω → Prop) : Prop where
  sound : ∀ key entry, entries key = some entry → newest key = some (owner entry) ∧ live (owner entry)
  complete : ∀ key id, newest key = some id → live id → ∃ entry, entries key = some entry ∧
    owner entry = id

variable {owner : α → ω} {entries : κ → Option α} {newest : κ → Option ω} {live live' : ω → Prop}
  {key other : κ} {entry : α} {id : ω}

namespace Tracks

theorem empty : Tracks owner (fun _ : κ => none) (fun _ => none) live where
  sound _ _ h := by cases h
  complete _ _ h := by cases h

theorem congr (h : Tracks owner entries newest live) (hlive : ∀ id, live' id ↔ live id) :
    Tracks owner entries newest live' where
  sound key entry hentry := by
    obtain ⟨hnew, halive⟩ := h.sound key entry hentry
    exact ⟨hnew, (hlive _).mpr halive⟩
  complete key id hnew halive := h.complete key id hnew ((hlive id).mp halive)

theorem eq_none (h : Tracks owner entries newest live)
    (hgone : ∀ id, newest key = some id → ¬ live id) : entries key = none := by
  cases hentry : entries key with
  | none => rfl
  | some entry =>
    obtain ⟨hnew, halive⟩ := h.sound key entry hentry
    exact absurd halive (hgone _ hnew)

end Tracks

variable [DecidableEq κ]

theorem Tracks.insert (h : Tracks owner entries newest live)
    (hnew : ∀ other, newest other ≠ some (owner entry))
    (hlive : ∀ id, live' id ↔ id = owner entry ∨ live id) :
    Tracks owner (Function.update entries key (some entry))
      (Function.update newest key (some (owner entry))) live' where
  sound other found hfound := by
    by_cases hother : other = key
    · subst hother
      rw [update_self] at hfound ⊢
      cases hfound
      exact ⟨rfl, (hlive _).mpr (.inl rfl)⟩
    · rw [update_of_ne hother] at hfound ⊢
      obtain ⟨hnewest, halive⟩ := h.sound other found hfound
      exact ⟨hnewest, (hlive _).mpr (.inr halive)⟩
  complete other id hnewest halive := by
    by_cases hother : other = key
    · subst hother
      rw [update_self] at hnewest ⊢
      exact ⟨entry, rfl, Option.some.inj hnewest⟩
    · rw [update_of_ne hother] at hnewest ⊢
      rcases (hlive id).mp halive with rfl | hold
      · exact absurd hnewest (hnew other)
      · exact h.complete other id hnewest hold

variable [DecidableEq ω]

/-- Take out the entry of a key if it belongs to the owner. -/
def removeOwned (owner : α → ω) (entries : κ → Option α) (key : κ) (id : ω) : κ → Option α :=
  if (entries key).map owner = some id then Function.update entries key none else entries

theorem removeOwned_of_ne (h : entries other = some entry) (hne : owner entry ≠ id) :
    removeOwned owner entries key id other = some entry := by
  unfold removeOwned
  split
  · rename_i hown
    have hkey : other ≠ key := by
      rintro rfl
      rw [h] at hown
      exact hne (Option.some.inj hown)
    rw [update_of_ne hkey, h]
  · exact h

theorem eq_some_of_removeOwned (h : removeOwned owner entries key id other = some entry) :
    entries other = some entry ∧ (other = key → owner entry ≠ id) := by
  unfold removeOwned at h
  split at h
  · by_cases hkey : other = key
    · rw [hkey, update_self] at h
      cases h
    · rw [update_of_ne hkey] at h
      exact ⟨h, fun heq => absurd heq hkey⟩
  · rename_i hown
    refine ⟨h, ?_⟩
    rintro rfl howner
    rw [h] at hown
    exact hown (congrArg some howner)

theorem Tracks.remove (h : Tracks owner entries newest live)
    (hkey : ∀ other, newest other = some id → other = key)
    (hlive : ∀ other, live' other ↔ other ≠ id ∧ live other) :
    Tracks owner (removeOwned owner entries key id) newest live' where
  sound other entry hentry := by
    obtain ⟨hold, hown⟩ := eq_some_of_removeOwned hentry
    obtain ⟨hnew, halive⟩ := h.sound other entry hold
    refine ⟨hnew, (hlive _).mpr ⟨fun heq => ?_, halive⟩⟩
    exact hown (hkey other (heq ▸ hnew)) heq
  complete other kept hnew halive := by
    obtain ⟨hne, hold⟩ := (hlive kept).mp halive
    obtain ⟨entry, hentry, rfl⟩ := h.complete other kept hnew hold
    exact ⟨entry, removeOwned_of_ne hentry hne, rfl⟩

end PbsGui.Lib.Registry
