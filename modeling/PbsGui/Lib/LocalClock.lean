import Mathlib.Order.Bounds.Defs
import PbsGui.Lib.Calendar

/-!
# Local clocks

A clock that shows UTC plus an offset, which may change at any instant.  Where the offset
falls, a local time is shown twice; where it jumps forward, the local times in between are
shown at no instant.  A zone is exact if it finds the instants that show a local time.
-/

namespace PbsGui.Lib

section Offsets

variable (offset : Int → Int)

/-- The local time that is shown at an instant. -/
def Shows (instant localTime : Int) : Prop := instant + offset instant = localTime

def NeverShown (localTime : Int) : Prop := ∀ instant, ¬ Shows offset instant localTime

def FirstShows (localTime instant : Int) : Prop :=
  IsLeast {instant | Shows offset instant localTime} instant

/-- A local time that the clock jumps over at an instant. -/
def InGap (instant localTime : Int) : Prop :=
  instant + offset (instant - 1) ≤ localTime ∧ localTime < instant + offset instant

end Offsets

variable {offset : Int → Int} {instant other localTime : Int}

theorem FirstShows.unique (h : FirstShows offset localTime instant)
    (h' : FirstShows offset localTime other) : instant = other :=
  Int.le_antisymm (h.2 h'.1) (h'.2 h.1)

theorem firstShows_iff :
    FirstShows offset localTime instant ↔
      Shows offset instant localTime ∧ ∀ earlier < instant, ¬ Shows offset earlier localTime := by
  constructor
  · rintro ⟨hshows, hleast⟩
    refine ⟨hshows, fun earlier hlt hearlier => ?_⟩
    have := hleast hearlier
    omega
  · rintro ⟨hshows, hnone⟩
    refine ⟨hshows, fun other hother => ?_⟩
    by_contra hlt
    exact hnone other (by omega) hother

def LocalResult.Finds (offset : Int → Int) (localTime : Int) : LocalResult → Prop
  | .single instant => ∀ other, Shows offset other localTime ↔ other = instant
  | .ambiguous first last =>
    FirstShows offset localTime first ∧ Shows offset last localTime ∧ first < last
  | .none => NeverShown offset localTime

variable {result : LocalResult}

theorem LocalResult.Finds.earliest_eq_some_iff (h : result.Finds offset localTime) :
    result.earliest = some instant ↔ FirstShows offset localTime instant := by
  cases result with
  | single found =>
    have hfound : FirstShows offset localTime found :=
      ⟨(h found).mpr rfl, fun other hother => Int.le_of_eq ((h other).mp hother).symm⟩
    simp only [earliest, Option.some.injEq]
    constructor
    · rintro rfl
      exact hfound
    · exact hfound.unique
  | ambiguous =>
    simp only [earliest, Option.some.injEq]
    constructor
    · rintro rfl
      exact h.1
    · exact h.1.unique
  | none =>
    simp only [earliest, reduceCtorEq, false_iff]
    exact fun hfirst => h instant hfirst.1

theorem LocalResult.Finds.earliest_eq_none_iff (h : result.Finds offset localTime) :
    result.earliest = Option.none ↔ NeverShown offset localTime := by
  cases result with
  | single found =>
    simp only [earliest, reduceCtorEq, false_iff]
    exact fun hnever => hnever found ((h found).mpr rfl)
  | ambiguous first =>
    simp only [earliest, reduceCtorEq, false_iff]
    exact fun hnever => hnever first h.1.1
  | none => exact iff_of_true rfl h

namespace TimeZone

/-- A zone that finds the instants that show a local time. -/
def Exact (zone : TimeZone) : Prop :=
  ∀ localTime, (zone.fromLocal localTime).Finds zone.offset localTime

/-- A zone whose offset jumps once from `before` to `after`, at the instant `jump`. -/
def jumping (jump before after : Int) : TimeZone where
  offset := fun instant => if instant < jump then before else after
  fromLocal := fun localTime =>
    if localTime - before < jump then .single (localTime - before)
    else if jump ≤ localTime - after then .single (localTime - after)
    else .none

variable {jump before after : Int}

theorem shows_jumping :
    Shows (jumping jump before after).offset instant localTime ↔
      (instant < jump ∧ instant + before = localTime) ∨
        (jump ≤ instant ∧ instant + after = localTime) := by
  simp only [Shows, jumping]
  split <;> omega

theorem exact_jumping (h : before < after) : (jumping jump before after).Exact := by
  intro localTime
  rw [show (jumping jump before after).fromLocal localTime =
    if localTime - before < jump then .single (localTime - before)
    else if jump ≤ localTime - after then .single (localTime - after) else .none from rfl]
  split
  · intro other
    rw [shows_jumping]
    omega
  · split
    · intro other
      rw [shows_jumping]
      omega
    · intro other
      rw [shows_jumping]
      omega

end TimeZone

end PbsGui.Lib
