import PbsGui.Engine.LatestOccurrence
import PbsGui.Lib.LocalClock

/-!
# Occurrences in a gap of the clock

Where the clock jumps forward, the local times in between do not exist.  `local_unix`
then takes the time one hour later, which is the end of the gap for one time of day only,
and nothing at all if that time is skipped too.  The search of `latest_occurrence` ends
without a result at the first such date, whatever occurred before it.
-/

namespace PbsGui.Engine

open Lib

section LocalUnix

variable {zone : TimeZone} {date : Date} {hour minute : Nat} {instant : Int}

theorem localUnix_eq_or (hhour : hour ≤ 23) (hminute : minute ≤ 59) :
    localUnix zone date hour minute =
      (zone.fromLocal (TimeZone.localSeconds date hour minute)).earliest.or
        (zone.fromLocal (TimeZone.localSeconds date hour minute + 3600)).earliest := by
  rw [localUnix, if_neg (by omega)]
  cases zone.fromLocal (TimeZone.localSeconds date hour minute) <;> rfl

variable (hzone : zone.Exact) (hhour : hour ≤ 23) (hminute : minute ≤ 59)

include hzone hhour hminute

/-- The first instant that shows the time, or the time an hour later if it is skipped. -/
theorem localUnix_eq_some_iff :
    localUnix zone date hour minute = some instant ↔
      FirstShows zone.offset (TimeZone.localSeconds date hour minute) instant ∨
        (NeverShown zone.offset (TimeZone.localSeconds date hour minute) ∧
          FirstShows zone.offset (TimeZone.localSeconds date hour minute + 3600) instant) := by
  rw [localUnix_eq_or hhour hminute, Option.or_eq_some_iff, (hzone _).earliest_eq_some_iff,
    (hzone _).earliest_eq_none_iff, (hzone _).earliest_eq_some_iff]

theorem localUnix_eq_none_iff :
    localUnix zone date hour minute = none ↔
      NeverShown zone.offset (TimeZone.localSeconds date hour minute) ∧
        NeverShown zone.offset (TimeZone.localSeconds date hour minute + 3600) := by
  rw [localUnix_eq_or hhour hminute, Option.or_eq_none_iff, (hzone _).earliest_eq_none_iff,
    (hzone _).earliest_eq_none_iff]

end LocalUnix

section Search

variable {zone : TimeZone} {schedule : Ipc.Schedule} {hour minute : Nat} {now : Int}

/-- The time of day and the time an hour later are both skipped on a date. -/
def Lost (zone : TimeZone) (hour minute : Nat) (date : Date) : Prop :=
  NeverShown zone.offset (TimeZone.localSeconds date hour minute) ∧
    NeverShown zone.offset (TimeZone.localSeconds date hour minute + 3600)

theorem localUnix_passed (hzone : zone.Exact)
    (hbound : ∀ instant, -86400 < zone.offset instant ∧ zone.offset instant < 86400)
    (hhour : hour ≤ 23) (hminute : minute ≤ 59) {days : Nat} (hdays : 4 ≤ days) {instant : Int}
    (h : localUnix zone ((zone.dateOf now).back days) hour minute = some instant) :
    instant ≤ now := by
  have htoday := dayNumber_dateOf zone now
  have hnow := hbound now
  have hinst := hbound instant
  have hshows : Shows zone.offset instant
        (TimeZone.localSeconds ((zone.dateOf now).back days) hour minute) ∨
      Shows zone.offset instant
        (TimeZone.localSeconds ((zone.dateOf now).back days) hour minute + 3600) := by
    rcases (localUnix_eq_some_iff hzone hhour hminute).mp h with hfirst | ⟨-, hfirst⟩
    · exact .inl hfirst.1
    · exact .inr hfirst.1
  simp only [Shows, TimeZone.localSeconds, Date.dayNumber_back, htoday] at hshows
  omega

/-- A time of day in a gap is moved to the end of the gap if it is an hour before it, and
the search finds an occurrence unless a date on which it is lost is in the way. -/
theorem gap_occurrences_iff (hzone : zone.Exact)
    (hbound : ∀ instant, -86400 < zone.offset instant ∧ zone.offset instant < 86400) :
    (∀ (gapEnd : Int) (date : Date) (hour minute : Nat), hour ≤ 23 → minute ≤ 59 →
      InGap zone.offset gapEnd (TimeZone.localSeconds date hour minute) →
      (localUnix zone date hour minute = some gapEnd ↔
        NeverShown zone.offset (TimeZone.localSeconds date hour minute) ∧
          TimeZone.localSeconds date hour minute + 3600 = gapEnd + zone.offset gapEnd ∧
          ∀ earlier < gapEnd, ¬ Shows zone.offset earlier (gapEnd + zone.offset gapEnd))) ∧
    (∀ (schedule : Ipc.Schedule) (hour minute : Nat) (now : Int),
      validate schedule = .ok () → timeOfDay schedule = some (hour, minute) →
      (∀ days ≤ 62, InCalendar ((zone.dateOf now).back days)) →
      (latestOccurrence zone schedule now ≠ none ↔
        ∀ days ≤ 62, runsOn schedule ((zone.dateOf now).back days) = true →
          Lost zone hour minute ((zone.dateOf now).back days) →
          ∃ later < days, runsOn schedule ((zone.dateOf now).back later) = true ∧
            ∃ instant ≤ now,
              localUnix zone ((zone.dateOf now).back later) hour minute = some instant)) := by
  constructor
  · intro gapEnd date hour minute hhour hminute hgap
    rw [localUnix_eq_some_iff hzone hhour hminute, firstShows_iff, firstShows_iff]
    constructor
    · rintro (⟨hshows, -⟩ | ⟨hnever, hshows, hearlier⟩)
      · unfold Shows at hshows
        have := hgap.2
        omega
      · unfold Shows at hshows
        rw [hshows]
        exact ⟨hnever, rfl, hearlier⟩
    · rintro ⟨hnever, hend, hearlier⟩
      rw [hend]
      exact .inr ⟨hnever, rfl, hearlier⟩
  · intro schedule hour minute now hvalid htime hspan
    obtain ⟨hhour, hminute, -⟩ := validate_timed hvalid htime
    obtain ⟨found, hle, ⟨hruns, hpassed⟩, hover, hlatest⟩ :=
      latestOccurrence_found hvalid htime hspan fun days hdays instant h =>
        localUnix_passed hzone hbound hhour hminute hdays h
    rw [hlatest, ne_eq, Option.map_eq_none_iff]
    constructor
    · intro hsome days hdays hdaysRun hlost
      obtain ⟨instant, hinstant⟩ := Option.ne_none_iff_exists'.mp hsome
      have hnone := (localUnix_eq_none_iff hzone hhour hminute).mpr hlost
      -- the search neither goes past the lost date nor stops at it
      have hlater : found < days := by
        rcases Nat.lt_trichotomy days found with hlt | rfl | hgt
        · obtain ⟨other, hother, -⟩ := hover days hlt hdaysRun
          rw [hnone] at hother
          cases hother
        · exact absurd hnone hsome
        · exact hgt
      exact ⟨found, hlater, hruns, instant, hpassed instant hinstant, hinstant⟩
    · intro hcondition hnone
      obtain ⟨later, hlt, hlaterRuns, instant, hinstant, hunix⟩ := hcondition found hle hruns
        ((localUnix_eq_none_iff hzone hhour hminute).mp hnone)
      obtain ⟨other, hother, hfuture⟩ := hover later hlt hlaterRuns
      rw [hunix] at hother
      cases hother
      omega

end Search

/-- One in the morning UTC on the 29th of March 2026. -/
def springForward : Int := 1774746000

def springDay : Date := ⟨2026, 3, 29, by decide, by decide, by decide, by decide⟩

/-- From two to three o'clock there is no local time on that day. -/
def summerTime : TimeZone := TimeZone.jumping springForward 3600 7200

theorem dateOf_springForward : summerTime.dateOf springForward = springDay :=
  Date.dayNumber_injective (by rw [dayNumber_dateOf]; decide)

theorem summerTime_exact : summerTime.Exact := TimeZone.exact_jumping (by decide)

/-- Two o'clock is moved to the end of the gap, and no gap of an hour loses an
occurrence. -/
theorem springDay_occurrences :
    localUnix summerTime springDay 2 0 = some springForward ∧
      latestOccurrence summerTime (.daily 2 0) springForward ≠ none := by
  have hbound : ∀ instant, -86400 < summerTime.offset instant ∧ summerTime.offset instant < 86400 := by
    intro instant
    simp only [summerTime, TimeZone.jumping]
    split <;> decide
  obtain ⟨hend, hsearch⟩ := gap_occurrences_iff summerTime_exact hbound
  constructor
  · refine (hend springForward springDay 2 0 (by decide) (by decide) ⟨by decide, by decide⟩).mpr
      ⟨fun instant => ?_, by decide, fun earlier hlt => ?_⟩
    · rw [summerTime, TimeZone.shows_jumping]
      simp only [springForward, TimeZone.localSeconds, show springDay.dayNumber = 20541 by decide]
      omega
    · rw [summerTime, TimeZone.shows_jumping, ← summerTime,
        show springForward + summerTime.offset springForward = 1774753200 by decide]
      simp only [springForward] at hlt ⊢
      omega
  · refine (hsearch (.daily 2 0) 2 0 springForward rfl rfl ?_).mpr fun days _ _ hlost => ?_
    · rw [dateOf_springForward]
      decide
    · have hbefore := hlost.1 (TimeZone.localSeconds ((summerTime.dateOf springForward).back days)
      2 0 - 3600)
      have hafter := hlost.2 (TimeZone.localSeconds ((summerTime.dateOf springForward).back days)
        2 0 - 3600)
      rw [summerTime, TimeZone.shows_jumping] at hbefore hafter
      omega

/-- Ten in the morning UTC on the 30th of December 2011. -/
def dateLineCrossed : Int := 1325239200

def dateLine : TimeZone := TimeZone.jumping dateLineCrossed (-36000) 50400

def dayAfter : Date := Date.yearEnd 2011

def morningAfter : Int := 1325260800

theorem dateOf_morningAfter : dateLine.dateOf morningAfter = dayAfter :=
  Date.dayNumber_injective (by rw [dayNumber_dateOf]; decide)

/-- Half past two is moved to half past three, not to the end of the gap at three; and in
the morning after a day that was skipped nothing is found, though a daily schedule
occurred at noon two days before. -/
theorem gapEnd_missed :
    summerTime.Exact ∧
      InGap summerTime.offset springForward (TimeZone.localSeconds springDay 2 30) ∧
      localUnix summerTime springDay 2 30 = some (springForward + 1800) ∧
      dateLine.Exact ∧ validate (.daily 12 0) = .ok () ∧
      (∀ days ≤ 62, InCalendar ((dateLine.dateOf morningAfter).back days)) ∧
      latestOccurrence dateLine (.daily 12 0) morningAfter = none ∧
      runsOn (.daily 12 0) (dayAfter.back 2) = true ∧
      ∃ noon ≤ morningAfter, localUnix dateLine (dayAfter.back 2) 12 0 = some noon := by
  have hnone : latestOccurrence dateLine (.daily 12 0) morningAfter = none := by
    have hlocal : localDate dateLine morningAfter = some dayAfter := by
      rw [localDate, dateOf_morningAfter]
      exact if_pos (by decide)
    have hlost : localUnix dateLine (dayAfter.back 1) 12 0 = none := by decide
    have hstop : ¬ PassesOver dateLine (.daily 12 0) morningAfter 12 0 (dayAfter.back 1) := by
      refine not_passesOver_iff.mpr ⟨rfl, fun instant hinstant => ?_⟩
      rw [hlost] at hinstant
      cases hinstant
    rw [latestOccurrence_at rfl hlocal (by decide) (fun days hdays _ => ?_) hstop (by decide), hlost]
    · rfl
    · -- today's noon is still to come
      obtain rfl : days = 0 := by omega
      exact ⟨1325282400, by decide, by decide⟩
  refine ⟨summerTime_exact, ⟨by decide, by decide⟩, by decide, TimeZone.exact_jumping (by decide),
    rfl, ?_, hnone, rfl, 1325196000, by decide, by decide⟩
  rw [dateOf_morningAfter]
  decide

end PbsGui.Engine
