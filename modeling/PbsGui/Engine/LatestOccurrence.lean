import Mathlib.Order.Bounds.Defs
import PbsGui.Engine.Schedule

/-!
# The latest occurrence is the greatest

In a zone whose offset never changes, the search of `latest_occurrence` finds the
greatest instant at or before now that is the schedule's time of day on a date the
schedule runs on.  The code takes the length of a month from the first day of the next one, and
in the last month that can be represented there is none.
-/

namespace PbsGui.Engine

open Lib List

/-- The dates a schedule is meant to run on.  A day beyond the end of a month is its last
day. -/
def FallsOn (schedule : Ipc.Schedule) (date : Date) : Prop :=
  match schedule with
  | .daily _ _ => True
  | .weekly days _ _ => date.weekday ∈ days
  | .monthly day _ _ => date.day = min day (monthLength date.year date.month)
  | .manual | .interval _ => False

def InCalendar (date : Date) : Prop := minYear ≤ date.year ∧ date.year ≤ maxYear

instance (date : Date) : Decidable (InCalendar date) := inferInstanceAs (Decidable (_ ∧ _))

def InLastMonth (date : Date) : Prop := date.year = maxYear ∧ date.month = 12

/-- An instant that is the schedule's time of day on a date it is meant to run on, in a
zone with a fixed offset. -/
def OccursAt (offset : Int) (schedule : Ipc.Schedule) (date : Date) (instant : Int) : Prop :=
  ∃ hour minute, timeOfDay schedule = some (hour, minute) ∧ FallsOn schedule date ∧
    instant + offset = TimeZone.localSeconds date hour minute

section Dates

variable {schedule : Ipc.Schedule} {date : Date} {hour minute : Nat}

theorem runsOn_iff_fallsOn (hdate : InCalendar date) (hmonth : ¬ InLastMonth date) :
    runsOn schedule date = true ↔ FallsOn schedule date := by
  have hlen : daysInMonth date = monthLength date.year date.month :=
    (daysInMonth_cases date).resolve_right fun h => h.2 ⟨hdate.1, hdate.2, fun hlast =>
      Int.lt_iff_le_and_ne.mpr ⟨hdate.2, fun hyear => hmonth ⟨hyear, hlast⟩⟩⟩
  cases schedule with
  | manual | interval _ | daily _ _ => simp [runsOn, FallsOn]
  | weekly => exact contains_iff_mem
  | monthly => simp only [runsOn, FallsOn, hlen, decide_eq_true_eq]

theorem inLastMonth_of_back {days : Nat} (hdate : InCalendar date)
    (h : InLastMonth (date.back days)) : InLastMonth date := by
  have hnum := date.dayNumber_back days
  have hyear : date.year = maxYear := by
    by_contra hne
    have hlt : date.year < (date.back days).year := by
      rw [h.1]
      exact Int.lt_iff_le_and_ne.mpr ⟨hdate.2, hne⟩
    have := Date.dayNumber_lt_of_year_lt hlt
    omega
  refine ⟨hyear, ?_⟩
  by_contra hne
  have hlt : date.month < (date.back days).month := by
    rw [h.2]
    exact Nat.lt_of_le_of_ne date.month_le hne
  have := Date.dayNumber_lt_of_month_lt (hyear.trans h.1.symm) hlt
  omega

theorem checkTime_ok (h : checkTime hour minute = .ok ()) : hour ≤ 23 ∧ minute ≤ 59 := by
  unfold checkTime at h
  split at h
  · cases h
  · omega

theorem validate_timed (hvalid : validate schedule = .ok ())
    (htime : timeOfDay schedule = some (hour, minute)) :
    hour ≤ 23 ∧ minute ≤ 59 ∧ HasDates schedule := by
  cases schedule with
  | manual | interval _ => cases htime
  | daily =>
    cases htime
    obtain ⟨hhour, hminute⟩ := checkTime_ok hvalid
    exact ⟨hhour, hminute, trivial⟩
  | weekly days =>
    cases htime
    rw [validate] at hvalid
    split at hvalid
    case isTrue => cases hvalid
    case isFalse hsome =>
      split at hvalid
      case h_1 => cases hvalid
      case h_2 hnone =>
        obtain ⟨hhour, hminute⟩ := checkTime_ok hvalid
        obtain ⟨day, rest, rfl⟩ := exists_cons_of_ne_nil hsome
        have hday := find?_eq_none.mp hnone day mem_cons_self
        refine ⟨hhour, hminute, day, mem_cons_self, ?_⟩
        simp only [decide_eq_true_eq] at hday
        omega
  | monthly day =>
    cases htime
    rw [validate] at hvalid
    split at hvalid
    case isTrue => cases hvalid
    case isFalse hday =>
      obtain ⟨hhour, hminute⟩ := checkTime_ok hvalid
      exact ⟨hhour, hminute, show 1 ≤ day by omega⟩

end Dates

section Latest

variable {schedule : Ipc.Schedule} {hour minute : Nat}

/-- The search finds the first date back from today on which the schedule runs and its
time has passed. -/
theorem latestOccurrence_found {zone : TimeZone} {now : Int} (hvalid : validate schedule = .ok ())
    (htime : timeOfDay schedule = some (hour, minute))
    (hspan : ∀ days ≤ 62, InCalendar ((zone.dateOf now).back days))
    (hpassed : ∀ days, 4 ≤ days → ∀ instant,
      localUnix zone ((zone.dateOf now).back days) hour minute = some instant → instant ≤ now) :
    ∃ found ≤ 62, (runsOn schedule ((zone.dateOf now).back found) = true ∧ ∀ instant,
        localUnix zone ((zone.dateOf now).back found) hour minute = some instant → instant ≤ now) ∧
      (∀ days < found, PassesOver zone schedule now hour minute ((zone.dateOf now).back days)) ∧
      latestOccurrence zone schedule now =
        (localUnix zone ((zone.dateOf now).back found) hour minute).map
          fun instant => (instant, decide (found = 0)) := by
  obtain ⟨-, -, hdates⟩ := validate_timed hvalid htime
  obtain ⟨recent, hpos, hreach, hrecent⟩ := exists_runsOn_back (zone.dateOf now) hdates
  obtain ⟨found, hle, hfound, hover, hlate⟩ :=
    latestOccurrence_decided htime (if_pos (hspan 0 (by omega)))
      (fun days hdays => if_pos (hspan days hdays).1) hreach
      (not_passesOver_iff.mpr ⟨hrecent, hpassed recent hpos⟩)
  exact ⟨found, hle.trans hreach, not_passesOver_iff.mp hfound, hover, hlate⟩

/-- The search finds the greatest instant at or before now at which the schedule occurs,
and says whether it is on today's date. -/
theorem latestOccurrence_isGreatest (offset now : Int) (hvalid : validate schedule = .ok ())
    (htime : timeOfDay schedule = some (hour, minute))
    (hspan : ∀ days ≤ 62, InCalendar (((TimeZone.fixed offset).dateOf now).back days))
    (hmonth : ¬ InLastMonth ((TimeZone.fixed offset).dateOf now)) :
    ∃ date latest, OccursAt offset schedule date latest ∧
      IsGreatest {instant | instant ≤ now ∧ ∃ date, OccursAt offset schedule date instant} latest ∧
      latestOccurrence (TimeZone.fixed offset) schedule now =
        some (latest, decide (date = (TimeZone.fixed offset).dateOf now)) := by
  obtain ⟨hhour, hminute, -⟩ := validate_timed hvalid htime
  have hunix := fun date => localUnix_fixed offset date hhour hminute
  obtain ⟨found, hfound, ⟨hruns, hpassed⟩, hover, hlatest⟩ :=
    latestOccurrence_found hvalid htime hspan fun days hdays instant hinstant =>
      (regularTime_fixed offset hhour hminute).past hinstant (by rw [Date.dayNumber_back]; omega)
  replace hpassed := hpassed _ (hunix _)
  rw [hunix, Option.map_some] at hlatest
  have hnow := dayNumber_dateOf (TimeZone.fixed offset) now
  generalize (TimeZone.fixed offset).dateOf now = today at *
  have hfalls : ∀ days ≤ 62, runsOn schedule (today.back days) = true ↔
      FallsOn schedule (today.back days) := fun days hdays =>
    runsOn_iff_fallsOn (hspan days hdays) fun hlast =>
      hmonth (inLastMonth_of_back (hspan 0 (by omega)) hlast)
  have hoccurs : OccursAt offset schedule (today.back found)
      (TimeZone.localSeconds (today.back found) hour minute - offset) :=
    ⟨hour, minute, htime, (hfalls found hfound).mp hruns, by omega⟩
  refine ⟨today.back found, _, hoccurs, ⟨⟨hpassed, _, hoccurs⟩, ?_⟩, ?_⟩
  · rintro instant ⟨hinstant, date, otherHour, otherMinute, hother, hdate, hseconds⟩
    rw [htime] at hother
    cases hother
    have hnumber : date.dayNumber ≤ today.dayNumber := by
      simp only [TimeZone.fixed, TimeZone.localSeconds] at hnow hseconds
      omega
    have hback := Date.eq_back_of_le hnumber
    generalize (today.dayNumber - date.dayNumber).toNat = days at hback
    subst hback
    -- a later date with an occurrence that has passed would have stopped the search
    have hafter : found ≤ days := by
      by_contra hlt
      obtain ⟨later, hlater, hfuture⟩ :=
        hover days (by omega) ((hfalls days (by omega)).mpr hdate)
      rw [hunix, Option.some.injEq] at hlater
      omega
    simp only [TimeZone.localSeconds, Date.dayNumber_back] at hseconds ⊢
    omega
  · rw [hlatest]
    simp only [Date.back_eq_self_iff]

end Latest

/-- Half past midnight on the first of January 1970. -/
def earlyMorning : Int := 1800

theorem dateOf_earlyMorning : (TimeZone.fixed 0).dateOf earlyMorning = Date.epoch :=
  Date.dayNumber_injective (by rw [dayNumber_dateOf]; decide)

/-- On that morning the latest occurrence at three o'clock is that of the day before. -/
theorem earlyMorning_latest :
    validate (.daily 3 0) = .ok () ∧
      ∃ date latest, OccursAt 0 (.daily 3 0) date latest ∧
        IsGreatest {instant | instant ≤ earlyMorning ∧ ∃ date, OccursAt 0 (.daily 3 0) date instant}
          latest ∧
        latestOccurrence (TimeZone.fixed 0) (.daily 3 0) earlyMorning =
          some (latest, decide (date = (TimeZone.fixed 0).dateOf earlyMorning)) :=
  ⟨rfl, latestOccurrence_isGreatest 0 earlyMorning rfl rfl
    (by rw [dateOf_earlyMorning]; decide)
    (by rw [dateOf_earlyMorning]; rintro ⟨hyear, -⟩; exact absurd hyear (by decide))⟩

def lastDay : Date := Date.yearEnd maxYear

def lastNoon : Int := TimeZone.localSeconds lastDay 12 0

theorem dateOf_lastNoon : (TimeZone.fixed 0).dateOf lastNoon = lastDay :=
  Date.dayNumber_injective (by rw [dayNumber_dateOf]; decide)

/-- In the last month the code takes the 28th for the last day: at noon of the 31st it
finds the 28th as the latest occurrence of day 31, not the 31st. -/
theorem lastMonth_clamped :
    validate (.monthly 31 2 0) = .ok () ∧
      (∀ days ≤ 62, InCalendar (((TimeZone.fixed 0).dateOf lastNoon).back days)) ∧
      latestOccurrence (TimeZone.fixed 0) (.monthly 31 2 0) lastNoon =
        some (TimeZone.localSeconds (lastDay.back 3) 2 0, false) ∧
      OccursAt 0 (.monthly 31 2 0) lastDay (TimeZone.localSeconds lastDay 2 0) ∧
      TimeZone.localSeconds lastDay 2 0 ≤ lastNoon ∧
      TimeZone.localSeconds (lastDay.back 3) 2 0 < TimeZone.localSeconds lastDay 2 0 := by
  have hlocal : localDate (TimeZone.fixed 0) lastNoon = some lastDay := by
    rw [localDate, dateOf_lastNoon]
    exact if_pos (by decide)
  refine ⟨rfl, by rw [dateOf_lastNoon]; decide, ?_, ⟨2, 0, rfl, rfl, Int.add_zero _⟩, by decide,
    by decide⟩
  have hskipped : ∀ days < 3, runsOn (.monthly 31 2 0) (lastDay.back days) = false := by decide
  have hfound : runsOn (.monthly 31 2 0) (lastDay.back 3) = true := by decide
  have hunix : localUnix (TimeZone.fixed 0) (lastDay.back 3) 2 0 =
      some (TimeZone.localSeconds (lastDay.back 3) 2 0) := by decide
  have hstop : ¬ PassesOver (TimeZone.fixed 0) (.monthly 31 2 0) lastNoon 2 0 (lastDay.back 3) := by
    refine not_passesOver_iff.mpr ⟨hfound, fun instant hinstant => ?_⟩
    rw [hunix, Option.some.injEq] at hinstant
    rw [← hinstant]
    decide
  rw [latestOccurrence_at rfl hlocal (by decide) (fun days hdays htrue => ?_) hstop (by decide), hunix]
  · rfl
  · rw [hskipped days hdays] at htrue
    cases htrue

end PbsGui.Engine
