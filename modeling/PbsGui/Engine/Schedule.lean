import Mathlib.Data.Nat.Find
import PbsGui.Ipc.Protocol
import PbsGui.Lib.Calendar

/-!
# When a schedule is due

The decisions of `scheduler.rs` about time: the latest occurrence of a timed
schedule, whether a schedule is due after a last run, whether a log backup is due, and
which schedules are refused when a job is saved.  The calendar and the machine's time
zone are those of `Lib.Calendar`.
-/

namespace PbsGui.Engine

open Lib

/-! ### Dates -/

/-- The first and the last year of a representable date. -/
def minYear : Int := -262143

def maxYear : Int := 262142

/-- `NaiveDate::from_ymd_opt`. -/
def fromYmdOpt (year : Int) (month day : Nat) : Option Date :=
  if h : (1 ≤ month ∧ month ≤ 12) ∧ (1 ≤ day ∧ day ≤ monthLength year month) ∧
      minYear ≤ year ∧ year ≤ maxYear then
    some ⟨year, month, day, h.1.1, h.1.2, h.2.1.1, h.2.1.2⟩
  else none

/-- `NaiveDate::checked_sub_days`. -/
def checkedSubDays (date : Date) (days : Nat) : Option Date :=
  if minYear ≤ (date.back days).year then some (date.back days) else none

/-- The local date at an instant, if it is representable. -/
def localDate (zone : TimeZone) (instant : Int) : Option Date :=
  if minYear ≤ (zone.dateOf instant).year ∧ (zone.dateOf instant).year ≤ maxYear then
    some (zone.dateOf instant)
  else none

/-- The number of days in a date's month: the day before the first of the next. -/
def daysInMonth (date : Date) : Nat :=
  let next :=
    if date.month = 12 then fromYmdOpt (date.year + 1) 1 1
    else fromYmdOpt date.year (date.month + 1) 1
  ((next.bind fun first => checkedSubDays first 1).map Date.day).getD 28

/-- Unix time of a date at local HH:MM.  A time that does not exist that day moves one
hour on. -/
def localUnix (zone : TimeZone) (date : Date) (hour minute : Nat) : Option Int :=
  if 23 < hour ∨ 59 < minute then none
  else
    match zone.fromLocal (TimeZone.localSeconds date hour minute) with
    | .single instant => some instant
    | .ambiguous first _ => some first
    | .none => (zone.fromLocal (TimeZone.localSeconds date hour minute + 3600)).earliest

def timeOfDay : Ipc.Schedule → Option (Nat × Nat)
  | .daily hour minute | .weekly _ hour minute | .monthly _ hour minute => some (hour, minute)
  | .manual | .interval _ => none

/-- Whether a timed schedule has an occurrence on a date. -/
def runsOn (schedule : Ipc.Schedule) (date : Date) : Bool :=
  match schedule with
  | .daily _ _ => true
  | .weekly days _ _ => days.contains date.weekday
  | .monthly day _ _ => date.day = min day (daysInMonth date)
  | .manual | .interval _ => false

/-- The loop over the days before `today`, from `back` on. -/
def searchBack (zone : TimeZone) (schedule : Ipc.Schedule) (now : Int) (today : Date)
    (hour minute : Nat) : Nat → Nat → Option (Int × Bool)
  | _, 0 => none
  | back, fuel + 1 =>
    match checkedSubDays today back with
    | none => none
    | some date =>
      if runsOn schedule date then
        match localUnix zone date hour minute with
        | none => none
        | some instant =>
          if instant ≤ now then some (instant, back = 0)
          else searchBack zone schedule now today hour minute (back + 1) fuel
      else searchBack zone schedule now today hour minute (back + 1) fuel

/-- The most recent occurrence of a timed schedule at or before `now`, looked for over
the last 62 days, and whether it falls on today's local date. -/
def latestOccurrence (zone : TimeZone) (schedule : Ipc.Schedule) (now : Int) :
    Option (Int × Bool) :=
  match timeOfDay schedule with
  | none => none
  | some (hour, minute) =>
    match localDate zone now with
    | none => none
    | some today => searchBack zone schedule now today hour minute 0 63

/-- Whether a schedule is due, given the last run time. -/
def scheduleDue (zone : TimeZone) (schedule : Ipc.Schedule) (lastRun : Option Int) (now : Int) :
    Bool :=
  match schedule with
  | .manual => false
  | .interval minutes =>
    match lastRun with
    | none => true
    | some last => (max minutes 1 : Nat) * 60 ≤ now - last
  | .daily _ _ | .weekly _ _ _ | .monthly _ _ _ =>
    match latestOccurrence zone schedule now with
    | none => false
    | some (occurrence, today) =>
      match lastRun with
      | none => today
      | some last => last < occurrence

/-- Whether a log backup is due: nothing to measure from means now. -/
def logDue (baseline : Option Int) (intervalMinutes : Nat) (now : Int) : Bool :=
  match baseline with
  | none => true
  | some base => (max intervalMinutes 1 : Nat) * 60 ≤ now - base

/-- Two digits at least (`{:02}`). -/
def twoDigits (value : Nat) : String :=
  if value < 10 then "0" ++ toString value else toString value

/-- The time-of-day check of `validate`. -/
def checkTime (hour minute : Nat) : Except String Unit :=
  if 23 < hour ∨ 59 < minute then
    .error ("the schedule time " ++ twoDigits hour ++ ":" ++ twoDigits minute ++
      " is not a valid time of day")
  else .ok ()

/-- Reject a schedule the scheduler cannot run. -/
def validate : Ipc.Schedule → Except String Unit
  | .manual => .ok ()
  | .interval minutes =>
    if minutes = 0 then .error "the interval must be at least one minute" else .ok ()
  | .daily hour minute => checkTime hour minute
  | .weekly days hour minute =>
    if days = [] then .error "a weekly schedule needs at least one day"
    else
      match days.find? fun day => 6 < day with
      | some day => .error (toString day ++ " is not a weekday (0 = Sunday .. 6 = Saturday)")
      | none => checkTime hour minute
  | .monthly day hour minute =>
    if day < 1 ∨ 31 < day then .error "the day of the month must be between 1 and 31"
    else checkTime hour minute

/-- Validate every schedule a job carries: its own, or its SQL plan's. -/
def validateJob (job : Ipc.Job) : Except String Unit :=
  match job.source with
  | .sql _ _ (.pointInTime full logIntervalMinutes) =>
    if logIntervalMinutes = 0 then .error "the log backup interval must be at least one minute"
    else validate full
  | .sql _ _ (.dailyRestorePoints schedule) | .sql _ _ (.secondaryCopy schedule) =>
    validate schedule
  | .files _ _ _ => validate job.schedule

/-! ### What the search finds -/

section Search

variable {zone : TimeZone} {schedule : Ipc.Schedule} {now instant : Int} {today date : Date}
  {hour minute back fuel : Nat} {flag : Bool}

theorem searchBack_le
    (h : searchBack zone schedule now today hour minute back fuel = some (instant, flag)) :
    instant ≤ now := by
  induction fuel generalizing back with
  | zero => simp [searchBack] at h
  | succ fuel ih =>
    rw [searchBack] at h
    split at h
    · cases h
    · split at h
      · split at h
        · cases h
        · split at h
          · rename_i hle
            cases h
            exact hle
          · exact ih h
      · exact ih h

/-- The search goes past a date on which the schedule does not run, or the time has not
passed. -/
def PassesOver (zone : TimeZone) (schedule : Ipc.Schedule) (now : Int) (hour minute : Nat)
    (date : Date) : Prop :=
  runsOn schedule date = true →
    ∃ instant, localUnix zone date hour minute = some instant ∧ now < instant

theorem not_passesOver_iff :
    ¬ PassesOver zone schedule now hour minute date ↔
      runsOn schedule date = true ∧
        ∀ instant, localUnix zone date hour minute = some instant → instant ≤ now := by
  simp only [PassesOver, Classical.not_imp, not_exists, not_and, Int.not_lt]

theorem searchBack_passesOver (hdate : checkedSubDays today back = some date)
    (h : PassesOver zone schedule now hour minute date) :
    searchBack zone schedule now today hour minute back (fuel + 1) =
      searchBack zone schedule now today hour minute (back + 1) fuel := by
  rw [searchBack]
  simp only [hdate]
  by_cases hruns : runsOn schedule date = true
  · obtain ⟨instant, hunix, hlater⟩ := h hruns
    simp only [hruns, if_true, hunix, if_neg (show ¬ instant ≤ now by omega)]
  · rw [if_neg hruns]

theorem searchBack_decides (hdate : checkedSubDays today back = some date)
    (h : ¬ PassesOver zone schedule now hour minute date) :
    searchBack zone schedule now today hour minute back (fuel + 1) =
      (localUnix zone date hour minute).map fun instant => (instant, decide (back = 0)) := by
  obtain ⟨hruns, hpassed⟩ := not_passesOver_iff.mp h
  rw [searchBack]
  simp only [hdate, hruns, if_true]
  cases hunix : localUnix zone date hour minute with
  | none => rfl
  | some instant => simp only [if_pos (hpassed instant hunix), Option.map_some]

theorem searchBack_eq {found : Nat}
    (hdates : ∀ days ≤ found, checkedSubDays today days = some (today.back days))
    (hover : ∀ days, back ≤ days → days < found →
      PassesOver zone schedule now hour minute (today.back days))
    (hstop : ¬ PassesOver zone schedule now hour minute (today.back found))
    (hback : back ≤ found) (hfuel : found < back + fuel) :
    searchBack zone schedule now today hour minute back fuel =
      (localUnix zone (today.back found) hour minute).map
        fun instant => (instant, decide (found = 0)) := by
  induction fuel generalizing back with
  | zero => omega
  | succ fuel ih =>
    rcases Nat.eq_or_lt_of_le hback with rfl | hmore
    · exact searchBack_decides (hdates back (le_refl _)) hstop
    · rw [searchBack_passesOver (hdates back (by omega)) (hover back (le_refl _) hmore)]
      exact ih (fun days hdays => hover days (by omega)) hmore (by omega)

variable {days : Nat}

section First

variable (htime : timeOfDay schedule = some (hour, minute)) (hlocal : localDate zone now = some today)

include htime hlocal

theorem latestOccurrence_at {found : Nat}
    (hdates : ∀ days ≤ found, checkedSubDays today days = some (today.back days))
    (hover : ∀ days < found, PassesOver zone schedule now hour minute (today.back days))
    (hstop : ¬ PassesOver zone schedule now hour minute (today.back found)) (hfound : found ≤ 62) :
    latestOccurrence zone schedule now =
      (localUnix zone (today.back found) hour minute).map
        fun instant => (instant, decide (found = 0)) := by
  simp only [latestOccurrence, htime, hlocal]
  exact searchBack_eq hdates (fun days _ => hover days) hstop (Nat.zero_le _) (by omega)

/-- Where there is a date that the search does not go past, it finds the first one. -/
theorem latestOccurrence_decided
    (hdates : ∀ days ≤ 62, checkedSubDays today days = some (today.back days)) (hdays : days ≤ 62)
    (hstop : ¬ PassesOver zone schedule now hour minute (today.back days)) :
    ∃ found ≤ days, ¬ PassesOver zone schedule now hour minute (today.back found) ∧
      (∀ other < found, PassesOver zone schedule now hour minute (today.back other)) ∧
      latestOccurrence zone schedule now =
        (localUnix zone (today.back found) hour minute).map
          fun instant => (instant, decide (found = 0)) := by
  classical
  have hex : ∃ days, ¬ PassesOver zone schedule now hour minute (today.back days) := ⟨days, hstop⟩
  have hle : Nat.find hex ≤ days := Nat.find_min' hex hstop
  have hover : ∀ other < Nat.find hex, PassesOver zone schedule now hour minute (today.back other) :=
    fun other hlt => not_not.mp (Nat.find_min hex hlt)
  refine ⟨Nat.find hex, hle, Nat.find_spec hex, hover, ?_⟩
  exact latestOccurrence_at htime hlocal (fun other hother => hdates other (by omega)) hover
    (Nat.find_spec hex) (by omega)

end First

theorem latestOccurrence_le (h : latestOccurrence zone schedule now = some (instant, flag)) :
    instant ≤ now := by
  unfold latestOccurrence at h
  split at h
  · cases h
  · split at h
    · cases h
    · exact searchBack_le h

/-- A schedule with a latest occurrence is due if the last run was before it, or
without a last run if it is today's. -/
theorem scheduleDue_of_latest {lastRun : Option Int}
    (h : latestOccurrence zone schedule now = some (instant, flag)) :
    scheduleDue zone schedule lastRun now =
      lastRun.elim flag fun last => decide (last < instant) := by
  cases schedule with
  | manual | interval => simp [latestOccurrence, timeOfDay] at h
  | daily | weekly | monthly =>
    simp only [scheduleDue, h]
    cases lastRun <;> rfl

def Occurrence (zone : TimeZone) (schedule : Ipc.Schedule) (instant : Int) : Prop :=
  ∃ hour minute date, timeOfDay schedule = some (hour, minute) ∧ runsOn schedule date = true ∧
    localUnix zone date hour minute = some instant

/-- What the search relies on in a zone: the time of day is found on every date, is not
earlier on a later date, has not passed before its date begins and has passed when
its date is over. -/
structure RegularTime (zone : TimeZone) (hour minute : Nat) : Prop where
  exists_unix : ∀ date, ∃ instant, localUnix zone date hour minute = some instant
  mono : ∀ {date later : Date} {instant next : Int}, date.dayNumber < later.dayNumber →
    localUnix zone date hour minute = some instant →
    localUnix zone later hour minute = some next → instant ≤ next
  not_future : ∀ {date : Date} {instant now : Int}, localUnix zone date hour minute = some instant →
    instant ≤ now → date.dayNumber ≤ (zone.dateOf now).dayNumber
  past : ∀ {date : Date} {instant now : Int}, localUnix zone date hour minute = some instant →
    date.dayNumber < (zone.dateOf now).dayNumber → instant ≤ now

/-- The date of an instant and the two months before it are well inside the range of
representable dates. -/
def Representable (zone : TimeZone) (now : Int) : Prop :=
  minYear < (zone.dateOf now).year ∧ (zone.dateOf now).year < maxYear

theorem year_back (date : Date) (h : days ≤ 62) :
    date.year - 1 ≤ (date.back days).year ∧ (date.back days).year ≤ date.year := by
  have hnum := date.dayNumber_back days
  constructor
  · by_contra hlt
    -- the whole of the year before lies in between
    have hpre : (date.back days).dayNumber <
        (Date.firstOfMonth (date.year - 1) 1 (by decide) (by decide)).dayNumber :=
      Date.dayNumber_lt_of_year_lt (by simp only [Date.firstOfMonth]; omega)
    have hyear := daysBeforeYear_succ (date.year - 1)
    have hmonth := daysBeforeMonth_mono (date.year - 1) (show 1 ≤ 4 by decide) (show 4 ≤ 12 by decide)
    have hspring : 90 ≤ daysBeforeMonth (date.year - 1) 4 := by
      simp only [daysBeforeMonth, monthLength]
      split <;> omega
    have hpos := date.day_pos
    rw [Int.sub_add_cancel] at hyear
    simp only [Date.dayNumber, Date.firstOfMonth, daysBeforeMonth] at hpre hnum
    omega
  · by_contra hgt
    have := Date.dayNumber_lt_of_year_lt (show date.year < (date.back days).year by omega)
    omega

/-- The day before the first of the next month is the last of this one, if the next month
is representable. -/
theorem daysInMonth_cases (date : Date) :
    daysInMonth date = monthLength date.year date.month ∨
      daysInMonth date = 28 ∧ ¬ (minYear ≤ date.year ∧ date.year ≤ maxYear ∧
        (date.month = 12 → date.year < maxYear)) := by
  have hpos := date.month_pos
  have hle := date.month_le
  have hfirst := fun year month => (by decide : 1 ≤ 28).trans (monthLength_pos year month)
  unfold daysInMonth fromYmdOpt
  dsimp only
  split
  case isTrue hlast =>
    split
    case isTrue =>
      simp only [Option.bind_some, checkedSubDays]
      split
      case isTrue => exact .inl (by simp [Date.back, Date.pred, Date.lastOfMonth, hlast])
      case isFalse hyear =>
        refine .inr ⟨rfl, fun h => hyear ?_⟩
        simpa [Date.back, Date.pred, Date.lastOfMonth] using h.1
    case isFalse hnext =>
      refine .inr ⟨rfl, fun h => hnext ⟨by decide, ⟨by decide, hfirst _ _⟩, ?_, ?_⟩⟩ <;> omega
  case isFalse hlast =>
    have hpre : 0 < date.month := by omega
    split
    case isTrue =>
      simp only [Option.bind_some, checkedSubDays]
      split
      case isTrue => exact .inl (by simp [Date.back, Date.pred, Date.lastOfMonth, hpre])
      case isFalse hyear =>
        refine .inr ⟨rfl, fun h => hyear ?_⟩
        simpa [Date.back, Date.pred, Date.lastOfMonth, hpre] using h.1
    case isFalse hnext =>
      exact .inr ⟨rfl, fun h => hnext ⟨by omega, ⟨by decide, hfirst _ _⟩, h.1, h.2.1⟩⟩

theorem daysInMonth_bounds (date : Date) :
    28 ≤ daysInMonth date ∧ daysInMonth date ≤ monthLength date.year date.month := by
  have hlen := monthLength_pos date.year date.month
  rcases daysInMonth_cases date with h | ⟨h, -⟩
  · omega
  · omega

def HasDates : Ipc.Schedule → Prop
  | .daily _ _ => True
  | .weekly days _ _ => ∃ day ∈ days, day < 7
  | .monthly day _ _ => 1 ≤ day
  | .manual | .interval _ => False

theorem hasDates_of_runsOn (h : runsOn schedule date = true) : HasDates schedule := by
  cases schedule with
  | manual | interval _ => cases h
  | daily => trivial
  | weekly days =>
    refine ⟨date.weekday, List.contains_iff_mem.mp h, ?_⟩
    unfold Date.weekday
    omega
  | monthly =>
    have hpos := date.day_pos
    simp only [runsOn, decide_eq_true_eq] at h
    simp only [HasDates]
    omega

/-- A schedule that names a date has run in the two months before the last three days. -/
theorem exists_runsOn_back (date : Date) (h : HasDates schedule) :
    ∃ days, 4 ≤ days ∧ days ≤ 62 ∧ runsOn schedule (date.back days) = true := by
  cases schedule with
  | manual | interval _ => cases h
  | daily => exact ⟨4, le_refl _, by decide, rfl⟩
  | weekly days =>
    obtain ⟨day, hmem, hday⟩ := h
    obtain ⟨back, hpos, hle, hweekday⟩ := (date.back 3).exists_back_weekday hday
    refine ⟨3 + back, by omega, by omega, List.contains_iff_mem.mpr ?_⟩
    rw [← Date.back_back, hweekday]
    exact hmem
  | monthly =>
    obtain ⟨back, hpos, hle, hday⟩ := Date.exists_back_monthDay
      (fun hyear hmonth => by rw [daysInMonth, daysInMonth, hyear, hmonth])
      (fun date => (daysInMonth_bounds date).1) (fun date => (daysInMonth_bounds date).2) date h
    exact ⟨back, hpos, hle, decide_eq_true hday⟩

theorem latestOccurrence_ge (hreg : ∀ hour minute, timeOfDay schedule = some (hour, minute) →
      RegularTime zone hour minute) (hnow : Representable zone now)
    (hoccurs : Occurrence zone schedule instant) (hpassed : instant ≤ now) :
    ∃ latest today, latestOccurrence zone schedule now = some (latest, today) ∧
      instant ≤ latest := by
  obtain ⟨hour, minute, date, htime, hruns, hunix⟩ := hoccurs
  have hzone := hreg hour minute htime
  have hdate := hzone.not_future hunix hpassed
  obtain ⟨hmin, hmax⟩ := hnow
  have hback := Date.eq_back_of_le hdate
  generalize hdays : ((zone.dateOf now).dayNumber - date.dayNumber).toNat = days at hback
  subst hback
  have hlocal : localDate zone now = some (zone.dateOf now) := if_pos ⟨by omega, by omega⟩
  -- some date within reach, no earlier than this one, has an occurrence that has passed
  obtain ⟨recent, hreach, hrecent, hstop⟩ : ∃ recent ≤ 62, recent ≤ days ∧
      ¬ PassesOver zone schedule now hour minute ((zone.dateOf now).back recent) := by
    by_cases hnear : days ≤ 62
    · refine ⟨days, hnear, le_refl _, not_passesOver_iff.mpr ⟨hruns, fun other hother => ?_⟩⟩
      rw [hunix] at hother
      cases hother
      exact hpassed
    · obtain ⟨recent, hpos, hle, hrecent⟩ :=
        exists_runsOn_back (zone.dateOf now) (hasDates_of_runsOn hruns)
      refine ⟨recent, hle, by omega, not_passesOver_iff.mpr ⟨hrecent, fun other hother => ?_⟩⟩
      exact hzone.past hother (by rw [Date.dayNumber_back]; omega)
  obtain ⟨found, hle, -, -, hsearch⟩ :=
    latestOccurrence_decided htime hlocal (fun days hdays => if_pos (by
      have := (year_back (zone.dateOf now) hdays).1
      omega)) hreach hstop
  obtain ⟨foundInstant, hfoundUnix⟩ := hzone.exists_unix ((zone.dateOf now).back found)
  rw [hfoundUnix, Option.map_some] at hsearch
  refine ⟨foundInstant, decide (found = 0), hsearch, ?_⟩
  by_cases hsame : found = days
  · subst hsame
    rw [hunix] at hfoundUnix
    cases hfoundUnix
    exact Int.le_refl _
  · apply hzone.mono _ hunix hfoundUnix
    rw [Date.dayNumber_back, Date.dayNumber_back]
    omega

end Search

theorem localUnix_fixed (offset : Int) (date : Date) {hour minute : Nat} (hhour : hour ≤ 23)
    (hminute : minute ≤ 59) :
    localUnix (TimeZone.fixed offset) date hour minute =
      some (TimeZone.localSeconds date hour minute - offset) := by
  rw [localUnix, if_neg (by omega)]
  rfl

theorem dayNumber_dateOf (zone : TimeZone) (instant : Int) :
    (zone.dateOf instant).dayNumber = (instant + zone.offset instant) / 86400 :=
  Date.dayNumber_ofDays _

theorem regularTime_fixed (offset : Int) {hour minute : Nat} (hhour : hour ≤ 23)
    (hminute : minute ≤ 59) : RegularTime (TimeZone.fixed offset) hour minute := by
  have hunix : ∀ date, localUnix (TimeZone.fixed offset) date hour minute =
      some (date.dayNumber * 86400 + hour * 3600 + minute * 60 - offset) :=
    fun date => localUnix_fixed offset date hhour hminute
  have hdate : ∀ now, ((TimeZone.fixed offset).dateOf now).dayNumber = (now + offset) / 86400 :=
    dayNumber_dateOf _
  constructor
  · exact fun date => ⟨_, hunix date⟩
  · intro date later instant next hlt hinst hnext
    rw [hunix, Option.some.injEq] at hinst hnext
    omega
  · intro date instant now hinst hle
    rw [hunix, Option.some.injEq] at hinst
    rw [hdate]
    omega
  · intro date instant now hinst hlt
    rw [hunix, Option.some.injEq] at hinst
    rw [hdate] at hlt
    omega

end PbsGui.Engine
