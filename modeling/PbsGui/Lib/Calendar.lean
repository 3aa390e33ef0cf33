import Mathlib.Data.Nat.Basic
import Mathlib.Logic.Function.Iterate
import Mathlib.Order.Basic

/-!
# Dates and time zones

The Gregorian calendar as a library gives it: a date is a year, a month and a day,
the days are numbered, and one steps from a date to the day before or after it.  A
time zone turns an instant into a local time and a local time into the instants that
show it, of which there may be one, two or none.
-/

namespace PbsGui.Lib

open Function

def isLeap (year : Int) : Bool :=
  year % 4 = 0 && (year % 100 ≠ 0 || year % 400 = 0)

def monthLength (year : Int) (month : Nat) : Nat :=
  match month with
  | 2 => if isLeap year then 29 else 28
  | 4 | 6 | 9 | 11 => 30
  | _ => 31

def daysBeforeMonth (year : Int) : Nat → Nat
  | 0 | 1 => 0
  | month + 1 => daysBeforeMonth year month + monthLength year month

/-- The days from the first of January of year 1 to that of a year. -/
def daysBeforeYear (year : Int) : Int :=
  365 * (year - 1) + (year - 1) / 4 - (year - 1) / 100 + (year - 1) / 400

theorem monthLength_pos (year : Int) (month : Nat) : 28 ≤ monthLength year month := by
  unfold monthLength
  split <;> (try split) <;> omega

theorem monthLength_le (year : Int) (month : Nat) : monthLength year month ≤ 31 := by
  unfold monthLength
  split <;> (try split) <;> omega

theorem daysBeforeMonth_succ {month : Nat} (year : Int) (h : 1 ≤ month) :
    daysBeforeMonth year (month + 1) = daysBeforeMonth year month + monthLength year month := by
  obtain ⟨m, rfl⟩ : ∃ m, month = m + 1 := ⟨month - 1, by omega⟩
  rfl

theorem daysBeforeMonth_mono {month later : Nat} (year : Int) (hmonth : 1 ≤ month)
    (h : month ≤ later) : daysBeforeMonth year month ≤ daysBeforeMonth year later := by
  induction later, h using Nat.le_induction with
  | base => exact le_refl _
  | succ =>
    rw [daysBeforeMonth_succ year (by omega)]
    omega

theorem daysBeforeYear_succ (year : Int) :
    daysBeforeYear (year + 1) =
      daysBeforeYear year + (daysBeforeMonth year 12 + monthLength year 12 : Nat) := by
  have hlen : daysBeforeMonth year 12 + monthLength year 12 = if isLeap year then 366 else 365 := by
    simp only [daysBeforeMonth, monthLength]
    split <;> omega
  -- Each of the three counts of leap days goes up by one in the years that it counts.
  have hfourth : year / 4 = (year - 1) / 4 + if year % 4 = 0 then 1 else 0 := by omega
  have hcentury : year / 100 = (year - 1) / 100 + if year % 100 = 0 then 1 else 0 := by omega
  have hcycle : year / 400 = (year - 1) / 400 + if year % 400 = 0 then 1 else 0 := by omega
  rw [hlen]
  unfold daysBeforeYear isLeap
  rw [Int.add_sub_cancel, hfourth, hcentury, hcycle]
  by_cases hfour : year % 4 = 0
  · by_cases hhundred : year % 100 = 0
    · by_cases hmore : year % 400 = 0
      · simp [hfour, hhundred, hmore]
        omega
      · simp [hfour, hhundred, hmore]
        omega
    · have hmore : ¬ year % 400 = 0 := by omega
      simp [hfour, hhundred, hmore]
      omega
  · have hhundred : ¬ year % 100 = 0 := by omega
    have hmore : ¬ year % 400 = 0 := by omega
    simp [hfour, hhundred, hmore]
    omega

theorem daysBeforeYear_mono {year later : Int} (h : year ≤ later) :
    daysBeforeYear year ≤ daysBeforeYear later := by
  unfold daysBeforeYear
  omega

/-! ### Dates -/

/-- A day of the calendar. -/
structure Date where
  year : Int
  month : Nat
  day : Nat
  month_pos : 1 ≤ month
  month_le : month ≤ 12
  day_pos : 1 ≤ day
  day_le : day ≤ monthLength year month
  deriving DecidableEq

namespace Date

def epoch : Date := ⟨1970, 1, 1, by decide, by decide, by decide, by decide⟩

def dayNumber (date : Date) : Int :=
  daysBeforeYear date.year + (daysBeforeMonth date.year date.month : Nat) + (date.day - 1) - 719162

def weekday (date : Date) : Nat :=
  ((date.dayNumber + 4) % 7).toNat

def lastOfMonth (year : Int) (month : Nat) (hpos : 1 ≤ month) (hle : month ≤ 12) : Date :=
  ⟨year, month, monthLength year month, hpos, hle,
    (by decide : 1 ≤ 28).trans (monthLength_pos year month), le_refl _⟩

def yearEnd (year : Int) : Date := lastOfMonth year 12 (by decide) (by decide)

def firstOfMonth (year : Int) (month : Nat) (hpos : 1 ≤ month) (hle : month ≤ 12) : Date :=
  ⟨year, month, 1, hpos, hle, le_refl _,
    (by decide : 1 ≤ 28).trans (monthLength_pos year month)⟩

def pred (date : Date) : Date :=
  if hday : 1 < date.day then
    { date with day := date.day - 1, day_pos := by omega, day_le := by have := date.day_le; omega }
  else if hmonth : 1 < date.month then
    lastOfMonth date.year (date.month - 1) (by omega) (by have := date.month_le; omega)
  else
    lastOfMonth (date.year - 1) 12 (by decide) (by decide)

def succ (date : Date) : Date :=
  if hday : date.day < monthLength date.year date.month then
    { date with day := date.day + 1, day_pos := by omega, day_le := hday }
  else if hmonth : date.month < 12 then
    firstOfMonth date.year (date.month + 1) (by omega) (by omega)
  else
    firstOfMonth (date.year + 1) 1 (by decide) (by decide)

variable {date other : Date}

theorem dayNumber_pred (date : Date) : date.pred.dayNumber = date.dayNumber - 1 := by
  have hpos := date.day_pos
  unfold pred
  split
  · simp only [dayNumber]
    omega
  · rename_i hday
    have hone : date.day = 1 := by omega
    split
    · have hsum := daysBeforeMonth_succ date.year (show 1 ≤ date.month - 1 by omega)
      rw [Nat.sub_add_cancel (by omega)] at hsum
      simp only [dayNumber, lastOfMonth, hsum, hone]
      omega
    · have hmonth : date.month = 1 := by have := date.month_pos; omega
      have hsum := daysBeforeYear_succ (date.year - 1)
      rw [Int.sub_add_cancel] at hsum
      simp only [dayNumber, lastOfMonth, hsum, hone, hmonth, daysBeforeMonth]
      omega

theorem dayNumber_succ (date : Date) : date.succ.dayNumber = date.dayNumber + 1 := by
  have hle := date.day_le
  unfold succ
  split
  · simp only [dayNumber]
    omega
  · rename_i hday
    have hlast : date.day = monthLength date.year date.month := by omega
    split
    · have hsum := daysBeforeMonth_succ date.year date.month_pos
      simp only [dayNumber, firstOfMonth, hsum, hlast]
      omega
    · have hmonth : date.month = 12 := by have := date.month_le; omega
      have hsum := daysBeforeYear_succ date.year
      simp only [dayNumber, firstOfMonth, hsum, hlast, hmonth]
      simp only [daysBeforeMonth]
      omega

theorem dayNumber_lt_of_month_lt (hyear : date.year = other.year) (h : date.month < other.month) :
    date.dayNumber < other.dayNumber := by
  have hend := daysBeforeMonth_mono date.year (show 1 ≤ date.month + 1 by omega) h
  rw [daysBeforeMonth_succ date.year date.month_pos] at hend
  have hday := date.day_le
  have hpos := other.day_pos
  simp only [dayNumber, ← hyear]
  omega

theorem dayNumber_lt_of_year_lt (h : date.year < other.year) :
    date.dayNumber < other.dayNumber := by
  have hend := daysBeforeYear_mono (show date.year + 1 ≤ other.year by omega)
  rw [daysBeforeYear_succ] at hend
  have hmonth := daysBeforeMonth_mono date.year date.month_pos date.month_le
  have hlast : daysBeforeMonth date.year date.month + date.day ≤
      daysBeforeMonth date.year 12 + monthLength date.year 12 := by
    rcases Nat.lt_or_ge date.month 12 with hlt | hge
    · have hnext := daysBeforeMonth_mono date.year (show 1 ≤ date.month + 1 by omega) hlt
      rw [daysBeforeMonth_succ date.year date.month_pos] at hnext
      have := date.day_le
      omega
    · have heq : date.month = 12 := by have := date.month_le; omega
      have := date.day_le
      rw [heq] at this ⊢
      omega
  have hpos := other.day_pos
  simp only [dayNumber]
  omega

theorem dayNumber_injective (h : date.dayNumber = other.dayNumber) : date = other := by
  have hyear : date.year = other.year := by
    rcases Int.lt_trichotomy date.year other.year with hlt | heq | hgt
    · have := dayNumber_lt_of_year_lt hlt
      omega
    · exact heq
    · have := dayNumber_lt_of_year_lt hgt
      omega
  have hmonth : date.month = other.month := by
    rcases Nat.lt_trichotomy date.month other.month with hlt | heq | hgt
    · have := dayNumber_lt_of_month_lt hyear hlt
      omega
    · exact heq
    · have := dayNumber_lt_of_month_lt hyear.symm hgt
      omega
  have hday : date.day = other.day := by
    simp only [dayNumber, hyear, hmonth] at h
    omega
  cases date
  cases other
  simp only at hyear hmonth hday
  subst hyear hmonth hday
  rfl

def back (date : Date) (days : Nat) : Date := pred^[days] date

theorem dayNumber_back (date : Date) (days : Nat) :
    (date.back days).dayNumber = date.dayNumber - days := by
  induction days with
  | zero => simp [back]
  | succ days ih =>
    rw [back, iterate_succ_apply', dayNumber_pred]
    rw [back] at ih
    omega

theorem back_back (date : Date) (first second : Nat) :
    (date.back first).back second = date.back (first + second) := by
  apply dayNumber_injective
  simp only [dayNumber_back]
  omega

theorem back_eq_self_iff {days : Nat} : date.back days = date ↔ days = 0 := by
  constructor
  · intro heq
    have hnum := date.dayNumber_back days
    rw [heq] at hnum
    omega
  · rintro rfl
    rfl

theorem eq_back_of_le (h : other.dayNumber ≤ date.dayNumber) :
    other = date.back (date.dayNumber - other.dayNumber).toNat := by
  apply dayNumber_injective
  rw [dayNumber_back]
  omega

def ofDays : Int → Date
  | .ofNat days => succ^[days] epoch
  | .negSucc days => epoch.back (days + 1)

theorem dayNumber_ofDays (days : Int) : (ofDays days).dayNumber = days := by
  have hepoch : epoch.dayNumber = 0 := by decide
  cases days with
  | ofNat days =>
    induction days with
    | zero => exact hepoch
    | succ days ih =>
      simp only [ofDays, iterate_succ_apply', dayNumber_succ] at ih ⊢
      rw [ih]
      rfl
  | negSucc =>
    rw [ofDays, dayNumber_back, hepoch, Int.negSucc_eq]
    omega

theorem exists_back_weekday (date : Date) {weekday : Nat} (h : weekday < 7) :
    ∃ days, 1 ≤ days ∧ days ≤ 7 ∧ (date.back days).weekday = weekday := by
  refine ⟨((date.dayNumber + 4 - weekday - 1) % 7).toNat + 1, by omega, by omega, ?_⟩
  rw [Date.weekday, dayNumber_back]
  omega

theorem back_in_month {days : Nat} (h : days < date.day) :
    (date.back days).year = date.year ∧ (date.back days).month = date.month ∧
      (date.back days).day = date.day - days := by
  induction days with
  | zero => simp [back]
  | succ days ih =>
    obtain ⟨hyear, hmonth, hday⟩ := ih (by omega)
    rw [back, iterate_succ_apply', ← back, pred, dif_pos (by omega)]
    exact ⟨hyear, hmonth, by simp only; omega⟩

theorem pred_of_first (h : date.day = 1) :
    date.pred.day = monthLength date.pred.year date.pred.month := by
  rw [pred, dif_neg (by omega)]
  split <;> rfl

section MonthDay

-- The day of each month that counts as its last one.
variable {last : Date → Nat}
  (hsame : ∀ {date other : Date}, date.year = other.year → date.month = other.month →
    last date = last other)
  (hmin : ∀ date, 28 ≤ last date) (hmax : ∀ date, last date ≤ monthLength date.year date.month)

include hsame hmin hmax

/-- Every day of the month, or the last one of a shorter month, occurs in the month before
a date. -/
theorem exists_back_previousMonth (date : Date) {day : Nat} (h : 1 ≤ day) :
    ∃ days, date.day ≤ days ∧ date.day + 28 ≤ days + day ∧
      days + min day 28 ≤ date.day + 31 ∧
      (date.back days).day = min day (last (date.back days)) := by
  -- back to the first, over to the month before, and back to the day there
  have hpos := date.day_pos
  obtain ⟨-, -, hfirst⟩ := @back_in_month date (date.day - 1) (by omega)
  have hlast := @pred_of_first (date.back (date.day - 1)) (by omega)
  have hstep : (date.back (date.day - 1)).pred = date.back date.day := by
    apply dayNumber_injective
    rw [dayNumber_pred, dayNumber_back, dayNumber_back]
    omega
  rw [hstep] at hlast
  generalize hprev : date.back date.day = prev at hlast
  have hlen := monthLength_le prev.year prev.month
  have hmore := hmin prev
  have hless := hmax prev
  obtain ⟨hyear, hmonth, hday⟩ := @back_in_month prev (prev.day - min day (last prev)) (by omega)
  refine ⟨date.day + (prev.day - min day (last prev)), by omega, by omega, by omega, ?_⟩
  rw [← back_back, hprev, hday, hsame hyear hmonth]
  omega

theorem exists_back_monthDay (date : Date) {day : Nat} (h : 1 ≤ day) :
    ∃ days, 4 ≤ days ∧ days ≤ 62 ∧ (date.back days).day = min day (last (date.back days)) := by
  have hsmall := date.day_le.trans (monthLength_le date.year date.month)
  obtain ⟨days, hle, hlow, hhigh, hday⟩ := exists_back_previousMonth hsame hmin hmax date h
  by_cases hfour : 4 ≤ days
  · exact ⟨days, hfour, by omega, hday⟩
  · -- the day is close to the end of its month, and then so it is in the month before
    obtain ⟨more, hle', hlow', hhigh', hday'⟩ :=
      exists_back_previousMonth hsame hmin hmax (date.back days) h
    have hmore := hmin (date.back days)
    have hless := (hmax (date.back days)).trans (monthLength_le _ _)
    refine ⟨days + more, by omega, by omega, ?_⟩
    rw [← back_back]
    exact hday'

end MonthDay

end Date

/-- The instants that show a local time. -/
inductive LocalResult
  | single (instant : Int)
  | ambiguous (first last : Int)
  /-- The local time is skipped. -/
  | none
  deriving DecidableEq

def LocalResult.earliest : LocalResult → Option Int
  | .single instant => some instant
  | .ambiguous first _ => some first
  | .none => Option.none

/-- A time zone: its offset from UTC at an instant, in seconds, and the instants that
show a local time, counted in seconds from the epoch as if in UTC. -/
structure TimeZone where
  offset : Int → Int
  fromLocal : Int → LocalResult

namespace TimeZone

def dateOf (zone : TimeZone) (instant : Int) : Date :=
  Date.ofDays ((instant + zone.offset instant) / 86400)

/-- The local time of day on a date, in seconds from the epoch. -/
def localSeconds (date : Date) (hour minute : Nat) : Int :=
  date.dayNumber * 86400 + hour * 3600 + minute * 60

def fixed (offset : Int) : TimeZone :=
  { offset := fun _ => offset, fromLocal := fun seconds => .single (seconds - offset) }

end TimeZone

end PbsGui.Lib
