import Mathlib.Algebra.Group.Nat.Defs
import PbsGui.Lib.Calendar
import PbsGui.Lib.Text

/-!
# Times in ISO 8601

A local time in seconds, written as `2026-03-29T02:30:00`: fields of a fixed number of
digits with separators between them.  A year of other than four digits is written with a
sign.  What is written with a year of four digits is read back as the same second.
-/

namespace PbsGui.Lib

open List

/-- The last digits of a number, the most significant first. -/
def padded : Nat → Nat → List Char
  | 0, _ => []
  | width + 1, value => padded width (value / 10) ++ [Nat.digitChar (value % 10)]

/-- A number of as many digits, and the text behind it. -/
def readField (width : Nat) (text : List Char) : Option (Nat × List Char) :=
  if (text.take width).length = width ∧ (text.take width).all Char.isDigit then
    some (numeralValue 10 (text.take width) 0, text.drop width)
  else none

/-- A number of as many digits that a separator ends, and the text behind it. -/
def readUntil (width : Nat) (separator : Char) (text : List Char) : Option (Nat × List Char) :=
  match readField width text with
  | some (value, c :: rest) => if c = separator then some (value, rest) else none
  | _ => none

theorem length_padded (width value : Nat) : (padded width value).length = width := by
  induction width generalizing value with
  | zero => rfl
  | succ width ih => rw [padded, length_append, ih, length_singleton]

theorem isDigit_digitChar : ∀ digit < 10, (Nat.digitChar digit).isDigit = true := by decide

theorem digitChar_toNat : ∀ digit < 10, (Nat.digitChar digit).toNat - '0'.toNat = digit := by
  decide

theorem all_isDigit_padded (width value : Nat) :
    (padded width value).all Char.isDigit = true := by
  induction width generalizing value with
  | zero => rfl
  | succ width ih =>
    rw [padded, all_append, ih, Bool.true_and, all_cons, all_nil, Bool.and_true]
    exact isDigit_digitChar _ (Nat.mod_lt _ (by decide))

theorem numeralValue_append (radix value : Nat) (left right : List Char) :
    numeralValue radix (left ++ right) value =
      numeralValue radix right (numeralValue radix left value) :=
  foldl_append

theorem numeralValue_padded (width value : Nat) :
    numeralValue 10 (padded width value) 0 = value % 10 ^ width := by
  induction width generalizing value with
  | zero => simp [padded, numeralValue, Nat.mod_one]
  | succ width ih =>
    have hlast : value % 10 < 10 := Nat.mod_lt _ (by decide)
    have hdigit : digitValue 10 (Nat.digitChar (value % 10)) = some (value % 10) := by
      rw [digitValue_of_isDigit (isDigit_digitChar _ hlast), digitChar_toNat _ hlast]
    rw [padded, numeralValue_append, ih]
    simp only [numeralValue, foldl_cons, foldl_nil, hdigit, Option.getD_some]
    rw [Nat.pow_succ, Nat.mul_comm (10 ^ width) 10, Nat.mod_mul]
    omega

theorem readField_padded {width value : Nat} (h : value < 10 ^ width) (rest : List Char) :
    readField width (padded width value ++ rest) = some (value, rest) := by
  have htake : (padded width value ++ rest).take width = padded width value :=
    take_left' (length_padded width value)
  have hdrop : (padded width value ++ rest).drop width = rest :=
    drop_left' (length_padded width value)
  rw [readField, htake, hdrop, if_pos ⟨length_padded _ _, all_isDigit_padded _ _⟩,
    numeralValue_padded, Nat.mod_eq_of_lt h]

theorem readUntil_padded {width value : Nat} (h : value < 10 ^ width) (separator : Char)
    (rest : List Char) :
    readUntil width separator (padded width value ++ separator :: rest) = some (value, rest) := by
  rw [readUntil, readField_padded h]
  exact if_pos rfl

def Date.ofYmd (year : Int) (month day : Nat) : Option Date :=
  if h : (1 ≤ month ∧ month ≤ 12) ∧ 1 ≤ day ∧ day ≤ monthLength year month then
    some ⟨year, month, day, h.1.1, h.1.2, h.2.1, h.2.2⟩
  else none

theorem Date.ofYmd_self (date : Date) : Date.ofYmd date.year date.month date.day = some date :=
  dif_pos ⟨⟨date.month_pos, date.month_le⟩, date.day_pos, date.day_le⟩

/-- A year of four digits, or a sign and at least four digits. -/
def yearText (year : Int) : List Char :=
  if 0 ≤ year ∧ year ≤ 9999 then padded 4 year.toNat
  else (if year < 0 then '-' else '+') ::
    (List.replicate (4 - (Nat.toDigits 10 year.natAbs).length) '0' ++ Nat.toDigits 10 year.natAbs)

def dateOfLocal (localTime : Int) : Date := Date.ofDays (localTime / 86400)

/-- `%Y-%m-%dT%H:%M:%S`. -/
def formatIso (localTime : Int) : List Char :=
  let date := dateOfLocal localTime
  let second := (localTime % 86400).toNat
  yearText date.year ++ '-' :: (padded 2 date.month ++ '-' :: (padded 2 date.day ++ 'T' ::
    (padded 2 (second / 3600) ++ ':' :: (padded 2 (second / 60 % 60) ++ ':' ::
      padded 2 (second % 60)))))

/-- The local time that a text of this form stands for. -/
def readIso (text : List Char) : Option Int := do
  let (year, text) ← readUntil 4 '-' text
  let (month, text) ← readUntil 2 '-' text
  let (day, text) ← readUntil 2 'T' text
  let (hour, text) ← readUntil 2 ':' text
  let (minute, text) ← readUntil 2 ':' text
  let (second, text) ← readField 2 text
  let date ← Date.ofYmd year month day
  if text = [] ∧ hour < 24 ∧ minute < 60 ∧ second < 60 then
    some (date.dayNumber * 86400 + hour * 3600 + minute * 60 + second)
  else none

section RoundTrip

variable {localTime : Int}

theorem readIso_formatIso
    (h : 0 ≤ (dateOfLocal localTime).year ∧ (dateOfLocal localTime).year ≤ 9999) :
    readIso (formatIso localTime) = some localTime := by
  have hnum : (dateOfLocal localTime).dayNumber = localTime / 86400 := Date.dayNumber_ofDays _
  have hyear : ((dateOfLocal localTime).year.toNat : Int) = (dateOfLocal localTime).year :=
    Int.toNat_of_nonneg h.1
  have hmonth := (dateOfLocal localTime).month_le
  have hday := (dateOfLocal localTime).day_le.trans (monthLength_le _ _)
  have hsnd : (localTime % 86400).toNat < 86400 := by omega
  have hlast : readField 2 (padded 2 ((localTime % 86400).toNat % 60)) =
      some ((localTime % 86400).toNat % 60, []) := by
    have hread := @readField_padded 2 ((localTime % 86400).toNat % 60) (by omega) []
    rwa [append_nil] at hread
  have hvalue : localTime / 86400 * 86400 + ((localTime % 86400).toNat / 3600 : Nat) * 3600 +
      ((localTime % 86400).toNat / 60 % 60 : Nat) * 60 +
        ((localTime % 86400).toNat % 60 : Nat) = localTime := by omega
  unfold readIso formatIso
  simp (disch := omega) only [yearText, if_pos h, readUntil_padded, hlast, hyear,
    Option.bind_eq_bind, Option.bind_some, Date.ofYmd_self, hnum, hvalue]
  exact if_pos ⟨trivial, by omega, by omega, by omega⟩

theorem readIso_formatIso_none
    (h : ¬ (0 ≤ (dateOfLocal localTime).year ∧ (dateOfLocal localTime).year ≤ 9999)) :
    readIso (formatIso localTime) = none := by
  have hsign : (if (dateOfLocal localTime).year < 0 then '-' else '+').isDigit = false := by
    split <;> rfl
  unfold readIso formatIso
  dsimp only
  rw [yearText, if_neg h, cons_append]
  simp [readUntil, readField, hsign]

end RoundTrip

end PbsGui.Lib
