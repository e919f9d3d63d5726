import MailgunRelay.Data
import MailgunRelay.Lib.Checked
import MailgunRelay.Lib.Gregorian
import MailgunRelay.Lib.Result

/-
  The timestamps of the log (`log.rs`): the date is computed
  from the number of days by four divisions with truncation.
  It is the date of the Gregorian calendar with this number,
  and no subtraction on the way goes below zero.

  Key definitions include:
    * `MailgunRelay.utcFields`
    * `MailgunRelay.utcTimestamp`
    * `MailgunRelay.Timestamp.fields`

  Key theorems include:
    * `MailgunRelay.Timestamp.yearOfEra_spec`
    * `MailgunRelay.Timestamp.exists_date`
    * `MailgunRelay.Timestamp.utcFields_eq`
    * `MailgunRelay.Timestamp.utcTimestamp_gregorian`
-/

------------------------------------------------------------
-- Timestamps
------------------------------------------------------------

namespace MailgunRelay

open Lib (Checked)

/- What a timestamp shows. -/
structure UtcFields where
  year : Nat
  month : Nat
  day : Nat
  hour : Nat
  minute : Nat
  second : Nat
deriving DecidableEq, Repr

/- In the order in which they are printed. -/
def UtcFields.tuple (t : UtcFields) : List Nat :=
  [t.year, t.month, t.day, t.hour, t.minute, t.second]

variable {ε : Type}

/- The sum of unsigned numbers of 64 bits. -/
def u64 (n : Nat) : Checked ε Nat :=
  if n < 2 ^ 64 then
    .ok n
  else
    .error .panics

/- The month, where March has the number 0. -/
def utcMonth (mp : Nat) : Checked ε Nat :=
  if mp < 10 then
    u64 (mp + 3)
  else
    Checked.sub mp 9

/-
  The fields of a time, in seconds from the epoch on.  A sum
  is checked once, after its smaller parts.
-/
def utcFields (secs : Nat) : Checked ε UtcFields := do
  let days := secs / 86400
  let rem := secs % 86400
  let z ← u64 (days + 719468)
  let era := z / 146097
  let doe := z % 146097
  let yoe ← Checked.sub doe (doe / 1460)
  let yoe ← u64 (yoe + doe / 36524)
  let yoe ← Checked.sub yoe (doe / 146096)
  let yoe := yoe / 365
  let past ← u64 (365 * yoe + yoe / 4)
  let past ← Checked.sub past (yoe / 100)
  let doy ← Checked.sub doe past
  let mp ← u64 (5 * doy + 2)
  let mp := mp / 153
  let first ← u64 (153 * mp + 2)
  let day ← Checked.sub doy (first / 5)
  let day ← u64 (day + 1)
  let month ← utcMonth mp
  let year ←
    u64 (yoe + era * 400 + if month ≤ 2 then 1 else 0)
  return {
    year := year
    month := month
    day := day
    hour := rem / 3600
    minute := rem % 3600 / 60
    second := rem % 60 }

/- A number with leading zeros. -/
def padded (width n : Nat) : Str :=
  let digits := (toString n).toList
  List.replicate (width - digits.length) '0' ++ digits

def UtcFields.render (t : UtcFields) : Str :=
  padded 4 t.year ++ '-' :: padded 2 t.month ++
    '-' :: padded 2 t.day ++ 'T' :: padded 2 t.hour ++
    ':' :: padded 2 t.minute ++ ':' :: padded 2 t.second ++
    ['Z']

/- A time before the epoch is shown as the epoch. -/
def utcTimestamp (now : Int) : Checked ε Str := do
  let t ← utcFields now.toNat
  return t.render

example :
    (utcTimestamp 951782400 : Checked Unit Str) =
      .ok "2000-02-29T00:00:00Z".toList :=
  rfl

end MailgunRelay

------------------------------------------------------------
-- The Year And Its Day
------------------------------------------------------------

namespace MailgunRelay

namespace Timestamp

/- The year of a day in 400 years that start in March. -/
def yearOfEra (doe : Nat) : Nat :=
  (doe - doe / 1460 + doe / 36524 - doe / 146096) / 365

/- The days of the years before a year of these. -/
def daysOfYears (yoe : Nat) : Nat :=
  365 * yoe + yoe / 4 - yoe / 100

def dayOfYear (doe : Nat) : Nat :=
  doe - daysOfYears (yearOfEra doe)

theorem yearOfEra_mono
    {a b : Nat}
    (hLe : a ≤ b)
    (hEra : b < 146097) :
    yearOfEra a ≤ yearOfEra b := by
  -- The last correction is a fourth of the one before it.
  have hA : a / 146096 = a / 36524 / 4 := by
    rw [Nat.div_div_eq_div_mul]
  have hB : b / 146096 = b / 36524 / 4 := by
    rw [Nat.div_div_eq_div_mul]
  have hDays : a - a / 1460 ≤ b - b / 1460 := by
    omega
  have hCenturies : a / 36524 ≤ b / 36524 :=
    Nat.div_le_div_right hLe
  unfold yearOfEra
  apply Nat.div_le_div_right
  omega

/- At both ends of a year the division is right. -/
theorem yearOfEra_ends :
    ∀ y < 400, yearOfEra (daysOfYears y) = y ∧
      (y < 399 →
        yearOfEra (daysOfYears (y + 1) - 1) = y) := by
  decide +kernel

theorem daysOfYears_mono
    {a b : Nat}
    (hLe : a ≤ b) :
    daysOfYears a ≤ daysOfYears b := by
  have hA : a / 100 = a / 4 / 25 := by
    rw [Nat.div_div_eq_div_mul]
  have hB : b / 100 = b / 4 / 25 := by
    rw [Nat.div_div_eq_div_mul]
  have hFours : a / 4 ≤ b / 4 := Nat.div_le_div_right hLe
  unfold daysOfYears
  omega

/- A day is in the year that the division gives. -/
theorem yearOfEra_spec
    {doe : Nat}
    (hEra : doe < 146097) :
    yearOfEra doe < 400 ∧
      daysOfYears (yearOfEra doe) ≤ doe ∧
      (yearOfEra doe < 399 →
        doe < daysOfYears (yearOfEra doe + 1)) := by
  have hYear : yearOfEra doe < 400 := by
    unfold yearOfEra
    omega
  have hLast : daysOfYears 399 < 146097 := by
    decide
  refine ⟨hYear, ?_, ?_⟩
  · by_contra hNot
    -- A day before the first one is in an earlier year.
    cases hSame : yearOfEra doe with
    | zero =>
        rw [hSame] at hNot
        exact hNot (Nat.zero_le doe)
    | succ y =>
        rw [hSame] at hNot hYear
        have hStart := @daysOfYears_mono (y + 1) 399 (by omega)
        have hLess := @yearOfEra_mono doe
          (daysOfYears (y + 1) - 1) (by omega) (by omega)
        rw [(yearOfEra_ends y (by omega)).2 (by omega),
          hSame] at hLess
        omega
  · intro hNext
    by_contra hNot
    have hLess := @yearOfEra_mono
      (daysOfYears (yearOfEra doe + 1)) doe (by omega) hEra
    rw [(yearOfEra_ends _ (by omega)).1] at hLess
    omega

end Timestamp

end MailgunRelay

------------------------------------------------------------
-- The Month And Its Day
------------------------------------------------------------

namespace MailgunRelay

open Lib (Checked)

open Lib.Gregorian

namespace Timestamp

/- Months are counted from March on. -/
def marchMonth (doy : Nat) : Nat :=
  (5 * doy + 2) / 153

def dayOfMonth (doy : Nat) : Nat :=
  doy - (153 * marchMonth doy + 2) / 5 + 1

def monthOf (doy : Nat) : Nat :=
  if marchMonth doy < 10 then
    marchMonth doy + 3
  else
    marchMonth doy - 9

def yearOf (z : Nat) : Nat :=
  yearOfEra (z % 146097) + z / 146097 * 400 +
    if monthOf (dayOfYear (z % 146097)) ≤ 2 then 1 else 0

/-
  Where a day of the year is in a month: in January and
  February of the next year, or in this one after the 59 or
  60 days of its first months.
-/
def IsDay (doy year : Nat) : Prop :=
  if monthOf doy ≤ 2 then
    daysBeforeMonth year (monthOf doy) +
        (dayOfMonth doy - 1) + 306 = doy ∧
      (doy < 365 ∨ isLeap year = true →
        dayOfMonth doy ≤ monthLength year (monthOf doy))
  else
    daysBeforeMonth year (monthOf doy) +
        (dayOfMonth doy - 1) =
          yearLength year - 306 + doy ∧
      dayOfMonth doy ≤ monthLength year (monthOf doy)

instance (doy year : Nat) : Decidable (IsDay doy year) := by
  unfold IsDay
  infer_instance

theorem isDay_table :
    ∀ doy < 366, 1 ≤ monthOf doy ∧ monthOf doy ≤ 12 ∧
      (153 * marchMonth doy + 2) / 5 ≤ doy ∧
      IsDay doy 0 ∧ IsDay doy 1 := by
  decide +kernel

/- The calendar of a year is that of the year 0 or 1. -/
theorem isDay
    {doy : Nat}
    (hDay : doy < 366)
    (year : Nat) :
    IsDay doy year := by
  rcases isDay_table doy hDay with ⟨-, -, -, hZero, hOne⟩
  have hCongr {a : Nat}
      (hLeap : isLeap year = isLeap a)
      (hTable : IsDay doy a) :
      IsDay doy year := by
    unfold IsDay yearLength at hTable ⊢
    rw [daysBeforeMonth_congr hLeap, monthLength_congr hLeap,
      hLeap]
    exact hTable
  cases hLeap : isLeap year with
  | false => exact hCongr (hLeap.trans (by decide)) hOne
  | true => exact hCongr (hLeap.trans (by decide)) hZero

/- A year ends after a leap day if the next one is leap. -/
theorem daysOfYears_succ
    (y : Nat) :
    daysOfYears (y + 1) + (if (y + 1) % 100 = 0 then 1 else 0) =
      daysOfYears y + 365 +
        if (y + 1) % 4 = 0 then 1 else 0 := by
  have hFour : (y + 1) / 4 =
      y / 4 + if (y + 1) % 4 = 0 then 1 else 0 := by
    split
    · omega
    · omega
  have hCentury : (y + 1) / 100 =
      y / 100 + if (y + 1) % 100 = 0 then 1 else 0 := by
    split
    · omega
    · omega
  unfold daysOfYears
  omega

/- The last day of a leap year has the number 365. -/
theorem dayOfYear_lt
    {doe : Nat}
    (hEra : doe < 146097)
    (era : Nat) :
    dayOfYear doe < 365 ∨
      dayOfYear doe = 365 ∧
        isLeap (yearOfEra doe + era * 400 + 1) = true := by
  rcases yearOfEra_spec hEra with ⟨hYear, hStart, hEnd⟩
  have hNext := daysOfYears_succ (yearOfEra doe)
  rw [isLeap_iff]
  unfold dayOfYear
  generalize yearOfEra doe = y at hYear hStart hEnd hNext ⊢
  by_cases hLast : y = 399
  · have hFirst : daysOfYears 399 = 145731 := rfl
    rw [hLast, hFirst]
    omega
  · have hBefore := hEnd (by omega)
    have hFour : (y + era * 400 + 1) % 4 = (y + 1) % 4 := by
      omega
    have hCentury :
        (y + era * 400 + 1) % 100 = (y + 1) % 100 := by
      omega
    rw [hFour, hCentury]
    by_cases hLeap : (y + 1) % 4 = 0
    · rw [if_pos hLeap] at hNext
      by_cases hHundred : (y + 1) % 100 = 0
      · rw [if_pos hHundred] at hNext
        omega
      · omega
    · rw [if_neg hLeap] at hNext
      omega

/- The leap years before a day are counted from March on. -/
theorem daysBeforeYear_march
    (year : Nat) :
    daysBeforeYear year + yearLength year + year / 100 =
      365 * year + 366 + year / 4 + year / 400 := by
  have hNext := daysBeforeYear_eq (year + 1)
  rw [daysBeforeYear] at hNext
  omega

/- The days before 1970. -/
def epoch : Date where
  year := 1970
  month := 1
  day := 1
  hMonth := by decide
  hDay := by decide

/- The number of days gives a date with this number. -/
theorem exists_date
    (z : Nat) :
    ∃ date : Date,
      date.year = yearOf z ∧
        date.month = monthOf (dayOfYear (z % 146097)) ∧
        date.day = dayOfMonth (dayOfYear (z % 146097)) ∧
        date.dayNumber = z + 60 := by
  have hEra : z % 146097 < 146097 := Nat.mod_lt z (by decide)
  rcases yearOfEra_spec hEra with ⟨hYear, hStart, -⟩
  have hEnd := dayOfYear_lt hEra (z / 146097)
  have hDoy : z % 146097 =
      daysOfYears (yearOfEra (z % 146097)) +
        dayOfYear (z % 146097) :=
    (Nat.add_sub_cancel' hStart).symm
  have hZ : 146097 * (z / 146097) + z % 146097 = z :=
    Nat.div_add_mod z 146097
  unfold yearOf
  generalize z % 146097 = doe at *
  generalize z / 146097 = era at *
  generalize dayOfYear doe = doy at *
  generalize yearOfEra doe = yoe at *
  rcases isDay_table doy (by omega) with ⟨hFirst, hLast, -⟩
  have hMarch := daysBeforeYear_march (yoe + era * 400)
  have hFours : (yoe + era * 400) / 4 = yoe / 4 + era * 100 := by
    omega
  have hCenturies :
      (yoe + era * 400) / 100 = yoe / 100 + era * 4 := by
    omega
  have hEras : (yoe + era * 400) / 400 = era := by
    omega
  rw [hFours, hCenturies, hEras] at hMarch
  unfold daysOfYears at hDoy
  by_cases hMonth : monthOf doy ≤ 2
  · rw [if_pos hMonth]
    have hDay := isDay (show doy < 366 by omega)
      (yoe + era * 400 + 1)
    unfold IsDay at hDay
    rw [if_pos hMonth] at hDay
    refine
      ⟨⟨yoe + era * 400 + 1, monthOf doy, dayOfMonth doy,
          ⟨hFirst, hLast⟩,
          ⟨Nat.le_add_left 1 _, hDay.2 ?_⟩⟩,
        rfl, rfl, rfl, ?_⟩
    · rcases hEnd with hLess | ⟨-, hLeap⟩
      · exact .inl hLess
      · exact .inr hLeap
    · unfold Date.dayNumber
      dsimp only
      rw [daysBeforeYear]
      omega
  · rw [if_neg hMonth]
    have hDay := isDay (show doy < 366 by omega)
      (yoe + era * 400)
    unfold IsDay at hDay
    rw [if_neg hMonth] at hDay
    refine
      ⟨⟨yoe + era * 400, monthOf doy, dayOfMonth doy,
          ⟨hFirst, hLast⟩,
          ⟨Nat.le_add_left 1 _, hDay.2⟩⟩,
        rfl, rfl, rfl, ?_⟩
    have hLength : 365 ≤ yearLength (yoe + era * 400) := by
      unfold yearLength
      split
      · decide
      · decide
    unfold Date.dayNumber
    dsimp only
    omega

end Timestamp

end MailgunRelay

------------------------------------------------------------
-- Timestamps Of The Calendar
------------------------------------------------------------

namespace MailgunRelay

open Lib (Checked)

open Lib.Gregorian

namespace Timestamp

variable {ε : Type}

/- The fields, computed without checks. -/
def fields (secs : Nat) : UtcFields :=
  let z := secs / 86400 + 719468
  let rem := secs % 86400
  { year := yearOf z
    month := monthOf (dayOfYear (z % 146097))
    day := dayOfMonth (dayOfYear (z % 146097))
    hour := rem / 3600
    minute := rem % 3600 / 60
    second := rem % 60 }

theorem u64_of_lt
    {n : Nat}
    (hLess : n < 2 ^ 64) :
    (u64 n : Checked ε Nat) = .ok n :=
  if_pos hLess

/- No check fails in 64 bits. -/
theorem utcFields_eq
    {secs : Nat}
    (hSecs : secs < 2 ^ 64) :
    (utcFields secs : Checked ε UtcFields) =
      .ok (fields secs) := by
  have hZ : secs / 86400 + 719468 < 2 ^ 64 := by
    omega
  unfold utcFields fields
  dsimp only
  rw [u64_of_lt hZ, Lib.ok_bind]
  unfold yearOf
  generalize hDoe : (secs / 86400 + 719468) % 146097 = doe
  have hEra : doe < 146097 := by
    omega
  have hEras : (secs / 86400 + 719468) / 146097 < 2 ^ 48 := by
    omega
  generalize (secs / 86400 + 719468) / 146097 = era at *
  rcases yearOfEra_spec hEra with ⟨hYear, hStart, -⟩
  have hEnd := dayOfYear_lt hEra 0
  -- The year of the era.
  rw [Checked.sub_of_le (by omega), Lib.ok_bind,
    u64_of_lt (by omega), Lib.ok_bind,
    Checked.sub_of_le (by omega), Lib.ok_bind,
    show (doe - doe / 1460 + doe / 36524 - doe / 146096) / 365 =
      yearOfEra doe from rfl]
  -- The day of the year.
  rw [u64_of_lt (by omega), Lib.ok_bind,
    Checked.sub_of_le (by omega), Lib.ok_bind,
    show 365 * yearOfEra doe + yearOfEra doe / 4 -
      yearOfEra doe / 100 = daysOfYears (yearOfEra doe) from rfl,
    Checked.sub_of_le hStart, Lib.ok_bind,
    show doe - daysOfYears (yearOfEra doe) = dayOfYear doe
      from rfl]
  generalize yearOfEra doe = yoe at *
  generalize dayOfYear doe = doy at *
  rcases isDay_table doy (by omega) with
    ⟨hFirst, hLast, hDay, -⟩
  -- The month and its day.
  rw [u64_of_lt (by omega), Lib.ok_bind,
    show (5 * doy + 2) / 153 = marchMonth doy from rfl]
  have hMarch : marchMonth doy < 12 := by
    unfold marchMonth
    omega
  rw [u64_of_lt (by omega), Lib.ok_bind,
    Checked.sub_of_le hDay, Lib.ok_bind,
    u64_of_lt (by omega), Lib.ok_bind]
  have hMonth :
      (utcMonth (marchMonth doy) : Checked ε Nat) =
        .ok (monthOf doy) := by
    unfold utcMonth monthOf
    split
    · exact u64_of_lt (by omega)
    · exact Checked.sub_of_le (by omega)
  have hNext : (if monthOf doy ≤ 2 then 1 else 0) ≤ 1 := by
    split
    · decide
    · decide
  rw [hMonth, Lib.ok_bind, u64_of_lt (by omega), Lib.ok_bind]
  rfl

/- The times of a day are in order. -/
theorem tuple_lt
    {a b : UtcFields}
    (hDate : a.year < b.year ∨
      a.year = b.year ∧
        (a.month < b.month ∨
          a.month = b.month ∧
            (a.day < b.day ∨
              a.day = b.day ∧
                (a.hour < b.hour ∨
                  a.hour = b.hour ∧
                    (a.minute < b.minute ∨
                      a.minute = b.minute ∧
                        a.second < b.second))))) :
    a.tuple < b.tuple := by
  unfold UtcFields.tuple
  simp only [List.cons_lt_cons_iff]
  omega

/- A later second has a later tuple. -/
theorem fields_lt
    {m n : Nat}
    (hLess : m < n) :
    (fields m).tuple < (fields n).tuple := by
  rcases exists_date (m / 86400 + 719468) with
    ⟨a, hYearA, hMonthA, hDayA, hA⟩
  rcases exists_date (n / 86400 + 719468) with
    ⟨b, hYearB, hMonthB, hDayB, hB⟩
  apply tuple_lt
  unfold fields
  dsimp only
  rw [← hYearA, ← hMonthA, ← hDayA, ← hYearB, ← hMonthB,
    ← hDayB]
  rcases Nat.lt_or_ge (m / 86400) (n / 86400) with hDay | hDay
  · have hBefore :=
      @Date.before_of_dayNumber_lt a b (by omega)
    unfold Date.Before at hBefore
    omega
  · have hSame := @Date.eq_of_dayNumber_eq a b (by omega)
    omega

/-
  The printed fields are a date of the calendar with the
  number of days since the epoch, and the time of this day;
  no check fails, and later seconds are printed later.
-/
theorem utcTimestamp_gregorian
    (n : UInt64) :
    ∃ t : UtcFields,
      (utcFields n.toNat : Checked ε UtcFields) = .ok t ∧
        (utcTimestamp n.toNat : Checked ε Str) =
          .ok t.render ∧
        (∃ date : Date,
          date.year = t.year ∧ date.month = t.month ∧
            date.day = t.day ∧
            date.dayNumber =
              epoch.dayNumber + n.toNat / 86400) ∧
        t.hour * 3600 + t.minute * 60 + t.second =
          n.toNat % 86400 ∧
        t.hour < 24 ∧ t.minute < 60 ∧ t.second < 60 ∧
        ∀ m : UInt64, m < n →
          ∃ u : UtcFields,
            (utcFields m.toNat : Checked ε UtcFields) = .ok u ∧
              u.tuple < t.tuple := by
  refine
    ⟨fields n.toNat, utcFields_eq n.toNat_lt,
      ?_, ?_, ?_, ?_, ?_, ?_, ?_⟩
  · unfold utcTimestamp
    rw [Int.toNat_natCast, utcFields_eq n.toNat_lt, Lib.ok_bind]
    rfl
  · rcases exists_date (n.toNat / 86400 + 719468) with
      ⟨date, hYear, hMonth, hDay, hNumber⟩
    refine ⟨date, hYear, hMonth, hDay, ?_⟩
    have hEpoch : epoch.dayNumber = 719528 := by
      decide +kernel
    omega
  · unfold fields
    dsimp only
    omega
  · unfold fields
    dsimp only
    omega
  · unfold fields
    dsimp only
    omega
  · unfold fields
    dsimp only
    omega
  · intro m hLess
    exact
      ⟨fields m.toNat, utcFields_eq m.toNat_lt,
        fields_lt hLess⟩

end Timestamp

end MailgunRelay
