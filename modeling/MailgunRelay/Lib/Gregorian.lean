import Mathlib.Order.Basic

/-
  The proleptic Gregorian calendar: the lengths of years and
  months, the number of a day from the first day of the year
  0 on, and the order of dates, which is that of their
  numbers.

  Key definitions include:
    * `Lib.Gregorian.isLeap`
    * `Lib.Gregorian.monthLength`
    * `Lib.Gregorian.Date`
    * `Lib.Gregorian.Date.dayNumber`

  Key theorems include:
    * `Lib.Gregorian.daysBeforeYear_eq`
    * `Lib.Gregorian.Date.dayNumber_lt_of_before`
    * `Lib.Gregorian.Date.before_of_dayNumber_lt`
-/

------------------------------------------------------------
-- Years And Months
------------------------------------------------------------

namespace Lib

namespace Gregorian

def isLeap (year : Nat) : Bool :=
  year % 4 == 0 && (year % 100 != 0 || year % 400 == 0)

theorem isLeap_iff
    (year : Nat) :
    isLeap year = true ↔
      year % 4 = 0 ∧ (year % 100 ≠ 0 ∨ year % 400 = 0) := by
  simp [isLeap]

def yearLength (year : Nat) : Nat :=
  if isLeap year then 366 else 365

def monthLength (year month : Nat) : Nat :=
  if month = 2 then
    if isLeap year then 29 else 28
  else if month ∈ [4, 6, 9, 11] then
    30
  else
    31

/- The days of the years before a year. -/
def daysBeforeYear : Nat → Nat
| 0 => 0
| year + 1 => daysBeforeYear year + yearLength year

/- The days of the months before a month. -/
def daysBeforeMonth (year : Nat) : Nat → Nat
| 0 => 0
| 1 => 0
| month + 2 =>
    daysBeforeMonth year (month + 1) +
      monthLength year (month + 1)

/- The leap years before a year are counted by division. -/
theorem daysBeforeYear_eq
    (year : Nat) :
    daysBeforeYear year + (year + 99) / 100 =
      365 * year + (year + 3) / 4 + (year + 399) / 400 := by
  induction year with
  | zero => rfl
  | succ year ih =>
      have hFour : (year + 1 + 3) / 4 =
          (year + 3) / 4 + if year % 4 = 0 then 1 else 0 := by
        split
        · omega
        · omega
      have hCentury : (year + 1 + 99) / 100 =
          (year + 99) / 100 + if year % 100 = 0 then 1 else 0 := by
        split
        · omega
        · omega
      have hEra : (year + 1 + 399) / 400 =
          (year + 399) / 400 + if year % 400 = 0 then 1 else 0 := by
        split
        · omega
        · omega
      have hLength : yearLength year +
          (if year % 100 = 0 then 1 else 0) =
            365 + (if year % 4 = 0 then 1 else 0) +
              if year % 400 = 0 then 1 else 0 := by
        have hRule := isLeap_iff year
        unfold yearLength
        cases hLeap : isLeap year with
        | false =>
            rw [hLeap] at hRule
            simp only [Bool.false_eq_true, false_iff,
              if_false] at hRule ⊢
            omega
        | true =>
            have hHolds := hRule.mp hLeap
            simp only [if_true]
            omega
      rw [daysBeforeYear, hFour, hCentury, hEra]
      omega

theorem daysBeforeYear_mono
    {a b : Nat}
    (hLe : a ≤ b) :
    daysBeforeYear a ≤ daysBeforeYear b := by
  induction hLe with
  | refl => exact Nat.le_refl _
  | step hLe ih => exact Nat.le_trans ih (Nat.le_add_right _ _)

/- The twelve months of a year are the year. -/
theorem daysBeforeMonth_thirteen
    (year : Nat) :
    daysBeforeMonth year 13 = yearLength year := by
  unfold yearLength
  cases hLeap : isLeap year with
  | false => simp [daysBeforeMonth, monthLength, hLeap]
  | true => simp [daysBeforeMonth, monthLength, hLeap]

theorem daysBeforeMonth_succ
    (year : Nat)
    {month : Nat}
    (hMonth : 1 ≤ month) :
    daysBeforeMonth year (month + 1) =
      daysBeforeMonth year month + monthLength year month := by
  rcases Nat.exists_eq_add_of_le' hMonth with ⟨month, rfl⟩
  rfl

theorem daysBeforeMonth_mono
    (year : Nat)
    {a b : Nat}
    (hFirst : 1 ≤ a)
    (hLe : a ≤ b) :
    daysBeforeMonth year a ≤ daysBeforeMonth year b := by
  induction hLe with
  | refl => exact Nat.le_refl _
  | step hLe ih =>
      rw [Nat.succ_eq_add_one,
        daysBeforeMonth_succ year (Nat.le_trans hFirst hLe)]
      exact Nat.le_trans ih (Nat.le_add_right _ _)

/- Months depend on whether the year is a leap year only. -/
theorem monthLength_congr
    {a b : Nat}
    (hLeap : isLeap a = isLeap b)
    (month : Nat) :
    monthLength a month = monthLength b month := by
  unfold monthLength
  rw [hLeap]

theorem daysBeforeMonth_congr
    {a b : Nat}
    (hLeap : isLeap a = isLeap b)
    (month : Nat) :
    daysBeforeMonth a month = daysBeforeMonth b month := by
  fun_induction daysBeforeMonth a month with
  | case1 => rfl
  | case2 => rfl
  | case3 month ih =>
      rw [daysBeforeMonth, ih, monthLength_congr hLeap]

end Gregorian

end Lib

------------------------------------------------------------
-- Dates
------------------------------------------------------------

namespace Lib

namespace Gregorian

/- A day of the calendar. -/
structure Date where
  year : Nat
  month : Nat
  day : Nat
  hMonth : 1 ≤ month ∧ month ≤ 12
  hDay : 1 ≤ day ∧ day ≤ monthLength year month

namespace Date

/- The days before a date, from the year 0 on. -/
def dayNumber (date : Date) : Nat :=
  daysBeforeYear date.year +
    daysBeforeMonth date.year date.month + (date.day - 1)

/- The first date in the order of the calendar. -/
def Before (a b : Date) : Prop :=
  a.year < b.year ∨
    a.year = b.year ∧
      (a.month < b.month ∨ a.month = b.month ∧ a.day < b.day)

/- A date is before the first day of the next month. -/
theorem dayNumber_lt_month
    (date : Date) :
    dayNumber date <
      daysBeforeYear date.year +
        daysBeforeMonth date.year (date.month + 1) := by
  have hDay := date.hDay
  unfold dayNumber
  rw [daysBeforeMonth_succ _ date.hMonth.1]
  omega

theorem dayNumber_lt_year
    (date : Date) :
    dayNumber date < daysBeforeYear (date.year + 1) := by
  have hMonth := date.hMonth
  have hNext := dayNumber_lt_month date
  have hLast :=
    @daysBeforeMonth_mono date.year (date.month + 1) 13
      (by omega) (by omega)
  rw [daysBeforeMonth_thirteen] at hLast
  rw [daysBeforeYear]
  omega

/- Earlier dates have smaller numbers. -/
theorem dayNumber_lt_of_before
    {a b : Date}
    (hBefore : a.Before b) :
    a.dayNumber < b.dayNumber := by
  rcases hBefore with hYear | ⟨hYear, hMonth | ⟨hMonth, hDay⟩⟩
  · have hLess := dayNumber_lt_year a
    have hMono := @daysBeforeYear_mono (a.year + 1) b.year hYear
    unfold dayNumber at hLess ⊢
    omega
  · have hLess := dayNumber_lt_month a
    have hMono :=
      @daysBeforeMonth_mono a.year (a.month + 1) b.month
        (Nat.le_add_left 1 a.month) hMonth
    unfold dayNumber at hLess ⊢
    rw [← hYear]
    omega
  · have hFirst := a.hDay
    unfold dayNumber
    rw [← hYear, ← hMonth]
    omega

/- And only earlier dates have. -/
theorem before_of_dayNumber_lt
    {a b : Date}
    (hLess : a.dayNumber < b.dayNumber) :
    a.Before b := by
  by_contra hNot
  have hCases :
      b.Before a ∨
        (a.year = b.year ∧ a.month = b.month ∧
          a.day = b.day) := by
    unfold Before at hNot ⊢
    omega
  rcases hCases with hBefore | ⟨hYear, hMonth, hDay⟩
  · have hMore := dayNumber_lt_of_before hBefore
    omega
  · unfold dayNumber at hLess
    rw [hYear, hMonth, hDay] at hLess
    omega

/- A number is that of one date only. -/
theorem eq_of_dayNumber_eq
    {a b : Date}
    (hEq : a.dayNumber = b.dayNumber) :
    a.year = b.year ∧ a.month = b.month ∧ a.day = b.day := by
  have hNot : ¬ a.Before b := fun hBefore => by
    have hLess := dayNumber_lt_of_before hBefore
    omega
  have hNot' : ¬ b.Before a := fun hBefore => by
    have hLess := dayNumber_lt_of_before hBefore
    omega
  unfold Before at hNot hNot'
  omega

end Date

end Gregorian

end Lib
