import Mathlib.Algebra.BigOperators.Intervals
import Mathlib.Algebra.Order.BigOperators.Group.Finset
import Mathlib.Tactic.IntervalCases

/-! The Gregorian calendar and its count of days.

The rules of leap years are used for every year. A date is counted from the
first of January of an epoch year by adding up the years and months before it,
so that the count goes up by one from each day to the next.
-/

set_option autoImplicit false

namespace Library.Calendar

def Leap (year : Nat) : Prop := 4 ∣ year ∧ (100 ∣ year → 400 ∣ year)

instance : DecidablePred Leap := fun _ => inferInstanceAs (Decidable (_ ∧ _))

def monthLength (year month : Nat) : Nat :=
  match month with
  | 2 => if Leap year then 29 else 28
  | 4 | 6 | 9 | 11 => 30
  | _ => 31

def yearLength (year : Nat) : Nat := if Leap year then 366 else 365

@[ext]
structure Date where
  year : Nat
  month : Nat
  day : Nat
  isMonth : 1 ≤ month ∧ month ≤ 12
  isDay : 1 ≤ day ∧ day ≤ monthLength year month
  deriving DecidableEq

def Date.dayOfYear (date : Date) : Nat := (∑ month ∈ Finset.Ico 1 date.month, monthLength date.year month) + (date.day - 1)

def Date.dayNumber (epoch : Nat) (date : Date) : Nat :=
  (∑ year ∈ Finset.Ico epoch date.year, yearLength year) + date.dayOfYear

def Date.Before (first second : Date) : Prop :=
  first.year < second.year ∨
    first.year = second.year ∧ (first.month < second.month ∨ first.month = second.month ∧ first.day < second.day)

theorem monthLength_pos (year month : Nat) : 1 ≤ monthLength year month := by
  unfold monthLength
  split <;> (try split) <;> omega

theorem monthLength_le (year month : Nat) : monthLength year month ≤ 31 := by
  unfold monthLength
  split <;> (try split) <;> omega

def newYear (year : Nat) : Date := ⟨year, 1, 1, by decide, by decide, monthLength_pos year 1⟩

def Date.next (date : Date) : Date :=
  if more : date.day < monthLength date.year date.month then
    ⟨date.year, date.month, date.day + 1, date.isMonth, by omega, more⟩
  else if more : date.month < 12 then
    ⟨date.year, date.month + 1, 1, ⟨by omega, more⟩, by decide, monthLength_pos _ _⟩
  else newYear (date.year + 1)

/-! ## The count -/

theorem sum_monthLength (year : Nat) : ∑ month ∈ Finset.Ico 1 13, monthLength year month = yearLength year := by
  have months : Finset.Ico 1 13 = {1, 2, 3, 4, 5, 6, 7, 8, 9, 10, 11, 12} := by decide
  rw [months]
  by_cases leap : Leap year <;> simp [monthLength, yearLength, leap]

theorem sum_through_month_le (date : Date) :
    (∑ month ∈ Finset.Ico 1 date.month, monthLength date.year month) + monthLength date.year date.month ≤
      yearLength date.year := by
  rw [← Finset.sum_Ico_succ_top date.isMonth.1, ← sum_monthLength]
  exact Finset.sum_le_sum_of_subset (Finset.Ico_subset_Ico_right (Nat.succ_le_succ date.isMonth.2))

theorem dayOfYear_lt (date : Date) : date.dayOfYear < yearLength date.year := by
  have within := sum_through_month_le date
  have day := date.isDay
  unfold Date.dayOfYear
  omega

theorem dayNumber_newYear (epoch : Nat) : (newYear epoch).dayNumber epoch = 0 := by
  simp [Date.dayNumber, Date.dayOfYear, newYear]

theorem dayNumber_next {epoch : Nat} (date : Date) (since : epoch ≤ date.year) :
    date.next.dayNumber epoch = date.dayNumber epoch + 1 := by
  have day := date.isDay
  have month := date.isMonth
  unfold Date.next
  split
  · simp only [Date.dayNumber, Date.dayOfYear]
    omega
  · have lastDay : date.day = monthLength date.year date.month := by omega
    split
    · simp only [Date.dayNumber, Date.dayOfYear]
      rw [Finset.sum_Ico_succ_top month.1]
      omega
    · have december : date.month = 12 := by omega
      have whole : (∑ m ∈ Finset.Ico 1 12, monthLength date.year m) + monthLength date.year 12 = yearLength date.year := by
        rw [← Finset.sum_Ico_succ_top (by decide), sum_monthLength]
      rw [december] at lastDay
      simp only [Date.dayNumber, Date.dayOfYear, newYear, Finset.sum_Ico_succ_top since, december, Finset.Ico_self,
        Finset.sum_empty]
      omega

theorem year_next_ge (date : Date) : date.year ≤ date.next.year := by
  unfold Date.next newYear
  split
  · exact le_rfl
  · split
    · exact le_rfl
    · exact Nat.le_succ _

theorem exists_date (epoch days : Nat) : ∃ date : Date, epoch ≤ date.year ∧ date.dayNumber epoch = days := by
  induction days with
  | zero => exact ⟨newYear epoch, le_rfl, dayNumber_newYear epoch⟩
  | succ days ih =>
    obtain ⟨date, since, counted⟩ := ih
    exact ⟨date.next, since.trans (year_next_ge date), by rw [dayNumber_next date since, counted]⟩

theorem dayNumber_lt_of_before {epoch : Nat} {first second : Date} (since : epoch ≤ first.year)
    (before : first.Before second) : first.dayNumber epoch < second.dayNumber epoch := by
  have day := first.isDay
  rcases before with year | ⟨year, month | ⟨month, days⟩⟩
  · have through : (∑ y ∈ Finset.Ico epoch first.year, yearLength y) + yearLength first.year ≤
        ∑ y ∈ Finset.Ico epoch second.year, yearLength y := by
      rw [← Finset.sum_Ico_succ_top since]
      exact Finset.sum_le_sum_of_subset (Finset.Ico_subset_Ico_right year)
    have within := dayOfYear_lt first
    unfold Date.dayNumber
    omega
  · have through : (∑ m ∈ Finset.Ico 1 first.month, monthLength first.year m) + monthLength first.year first.month ≤
        ∑ m ∈ Finset.Ico 1 second.month, monthLength first.year m := by
      rw [← Finset.sum_Ico_succ_top first.isMonth.1]
      exact Finset.sum_le_sum_of_subset (Finset.Ico_subset_Ico_right month)
    simp only [Date.dayNumber, Date.dayOfYear, ← year]
    omega
  · simp only [Date.dayNumber, Date.dayOfYear, ← year, ← month]
    omega

theorem before_of_dayNumber_lt {epoch : Nat} {first second : Date} (since : epoch ≤ second.year)
    (less : first.dayNumber epoch < second.dayNumber epoch) : first.Before second := by
  by_contra notBefore
  have cases : second.Before first ∨ second = first := by
    simp only [Date.Before, Date.ext_iff] at *
    omega
  rcases cases with after | rfl
  · exact absurd (dayNumber_lt_of_before since after) (Nat.lt_asymm less)
  · exact Nat.lt_irrefl _ less

/-! ## Years that begin in March

With the leap day at the end of a year, the lengths of the months before a date do not depend on
the year, and the count is a formula.
-/

/-- The days from the first of March of the year zero to the first of March of a year. -/
def marchDays (year : Nat) : Nat := 365 * year + year / 4 - year / 100 + year / 400

def Date.marchYear (date : Date) : Nat := if date.month ≤ 2 then date.year - 1 else date.year

def Date.marchMonth (date : Date) : Nat := if date.month ≤ 2 then date.month + 9 else date.month - 3

def Date.marchDay (date : Date) : Nat := (153 * date.marchMonth + 2) / 5 + (date.day - 1)

theorem marchDays_succ (year : Nat) : marchDays (year + 1) = marchDays year + yearLength (year + 1) := by
  have centuries : 100 ∣ year + 1 → 4 ∣ year + 1 := Dvd.dvd.trans (by decide)
  have cycles : 400 ∣ year + 1 → 100 ∣ year + 1 := Dvd.dvd.trans (by decide)
  have fewer : year / 100 ≤ year / 4 := Nat.div_le_div_left (by decide) (by decide)
  unfold marchDays yearLength
  simp only [Nat.succ_div, Leap]
  by_cases fourth : 4 ∣ year + 1 <;> by_cases century : 100 ∣ year + 1 <;> by_cases cycle : 400 ∣ year + 1 <;>
    simp only [fourth, century, cycle, if_true, if_false, true_and, false_and, true_implies, false_implies] at * <;> omega

theorem yearLength_era (era year : Nat) : yearLength (400 * era + year) = yearLength year := by
  have same : Leap (400 * era + year) ↔ Leap year := by
    unfold Leap
    omega
  simp only [yearLength, same]

theorem marchDays_era (era : Nat) {year : Nat} (isYear : year < 400) :
    marchDays (400 * era + year) = 146097 * era + (365 * year + year / 4 - year / 100) := by
  have fourths : (400 * era + year) / 4 = 100 * era + year / 4 := by omega
  have centuries : (400 * era + year) / 100 = 4 * era + year / 100 := by omega
  have cycles : (400 * era + year) / 400 = era := by omega
  have fewer : year / 100 ≤ year / 4 := Nat.div_le_div_left (by decide) (by decide)
  rw [marchDays, fourths, centuries, cycles]
  omega

theorem sum_yearLength {epoch year : Nat} (since : epoch ≤ year) :
    (∑ y ∈ Finset.Ico (epoch + 1) (year + 1), yearLength y) + marchDays epoch = marchDays year := by
  induction year, since using Nat.le_induction with
  | base => simp
  | succ year since ih =>
    rw [Finset.sum_Ico_succ_top (by omega), marchDays_succ]
    omega

theorem marchDay_of_le {date : Date} (early : date.month ≤ 2) : date.marchDay = date.dayOfYear + 306 := by
  obtain ⟨year, month, day, ⟨low, high⟩, isDay⟩ := date
  dsimp only at early
  interval_cases month
  · simp [Date.marchDay, Date.marchMonth, Date.dayOfYear]
    omega
  · simp [Date.marchDay, Date.marchMonth, Date.dayOfYear, monthLength]
    omega

theorem marchDay_of_gt {date : Date} (late : 2 < date.month) :
    date.marchDay + yearLength date.year = date.dayOfYear + 306 := by
  obtain ⟨year, month, day, ⟨low, high⟩, isDay⟩ := date
  dsimp only at late
  by_cases leap : Leap year <;> interval_cases month <;>
    simp [Date.marchDay, Date.marchMonth, Date.dayOfYear, Finset.sum_Ico_succ_top, monthLength, yearLength, leap] <;> omega

/-- The count of the days of a date. -/
theorem dayNumber_eq {epoch : Nat} {date : Date} (since : epoch < date.year) :
    date.dayNumber (epoch + 1) + marchDays epoch + 306 = marchDays date.marchYear + date.marchDay := by
  obtain ⟨before, year⟩ : ∃ before, date.year = before + 1 := ⟨date.year - 1, by omega⟩
  have years := @sum_yearLength epoch before (by omega)
  rw [Date.dayNumber, year]
  by_cases early : date.month ≤ 2
  · rw [Date.marchYear, if_pos early, marchDay_of_le early, year, Nat.add_sub_cancel]
    omega
  · have rest := marchDay_of_gt (Nat.lt_of_not_le early)
    rw [year] at rest
    rw [Date.marchYear, if_neg early, year, marchDays_succ]
    omega

theorem marchMonth_eq (date : Date) : date.marchMonth = (5 * date.marchDay + 2) / 153 := by
  obtain ⟨year, month, day, ⟨low, high⟩, isDay⟩ := date
  by_cases leap : Leap year <;> interval_cases month <;> simp [monthLength, leap] at isDay <;>
    simp [Date.marchDay, Date.marchMonth] <;> omega

theorem marchDay_lt {date : Date} (year : 0 < date.year) : date.marchDay < yearLength (date.marchYear + 1) := by
  have within := dayOfYear_lt date
  by_cases early : date.month ≤ 2
  · rw [marchDay_of_le early, Date.marchYear, if_pos early, Nat.sub_add_cancel year]
    obtain ⟨y, month, day, ⟨low, high⟩, isDay⟩ := date
    dsimp only at early
    by_cases leap : Leap y <;> interval_cases month <;> simp [monthLength, leap] at isDay <;>
      simp [Date.dayOfYear, monthLength, yearLength, leap] <;> omega
  · have rest := marchDay_of_gt (Nat.lt_of_not_le early)
    have shortest : 365 ≤ yearLength (date.marchYear + 1) := by
      unfold yearLength
      split <;> decide
    omega

/-! ## Weeks -/

inductive Weekday where
  | sunday | monday | tuesday | wednesday | thursday | friday | saturday
  deriving DecidableEq, Repr

def Weekday.next : Weekday → Weekday
  | sunday => monday
  | monday => tuesday
  | tuesday => wednesday
  | wednesday => thursday
  | thursday => friday
  | friday => saturday
  | saturday => sunday

def Weekday.index : Weekday → Nat
  | sunday => 0
  | monday => 1
  | tuesday => 2
  | wednesday => 3
  | thursday => 4
  | friday => 5
  | saturday => 6

theorem Weekday.index_next (day : Weekday) : day.next.index = (day.index + 1) % 7 := by cases day <;> rfl

theorem Weekday.index_iterate (first : Weekday) (days : Nat) :
    (Weekday.next^[days] first).index = (first.index + days) % 7 := by
  induction days with
  | zero => cases first <;> rfl
  | succ days ih =>
    rw [Function.iterate_succ_apply', Weekday.index_next, ih]
    omega

end Library.Calendar
