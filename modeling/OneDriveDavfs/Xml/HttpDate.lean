import OneDriveDavfs.Library.Calendar

/-! Dates as davfs2 reads them: `http_date` and `civil_from_days` of `src/xml.rs`. -/

set_option autoImplicit false

namespace OneDriveDavfs.Xml

open Library Library.Calendar

def weekdays : List String := ["Sun", "Mon", "Tue", "Wed", "Thu", "Fri", "Sat"]

def months : List String := ["Jan", "Feb", "Mar", "Apr", "May", "Jun", "Jul", "Aug", "Sep", "Oct", "Nov", "Dec"]

def civilFromDays (z : Int) : Int × Nat × Nat :=
  let z := z + 719468
  let era := (if 0 ≤ z then z else z - 146096).tdiv 146097
  let doe := (z - era * 146097).toNat
  let yoe := (doe - doe / 1460 + doe / 36524 - doe / 146096) / 365
  let y := (yoe : Int) + era * 400
  let doy := doe - (365 * yoe + yoe / 4 - yoe / 100)
  let mp := (5 * doy + 2) / 153
  let d := doy - (153 * mp + 2) / 5 + 1
  let m := if mp < 10 then mp + 3 else mp - 9
  (if m ≤ 2 then y + 1 else y, m, d)

/-- `{:02}`. -/
def pad2 (n : Nat) : String := if n < 10 then "0" ++ toString n else toString n

def httpDate (unixSecs : UInt64) : String :=
  let days := unixSecs.toNat / 86400
  let secsOfDay := unixSecs.toNat % 86400
  let (year, month, day) := civilFromDays days
  let weekday := weekdays[(days % 7 + 11) % 7]?.getD ""
  weekday ++ ", " ++ pad2 day ++ " " ++ months[month - 1]?.getD "" ++ " " ++ toString year ++ " " ++
    pad2 (secsOfDay / 3600) ++ ":" ++ pad2 (secsOfDay / 60 % 60) ++ ":" ++ pad2 (secsOfDay % 60) ++ " GMT"

/-! ## The calendar -/

theorem leap_of_last {year day : Nat} (isDay : day < yearLength (year + 1)) :
    day ≤ 365 ∧ (day = 365 → 4 ∣ year + 1 ∧ (100 ∣ year + 1 → 400 ∣ year + 1)) := by
  by_cases leap : Leap (year + 1)
  · rw [yearLength, if_pos leap] at isDay
    exact ⟨by omega, fun _ => leap⟩
  · rw [yearLength, if_neg leap] at isDay
    exact ⟨by omega, fun last => by omega⟩

/-- A year of an era in terms of its days. Each leap day before takes one day from the count, and a
year of 365 days is left. -/
theorem yearOfEra_eq {year day : Nat} (isYear : year < 400) (isDay : day < yearLength (year + 1)) {doe : Nat}
    (days : doe = 365 * year + year / 4 - year / 100 + day) :
    (doe - doe / 1460 + doe / 36524 - doe / 146096) / 365 = year := by
  obtain ⟨bound, leap⟩ := leap_of_last isDay
  -- a year of the era as centuries, groups of four years, and years
  obtain ⟨c, q, r, whole, isCentury, isGroup, isRest⟩ :
      ∃ c q r, year = 100 * c + (4 * q + r) ∧ c ≤ 3 ∧ q ≤ 24 ∧ r ≤ 3 :=
    ⟨year / 100, year % 100 / 4, year % 4, by omega, by omega, by omega, by omega⟩
  have counted : doe = 36524 * c + (1461 * q + (365 * r + day)) := by
    have fourths : year / 4 = 25 * c + q := by omega
    have centuries : year / 100 = c := by omega
    rw [days, fourths, centuries]
    omega
  by_cases within : 1461 * q + (365 * r + day) < 36524
  · have centuries : doe / 36524 = c := by omega
    have eras : doe / 146096 = 0 := by omega
    have leaps : doe / 1460 = 25 * c + q + (24 * c + q + (365 * r + day)) / 1460 := by omega
    rw [centuries, eras, leaps]
    by_cases early : 24 * c + q + (365 * r + day) < 1460
    · rw [Nat.div_eq_of_lt early]
      omega
    · have one : (24 * c + q + (365 * r + day)) / 1460 = 1 := by omega
      rw [one]
      omega
  · -- only the last day of the era is behind its last whole century
    have last : day = 365 := by omega
    obtain ⟨fourth, century⟩ := leap last
    have isLast : q = 24 ∧ r = 3 := by omega
    obtain ⟨rfl, rfl⟩ := isLast
    have final : c = 3 := by omega
    subst final
    rw [counted, last, whole]

theorem dayOfEra_eq (era doe : Nat) : (((146097 * era + doe : Nat) : Int) - (era : Int) * 146097).toNat = doe := by
  omega

theorem yearOfDate_eq {date : Date} {era year : Nat} (since : 0 < date.year) (split : date.marchYear = 400 * era + year) :
    (if date.month ≤ 2 then (year : Int) + era * 400 + 1 else year + era * 400) = date.year := by
  unfold Date.marchYear at split
  by_cases early : date.month ≤ 2
  · rw [if_pos early] at split ⊢
    omega
  · rw [if_neg early] at split ⊢
    omega

theorem civilFromDays_dayNumber {date : Date} (since : 1970 ≤ date.year) :
    civilFromDays (date.dayNumber 1970) = ((date.year : Int), date.month, date.day) := by
  have month := date.isMonth
  have day := date.isDay
  -- the day in terms of its March year
  obtain ⟨era, year, isYear, split⟩ : ∃ era year, year < 400 ∧ date.marchYear = 400 * era + year :=
    ⟨date.marchYear / 400, date.marchYear % 400, by omega, by omega⟩
  have isDay : date.marchDay < yearLength (date.marchYear + 1) := marchDay_lt (by omega)
  rw [split, Nat.add_assoc, yearLength_era] at isDay
  have bound := (leap_of_last isDay).1
  obtain ⟨doe, counted⟩ : ∃ doe, doe = 365 * year + year / 4 - year / 100 + date.marchDay := ⟨_, rfl⟩
  have small : doe < 146097 := by omega
  have total : (date.dayNumber 1970 : Int) + 719468 = ((146097 * era + doe : Nat) : Int) := by
    have number : date.dayNumber 1970 + marchDays 1969 + 306 = marchDays date.marchYear + date.marchDay :=
      dayNumber_eq since
    have fixed : marchDays 1969 = 719162 := by decide
    rw [split, marchDays_era era isYear, fixed] at number
    omega
  have isEra : ((146097 * era + doe : Nat) : Int).tdiv 146097 = era := by
    rw [Int.tdiv_eq_ediv_of_nonneg (Int.natCast_nonneg _)]
    omega
  have isDoy : doe - (365 * year + year / 4 - year / 100) = date.marchDay := by rw [counted, Nat.add_sub_cancel_left]
  have ofEra := yearOfEra_eq isYear isDay counted
  unfold civilFromDays
  simp only [total, if_pos (Int.natCast_nonneg _), isEra, dayOfEra_eq, ofEra, isDoy, ← marchMonth_eq]
  have isDayOfMonth : date.marchDay - (153 * date.marchMonth + 2) / 5 + 1 = date.day := by
    unfold Date.marchDay
    omega
  have isMonth : (if date.marchMonth < 10 then date.marchMonth + 3 else date.marchMonth - 9) = date.month := by
    unfold Date.marchMonth
    split <;> split <;> omega
  rw [isDayOfMonth, isMonth, yearOfDate_eq (by omega) split]

/-! ## Printed dates -/

def shortName : Weekday → String
  | .sunday => "Sun"
  | .monday => "Mon"
  | .tuesday => "Tue"
  | .wednesday => "Wed"
  | .thursday => "Thu"
  | .friday => "Fri"
  | .saturday => "Sat"

theorem weekdays_index (day : Weekday) : weekdays[day.index]? = some (shortName day) := by cases day <;> rfl

/-- The first day of the epoch year 1970 was a Thursday. -/
def weekdayOf (days : Nat) : Weekday := Weekday.next^[days] .thursday

theorem index_weekdayOf (days : Nat) : (weekdayOf days).index = (days % 7 + 11) % 7 := by
  rw [weekdayOf, Weekday.index_iterate, Weekday.index]
  omega

theorem httpDate_eq {date : Date} {unixSecs : UInt64} {hour minute second : Nat} (since : 1970 ≤ date.year)
    (isHour : hour < 24) (isMinute : minute < 60) (isSecond : second < 60)
    (counted : unixSecs.toNat = date.dayNumber 1970 * 86400 + hour * 3600 + minute * 60 + second) :
    httpDate unixSecs = shortName (weekdayOf (date.dayNumber 1970)) ++ ", " ++ pad2 date.day ++ " " ++
      months[date.month - 1]?.getD "" ++ " " ++ toString date.year ++ " " ++ pad2 hour ++ ":" ++ pad2 minute ++ ":" ++
      pad2 second ++ " GMT" := by
  have days : unixSecs.toNat / 86400 = date.dayNumber 1970 := by omega
  have ofDay : unixSecs.toNat % 86400 = hour * 3600 + minute * 60 + second := by omega
  have hours : (hour * 3600 + minute * 60 + second) / 3600 = hour := by omega
  have minutes : (hour * 3600 + minute * 60 + second) / 60 % 60 = minute := by omega
  have seconds : (hour * 3600 + minute * 60 + second) % 60 = second := by omega
  unfold httpDate
  simp only [days, ofDay, hours, minutes, seconds, civilFromDays_dayNumber since, ← index_weekdayOf, weekdays_index,
    Option.getD_some]
  rfl

end OneDriveDavfs.Xml
