import OneDriveDavfs.Graph.Item
import OneDriveDavfs.Library.Machine
import OneDriveDavfs.Xml.HttpDate

/-! The timestamps of Graph, step by step.

The two functions once more, with the width of every step of arithmetic. A
build with overflow checks stops at the first step that leaves its width.
-/

set_option autoImplicit false

namespace OneDriveDavfs.Graph

open Library Library.Machine Library.Calendar

/-- The `doe` of `days_from_civil`: the day of a March year in its era. -/
def dayOfEraIn (build : Build) (yoe mp d : Int) : Option Int := do
  let scaled ← Width.u64.step build (153 * mp)
  let raised ← Width.u64.step build (scaled + 2)
  let through ← Width.u64.step build (raised / 5 + d)
  let doy ← Width.u64.step build (through - 1)
  let common ← Width.u64.step build (yoe * 365)
  let fourths ← Width.u64.step build (common + yoe / 4)
  let centuries ← Width.u64.step build (fourths - yoe / 100)
  Width.u64.step build (centuries + doy)

/-- `days_from_civil` in a build. The division of unsigned numbers and the casts leave no width. -/
def daysFromCivilIn (build : Build) (y m d : Int) : Option Int := do
  let y ← (if m ≤ 2 then Width.i64.step build (y - 1) else some y)
  let lifted ← (if 0 ≤ y then some y else Width.i64.step build (y - 399))
  let era := lifted.tdiv 400
  let years ← Width.i64.step build (era * 400)
  let yoe ← Width.i64.step build (y - years)
  let mp ← (if 2 < m then Width.u32.step build (m - 3) else Width.u32.step build (m + 9))
  let doe ← dayOfEraIn build (Width.u64.wrap yoe) mp d
  let eras ← Width.i64.step build (era * 146097)
  let days ← Width.i64.step build (eras + Width.i64.wrap doe)
  Width.i64.step build (days - 719468)

def parseIso8601ToUnixIn (build : Build) (s : String) : Option UInt64 :=
  match digitGroups s with
  | year :: month :: day :: hour :: minute :: second :: _ => do
    let days ← daysFromCivilIn build year month day
    let ofDays ← Width.i64.step build (days * 86400)
    let ofHours ← Width.i64.step build ((hour : Int) * 3600)
    let hours ← Width.i64.step build (ofDays + ofHours)
    let ofMinutes ← Width.i64.step build ((minute : Int) * 60)
    let minutes ← Width.i64.step build (hours + ofMinutes)
    let seconds ← Width.i64.step build (minutes + second)
    return UInt64.ofNat (max seconds 0).toNat
  | _ => some 0

theorem tdiv_lifted {y : Int} (start : -1 ≤ y) : (if 0 ≤ y then y else y - 399).tdiv 400 = y / 400 := by
  split
  · rename_i above
    exact Int.tdiv_eq_ediv_of_nonneg above
  · have first : y = -1 := by omega
    subst first
    rfl

section Days
variable (build : Build)

theorem dayOfEraIn_eq {yoe mp d : Int} (year : 0 ≤ yoe ∧ yoe < 400) (month : 0 ≤ mp ∧ mp < 2 ^ 32)
    (day : 0 ≤ d ∧ d < 2 ^ 32) (counted : ¬ (mp = 0 ∧ d = 0)) :
    dayOfEraIn build yoe mp d = some (yoe * 365 + yoe / 4 - yoe / 100 + ((153 * mp + 2) / 5 + d - 1)) := by
  unfold dayOfEraIn
  simp (disch := omega) only [Width.step_u64, Option.bind_eq_bind, Option.bind_some]

/-- The steps below zero are taken back by the last one. -/
theorem dayOfEraIn_march_wrapping {yoe : Int} (year : 0 ≤ yoe ∧ yoe < 400) :
    ∃ doe, dayOfEraIn .wrapping yoe 0 0 = some doe ∧ Width.i64.wrap doe = yoe * 365 + yoe / 4 - yoe / 100 + -1 := by
  have days : dayOfEraIn .wrapping yoe 0 0 =
      some (Width.u64.wrap (yoe * 365 + yoe / 4 - yoe / 100 + Width.u64.wrap (-1))) := by
    have beforeMarch : Width.u64.step .wrapping ((0 * 153 + 2) / 5 + 0 - 1) = some (Width.u64.wrap (-1)) := rfl
    unfold dayOfEraIn
    simp (disch := omega) only [Width.step_u64, Option.bind_eq_bind, Option.bind_some]
    rfl
  exact ⟨_, days, Width.wrap_i64_add_wrap ⟨by simp only [Width.low]; omega, by simp only [Width.high]; omega⟩⟩

section Numbers
variable {y m d : Nat} (year : y < 2 ^ 32) (month : m < 2 ^ 32) (day : d < 2 ^ 32)

def yearAndMonth (y m : Nat) : Int × Int :=
  let y : Int := if m ≤ 2 then y - 1 else y
  (y - y / 400 * 400, if 2 < m then m - 3 else m + 9)

include month in
theorem yearAndMonth_bounds : 0 ≤ (yearAndMonth y m).1 ∧ (yearAndMonth y m).1 < 400 ∧
    0 ≤ (yearAndMonth y m).2 ∧ (yearAndMonth y m).2 < 2 ^ 32 := by
  unfold yearAndMonth
  dsimp only
  split <;> split <;> omega

include year month day in
theorem daysFromCivilIn_of_day {doe : Int} (counted : dayOfEraIn build (yearAndMonth y m).1 (yearAndMonth y m).2 d = some doe)
    (exact : Width.i64.wrap doe = (yearAndMonth y m).1 * 365 + (yearAndMonth y m).1 / 4 - (yearAndMonth y m).1 / 100 +
      ((153 * (yearAndMonth y m).2 + 2) / 5 + d - 1)) :
    daysFromCivilIn build y m d = some (daysFromCivil y m d) := by
  obtain ⟨shifted, isShifted⟩ : ∃ shifted : Int, shifted = if m ≤ 2 then (y : Int) - 1 else y := ⟨_, rfl⟩
  have start : -1 ≤ shifted ∧ shifted < 2 ^ 32 := by
    rw [isShifted]
    split <;> omega
  have years : (if (m : Int) ≤ 2 then Width.i64.step build (y - 1) else some (y : Int)) = some shifted := by
    rw [isShifted]
    by_cases early : m ≤ 2
    · rw [if_pos early, if_pos (by omega), Width.step_i64 build (by omega) (by omega)]
    · rw [if_neg early, if_neg (by omega)]
  have lifted : (if 0 ≤ shifted then some shifted else Width.i64.step build (shifted - 399)) =
      some (if 0 ≤ shifted then shifted else shifted - 399) := by
    split
    · rfl
    · exact Width.step_i64 build (by omega) (by omega)
  have months : (if 2 < (m : Int) then Width.u32.step build (m - 3) else Width.u32.step build (m + 9)) =
      some (yearAndMonth y m).2 := by
    unfold yearAndMonth
    by_cases late : 2 < m
    · rw [if_pos late, if_pos (by omega), Width.step_u32 build (by omega) (by omega)]
    · rw [if_neg late, if_neg (by omega), Width.step_u32 build (by omega) (by omega)]
  have isYear : (yearAndMonth y m).1 = shifted - shifted / 400 * 400 := by
    rw [isShifted]
    rfl
  have isMonth : (if m > 2 then (m : Int) - 3 else m + 9) = (yearAndMonth y m).2 := rfl
  have bounds := yearAndMonth_bounds (y := y) month
  unfold daysFromCivilIn daysFromCivil
  simp only [years, lifted, months, Option.bind_eq_bind, Option.bind_some, tdiv_lifted start.1, ← isShifted, isMonth]
  generalize (yearAndMonth y m).2 = shiftedMonth at *
  rw [isYear] at counted exact bounds
  obtain ⟨above, below, monthAbove, monthBelow⟩ := bounds
  -- from here on only the era and the year of the era matter
  have eras : -1 ≤ shifted / 400 ∧ shifted / 400 < 2 ^ 32 := by omega
  generalize shifted / 400 = era at *
  rw [Width.step_i64 build (by omega) (by omega), Option.bind_some, Width.step_i64 build (by omega) (by omega),
    Option.bind_some, Width.wrap_u64 (by omega) (by omega), counted, Option.bind_some,
    Width.step_i64 build (by omega) (by omega), Option.bind_some, exact, Width.step_i64 build (by omega) (by omega),
    Option.bind_some, Width.step_i64 build (by omega) (by omega)]

end Numbers

theorem daysFromCivilIn_eq {y m d : Nat} (year : y < 2 ^ 32) (month : m < 2 ^ 32) (day : d < 2 ^ 32)
    (counted : ¬ (m = 3 ∧ d = 0)) : daysFromCivilIn build y m d = some (daysFromCivil y m d) := by
  obtain ⟨above, below, start, stop⟩ := yearAndMonth_bounds (y := y) month
  have march : (yearAndMonth y m).2 = 0 ↔ m = 3 := by
    unfold yearAndMonth
    dsimp only
    split <;> omega
  refine daysFromCivilIn_of_day build year month day
    (dayOfEraIn_eq build ⟨above, below⟩ ⟨start, stop⟩ ⟨by omega, by omega⟩ ?_) (Width.wrap_i64 ?_ ?_)
  · rw [march]
    omega
  · omega
  · omega

/-- The day before the first of March is a step below zero. -/
theorem daysFromCivilIn_march {y : Nat} (year : y < 2 ^ 32) :
    daysFromCivilIn .checked y 3 0 = none ∧ daysFromCivilIn .wrapping y 3 0 = some (daysFromCivil y 3 0) := by
  obtain ⟨above, below, _⟩ := yearAndMonth_bounds (y := y) (m := 3) (by decide)
  constructor
  · have months : (if 2 < (3 : Int) then Width.u32.step .checked (3 - 3) else Width.u32.step .checked (3 + 9)) = some 0 := by
      decide
    have days : ∀ yoe, dayOfEraIn .checked yoe 0 0 = none := fun _ => rfl
    simp only [daysFromCivilIn, months, days, Option.bind_eq_bind, Option.bind_some, Option.bind_none,
      Option.bind_fun_none]
  · obtain ⟨doe, counted, exact⟩ := dayOfEraIn_march_wrapping ⟨above, below⟩
    refine daysFromCivilIn_of_day .wrapping year (m := 3) (d := 0) (by decide) (by decide) counted ?_
    rw [exact]
    rfl

end Days

theorem daysFromCivil_bounds {y m d : Nat} (year : y < 2 ^ 32) (month : m < 2 ^ 32) (day : d < 2 ^ 32) :
    -2 ^ 42 < daysFromCivil y m d ∧ daysFromCivil y m d < 2 ^ 42 := by
  have start : (-1 : Int) ≤ if m ≤ 2 then (y : Int) - 1 else y := by split <;> omega
  unfold daysFromCivil
  simp only [tdiv_lifted start]
  split <;> split <;> omega

/-! ## Strings -/

theorem digitGroups_lt {s : String} {n : Nat} (member : n ∈ digitGroups s) : n < 2 ^ 32 :=
  of_decide_eq_true (List.mem_filter.mp member).2

def MarchZero (s : String) : Prop :=
  ∃ year hour minute second rest, digitGroups s = year :: 3 :: 0 :: hour :: minute :: second :: rest

theorem parseIso8601ToUnixIn_of_days {build : Build} {s : String}
    (days : ∀ y m d h mi sec rest, digitGroups s = y :: m :: d :: h :: mi :: sec :: rest →
      daysFromCivilIn build y m d = some (daysFromCivil y m d)) :
    parseIso8601ToUnixIn build s = some (parseIso8601ToUnix s) := by
  have fits : ∀ n ∈ digitGroups s, n < 2 ^ 32 := fun _ member => digitGroups_lt member
  unfold parseIso8601ToUnixIn parseIso8601ToUnix
  generalize digitGroups s = groups at days fits
  rcases groups with _ | ⟨year, _ | ⟨month, _ | ⟨day, _ | ⟨hour, _ | ⟨minute, _ | ⟨second, rest⟩⟩⟩⟩⟩⟩
  case cons.cons.cons.cons.cons.cons =>
    simp only [List.forall_mem_cons] at fits
    obtain ⟨isYear, isMonth, isDay, isHour, isMinute, isSecond, _⟩ := fits
    obtain ⟨low, high⟩ := daysFromCivil_bounds isYear isMonth isDay
    dsimp only
    rw [days _ _ _ _ _ _ _ rfl]
    generalize daysFromCivil year month day = number at low high
    simp (disch := omega) only [Width.step_i64, Option.bind_eq_bind, Option.bind_some]
    rfl
  -- fewer than six numbers
  all_goals rfl

/-- A build that wraps returns for every string, what the numbers of the source come to without widths. -/
theorem parseIso8601ToUnixIn_wrapping (s : String) : parseIso8601ToUnixIn .wrapping s = some (parseIso8601ToUnix s) := by
  refine parseIso8601ToUnixIn_of_days fun y m d h mi sec rest groups => ?_
  have fits : ∀ n ∈ digitGroups s, n < 2 ^ 32 := fun _ member => digitGroups_lt member
  simp only [groups, List.forall_mem_cons] at fits
  obtain ⟨isYear, isMonth, isDay, _⟩ := fits
  by_cases counted : m = 3 ∧ d = 0
  · obtain ⟨rfl, rfl⟩ := counted
    exact (daysFromCivilIn_march isYear).2
  · exact daysFromCivilIn_eq .wrapping isYear isMonth isDay counted

/-- Every step stays within its type exactly when the string does not spell a day zero of a March. -/
theorem parseIso8601ToUnixIn_checked_iff (s : String) :
    (parseIso8601ToUnixIn .checked s).isSome = true ↔ ¬ MarchZero s := by
  have fits : ∀ n ∈ digitGroups s, n < 2 ^ 32 := fun _ member => digitGroups_lt member
  constructor
  · rintro returned ⟨year, hour, minute, second, rest, groups⟩
    rw [groups, List.forall_mem_cons] at fits
    simp [parseIso8601ToUnixIn, groups, (daysFromCivilIn_march fits.1).1] at returned
  · intro other
    rw [parseIso8601ToUnixIn_of_days]
    · rfl
    · intro y m d h mi sec rest groups
      simp only [groups, List.forall_mem_cons] at fits
      obtain ⟨isYear, isMonth, isDay, _⟩ := fits
      refine daysFromCivilIn_eq .checked isYear isMonth isDay fun zero => other ⟨y, h, mi, sec, rest, ?_⟩
      rw [groups, zero.1, zero.2]

/-- One malformed day stops the daemon. -/
theorem march_zero_stops : parseIso8601ToUnixIn .checked "2026-03-00T00:00:00Z" = none := by
  decide

/-! ## Timestamps of the calendar -/

/-- A valid point of time, as the text of a timestamp gives it. -/
structure Timestamp where
  date : Date
  hour : Nat
  minute : Nat
  second : Nat
  /-- the digits behind the point -/
  fraction : Option (List Char)
  since : 1970 ≤ date.year
  fits : date.year < 2 ^ 32
  isHour : hour < 24
  isMinute : minute < 60
  isSecond : second < 60
  isFraction : ∀ digits ∈ fraction, digits ≠ [] ∧ ∀ c ∈ digits, c.isDigit = true

namespace Timestamp
variable (stamp : Timestamp)

def text : String :=
  toString stamp.date.year ++ "-" ++ Xml.pad2 stamp.date.month ++ "-" ++ Xml.pad2 stamp.date.day ++ "T" ++
    Xml.pad2 stamp.hour ++ ":" ++ Xml.pad2 stamp.minute ++ ":" ++ Xml.pad2 stamp.second ++
    (stamp.fraction.elim "" fun digits => "." ++ String.ofList digits) ++ "Z"

def seconds : Nat := stamp.date.dayNumber 1970 * 86400 + stamp.hour * 3600 + stamp.minute * 60 + stamp.second

def httpText : String :=
  Xml.shortName (Xml.weekdayOf (stamp.date.dayNumber 1970)) ++ ", " ++ Xml.pad2 stamp.date.day ++ " " ++
    Xml.months[stamp.date.month - 1]?.getD "" ++ " " ++ toString stamp.date.year ++ " " ++ Xml.pad2 stamp.hour ++ ":" ++
    Xml.pad2 stamp.minute ++ ":" ++ Xml.pad2 stamp.second ++ " GMT"

end Timestamp

/-- The characters are the digits of a number. -/
def Spells (chars : List Char) (n : Nat) : Prop :=
  chars ≠ [] ∧ (∀ c ∈ chars, c.isDigit = true) ∧ Nat.ofDigitChars 10 chars 0 = n

theorem spells_toString (n : Nat) : Spells (toString n).toList n := by
  rw [Nat.toString_eq_ofList_toDigits, String.toList_ofList]
  exact ⟨Nat.toDigits_ne_nil, fun _ member => Nat.isDigit_of_mem_toDigits (by decide) (by decide) member,
    Nat.ofDigitChars_ten_toDigits⟩

theorem spells_pad2 (n : Nat) : Spells (Xml.pad2 n).toList n := by
  obtain ⟨filled, digits, value⟩ := spells_toString n
  unfold Xml.pad2
  split
  · rw [String.toList_append]
    refine ⟨by simp, ?_, ?_⟩
    · intro c member
      rcases List.mem_cons.mp member with rfl | inDigits
      · decide
      · exact digits c inDigits
    · exact value
  · exact ⟨filled, digits, value⟩

theorem digitGroups_append {front rest : List Char} {mark : Char} (between : mark.isDigit = false) :
    digitGroups (String.ofList (front ++ mark :: rest)) =
      digitGroups (String.ofList front) ++ digitGroups (String.ofList rest) := by
  have cut : (front ++ mark :: rest).splitOnP (fun c => !c.isDigit) =
      front.splitOnP (fun c => !c.isDigit) ++ rest.splitOnP (fun c => !c.isDigit) :=
    List.splitOnP_append_cons front rest (by rw [between]; rfl)
  simp only [digitGroups, String.toList_ofList]
  rw [cut, List.filter_append, List.map_append, List.filter_append]

theorem digitGroups_spelled {chars : List Char} {n : Nat} (spells : Spells chars n) (fits : n < 2 ^ 32) :
    digitGroups (String.ofList chars) = [n] := by
  obtain ⟨filled, digits, value⟩ := spells
  have whole : chars.splitOnP (fun c => !c.isDigit) = [chars] :=
    List.splitOnP_eq_singleton fun c member => by rw [digits c member]; rfl
  simpa [digitGroups, whole, filled, value] using fits

theorem digitGroups_cons {chars rest : List Char} {n : Nat} {mark : Char} (spells : Spells chars n) (fits : n < 2 ^ 32)
    (between : mark.isDigit = false) :
    digitGroups (String.ofList (chars ++ mark :: rest)) = n :: digitGroups (String.ofList rest) := by
  rw [digitGroups_append between, digitGroups_spelled spells fits]
  rfl

theorem Timestamp.toList_text (stamp : Timestamp) : ∃ mark after, mark.isDigit = false ∧ stamp.text = String.ofList
    ((toString stamp.date.year).toList ++ '-' :: ((Xml.pad2 stamp.date.month).toList ++ '-' ::
      ((Xml.pad2 stamp.date.day).toList ++ 'T' :: ((Xml.pad2 stamp.hour).toList ++ ':' ::
        ((Xml.pad2 stamp.minute).toList ++ ':' :: ((Xml.pad2 stamp.second).toList ++ mark :: after)))))) := by
  unfold Timestamp.text
  cases stamp.fraction with
  | none =>
    refine ⟨'Z', [], rfl, ?_⟩
    rw [← String.toList_inj]
    simp
  | some digits =>
    refine ⟨'.', digits ++ ['Z'], rfl, ?_⟩
    rw [← String.toList_inj]
    simp

theorem digitGroups_text (stamp : Timestamp) : ∃ rest, digitGroups stamp.text =
    stamp.date.year :: stamp.date.month :: stamp.date.day :: stamp.hour :: stamp.minute :: stamp.second :: rest := by
  obtain ⟨mark, after, noDigit, isText⟩ := stamp.toList_text
  have month := stamp.date.isMonth
  have day := stamp.date.isDay.2
  have longest := monthLength_le stamp.date.year stamp.date.month
  have hour := stamp.isHour
  have minute := stamp.isMinute
  have second := stamp.isSecond
  refine ⟨digitGroups (String.ofList after), ?_⟩
  rw [isText, digitGroups_cons (spells_toString _) stamp.fits rfl, digitGroups_cons (spells_pad2 _) (by omega) rfl,
    digitGroups_cons (spells_pad2 _) (by omega) rfl, digitGroups_cons (spells_pad2 _) (by omega) rfl,
    digitGroups_cons (spells_pad2 _) (by omega) rfl, digitGroups_cons (spells_pad2 _) (by omega) noDigit]

theorem daysFromCivil_eq {date : Date} (since : 1970 ≤ date.year) :
    daysFromCivil date.year date.month date.day = date.dayNumber 1970 := by
  have number : date.dayNumber 1970 + marchDays 1969 + 306 = marchDays date.marchYear + date.marchDay :=
    dayNumber_eq since
  have fixed : marchDays 1969 = 719162 := by decide
  have day := date.isDay.1
  obtain ⟨era, year, isYear, split⟩ : ∃ era year, year < 400 ∧ date.marchYear = 400 * era + year :=
    ⟨date.marchYear / 400, date.marchYear % 400, by omega, by omega⟩
  rw [split, marchDays_era era isYear, fixed] at number
  have shifted : (if date.month ≤ 2 then (date.year : Int) - 1 else date.year) = 400 * era + year := by
    unfold Date.marchYear at split
    split at split <;> split <;> omega
  have month : (if date.month > 2 then (date.month : Int) - 3 else date.month + 9) = date.marchMonth := by
    have first := date.isMonth.1
    unfold Date.marchMonth
    split <;> split <;> omega
  unfold daysFromCivil
  simp only [shifted, month, tdiv_lifted (show (-1 : Int) ≤ 400 * era + year by omega)]
  have eras : ((400 * era + year : Int)) / 400 = era := by omega
  have ofEra : (400 * era + year : Int) - era * 400 = year := by omega
  rw [eras, ofEra]
  unfold Date.marchDay at number
  omega

theorem Timestamp.seconds_lt (stamp : Timestamp) : stamp.seconds < 2 ^ 64 := by
  have month := stamp.date.isMonth
  have day := stamp.date.isDay.2
  have longest := monthLength_le stamp.date.year stamp.date.month
  have days := (daysFromCivil_bounds stamp.fits (m := stamp.date.month) (d := stamp.date.day) (by omega) (by omega)).2
  rw [daysFromCivil_eq stamp.since] at days
  have hour := stamp.isHour
  have minute := stamp.isMinute
  have second := stamp.isSecond
  unfold Timestamp.seconds
  omega

theorem parseIso8601ToUnix_text (stamp : Timestamp) : (parseIso8601ToUnix stamp.text).toNat = stamp.seconds := by
  obtain ⟨rest, groups⟩ := digitGroups_text stamp
  have total : (stamp.date.dayNumber 1970 : Int) * 86400 + stamp.hour * 3600 + stamp.minute * 60 + stamp.second =
      (stamp.seconds : Nat) := by
    unfold Timestamp.seconds
    push_cast
    rfl
  unfold parseIso8601ToUnix
  rw [groups]
  dsimp only
  rw [daysFromCivil_eq stamp.since, total, Int.max_eq_left (Int.natCast_nonneg _), Int.toNat_natCast]
  exact UInt64.toNat_ofNat_of_lt' stamp.seconds_lt

end OneDriveDavfs.Graph
