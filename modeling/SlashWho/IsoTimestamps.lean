import Mathlib.Tactic.IntervalCases

/-!
Time values in milliseconds and the ISO text of one. A day number is split into
a year, a month and a date of the proleptic Gregorian calendar; the text writes
them and the time of day in digits of fixed width, in UTC. Reading what was
written gives the time value back.
-/

namespace SlashWho.IsoTimestamps

def msPerDay : ℤ := 86400000

/-- The last time value that has a date. -/
def maxTime : ℤ := 8640000000000000

def InRange (t : ℤ) : Prop := -maxTime ≤ t ∧ t ≤ maxTime

instance (t : ℤ) : Decidable (InRange t) := inferInstanceAs (Decidable (_ ∧ _))

/-- The number of the first day of a year, counted from 1970. -/
def dayFromYear (y : ℤ) : ℤ :=
  365 * (y - 1970) + (y - 1969) / 4 - (y - 1901) / 100 + (y - 1601) / 400

/-- An estimate from the mean year is at most one year off. -/
def yearFromDay (d : ℤ) : ℤ :=
  let y := 1970 + d * 400 / 146097
  if d < dayFromYear y then y - 1 else if dayFromYear (y + 1) ≤ d then y + 1 else y

def inLeapYear (y : ℤ) : ℤ := if y % 4 = 0 ∧ (y % 100 ≠ 0 ∨ y % 400 = 0) then 1 else 0

/-- The days of a year before its month, January being 1. -/
def monthStart (leap : ℤ) : ℕ → ℤ
  | 1 => 0
  | 2 => 31
  | 3 => 59 + leap
  | 4 => 90 + leap
  | 5 => 120 + leap
  | 6 => 151 + leap
  | 7 => 181 + leap
  | 8 => 212 + leap
  | 9 => 243 + leap
  | 10 => 273 + leap
  | 11 => 304 + leap
  | 12 => 334 + leap
  | _ => 365 + leap

/-- The first month, from the one given on, that ends after a day of the year. -/
def monthFrom (leap d : ℤ) : ℕ → ℕ → ℕ
  | 0, month => month
  | left + 1, month =>
    if d < monthStart leap (month + 1) then month else monthFrom leap d left (month + 1)

def monthFromDay (leap d : ℤ) : ℕ := monthFrom leap d 11 1

structure CivilDate where
  year : ℤ
  month : ℕ
  date : ℕ
  deriving DecidableEq

def civilFromDay (d : ℤ) : CivilDate :=
  let year := yearFromDay d
  let month := monthFromDay (inLeapYear year) (d - dayFromYear year)
  ⟨year, month, (d - dayFromYear year - monthStart (inLeapYear year) month).toNat + 1⟩

def dayFromCivil (c : CivilDate) : ℤ :=
  dayFromYear c.year + monthStart (inLeapYear c.year) c.month + c.date - 1

/-- A month of the year and a date of that month. -/
def CivilDate.Valid (c : CivilDate) : Prop :=
  1 ≤ c.month ∧ c.month ≤ 12 ∧ 1 ≤ c.date ∧
    c.date ≤ monthStart (inLeapYear c.year) (c.month + 1) -
      monthStart (inLeapYear c.year) c.month

instance (c : CivilDate) : Decidable c.Valid := inferInstanceAs (Decidable (_ ∧ _))

theorem dayFromYear_succ (y : ℤ) : dayFromYear (y + 1) = dayFromYear y + 365 + inLeapYear y := by
  unfold dayFromYear inLeapYear
  split_ifs <;> omega

theorem yearFromDay_spec (d : ℤ) :
    dayFromYear (yearFromDay d) ≤ d ∧ d < dayFromYear (yearFromDay d + 1) := by
  unfold yearFromDay
  simp only
  split_ifs with hbefore hafter
  · rw [Int.sub_add_cancel]
    refine ⟨?_, hbefore⟩
    unfold dayFromYear
    omega
  · refine ⟨hafter, ?_⟩
    unfold dayFromYear
    omega
  · exact ⟨Int.not_lt.mp hbefore, Int.not_le.mp hafter⟩

theorem monthFrom_spec {leap d : ℤ} {left : ℕ} (month : ℕ)
    (hstart : monthStart leap month ≤ d) (hlast : d < monthStart leap (month + left + 1)) :
    month ≤ monthFrom leap d left month ∧ monthFrom leap d left month ≤ month + left ∧
      monthStart leap (monthFrom leap d left month) ≤ d ∧
      d < monthStart leap (monthFrom leap d left month + 1) := by
  induction left generalizing month with
  | zero => exact ⟨Nat.le_refl _, Nat.le_refl _, hstart, hlast⟩
  | succ left ih =>
    unfold monthFrom
    by_cases hend : d < monthStart leap (month + 1)
    · rw [if_pos hend]
      exact ⟨Nat.le_refl _, by omega, hstart, hend⟩
    · rw [if_neg hend]
      have hrest := ih (month + 1) (Int.not_lt.mp hend)
        (by rwa [show month + 1 + left + 1 = month + (left + 1) + 1 by omega])
      refine ⟨by omega, by omega, hrest.2.2⟩

theorem monthFromDay_spec (leap d : ℤ) (hd : 0 ≤ d) (hlast : d < 365 + leap) :
    1 ≤ monthFromDay leap d ∧ monthFromDay leap d ≤ 12 ∧
      monthStart leap (monthFromDay leap d) ≤ d ∧
      d < monthStart leap (monthFromDay leap d + 1) :=
  monthFrom_spec 1 hd hlast

theorem civilFromDay_spec (d : ℤ) :
    (civilFromDay d).Valid ∧ dayFromCivil (civilFromDay d) = d := by
  have hyear := yearFromDay_spec d
  rw [dayFromYear_succ] at hyear
  obtain ⟨hfirst, htwelve, hstart, hend⟩ := monthFromDay_spec
    (inLeapYear (yearFromDay d)) (d - dayFromYear (yearFromDay d)) (by omega) (by omega)
  unfold CivilDate.Valid dayFromCivil civilFromDay
  simp only
  omega

theorem CivilDate.Valid.date_lt {c : CivilDate} (h : c.Valid) : c.date < 100 := by
  obtain ⟨hfirst, hlast, -, hdate⟩ := h
  have hleap : inLeapYear c.year ≤ 1 := by
    unfold inLeapYear
    split_ifs <;> decide
  have hlength : monthStart (inLeapYear c.year) (c.month + 1) -
      monthStart (inLeapYear c.year) c.month ≤ 31 := by
    generalize c.month = month at hfirst hlast ⊢
    interval_cases month <;> simp only [monthStart] <;> omega
  omega

/-! Digits of a fixed width. -/

def digitOf (n : ℕ) : Char := Char.ofNat (48 + n % 10)

def padded : ℕ → ℕ → List Char
  | 0, _ => []
  | width + 1, n => padded width (n / 10) ++ [digitOf n]

def digitValue (c : Char) : Option ℕ :=
  if 48 ≤ c.toNat ∧ c.toNat ≤ 57 then some (c.toNat - 48) else none

/-- The number a text of digits writes. -/
def readDigits (chars : List Char) : Option ℕ :=
  chars.foldl (fun read c => read.bind fun n => (digitValue c).map (10 * n + ·)) (some 0)

/-- A number of exactly this many digits, and the text after it. -/
def takeDigits (width : ℕ) (chars : List Char) : Option (ℕ × List Char) :=
  if chars.length < width then none
  else (readDigits (chars.take width)).map fun n => (n, chars.drop width)

def takeChar (c : Char) : List Char → Option (List Char)
  | [] => none
  | d :: rest => if c = d then some rest else none

@[simp] theorem length_padded (width n : ℕ) : (padded width n).length = width := by
  induction width generalizing n with
  | zero => rfl
  | succ width ih => simp [padded, ih]

theorem digitValue_digitOf (n : ℕ) : digitValue (digitOf n) = some (n % 10) := by
  have hlt : n % 10 < 10 := Nat.mod_lt n (by omega)
  unfold digitOf
  generalize n % 10 = k at hlt ⊢
  interval_cases k <;> rfl

theorem readDigits_padded {width n : ℕ} (h : n < 10 ^ width) :
    readDigits (padded width n) = some n := by
  induction width generalizing n with
  | zero =>
    have hzero : n = 0 := by simpa using h
    subst hzero
    rfl
  | succ width ih =>
    have hlt : n / 10 < 10 ^ width := by
      rw [pow_succ] at h
      omega
    have hinit := ih hlt
    unfold readDigits at hinit ⊢
    rw [padded, List.foldl_append, hinit]
    simp only [List.foldl_cons, List.foldl_nil, Option.bind_some, digitValue_digitOf,
      Option.map_some, Option.some.injEq]
    omega

theorem takeDigits_padded {width n : ℕ} (h : n < 10 ^ width) (rest : List Char) :
    takeDigits width (padded width n ++ rest) = some (n, rest) := by
  unfold takeDigits
  rw [if_neg (by simp), List.take_left' (length_padded width n),
    List.drop_left' (length_padded width n), readDigits_padded h]
  rfl

@[simp] theorem takeChar_cons (c : Char) (rest : List Char) : takeChar c (c :: rest) = some rest :=
  if_pos rfl

/-! The text of a time value. -/

structure TimeOfDay where
  hour : ℕ
  minute : ℕ
  second : ℕ
  millisecond : ℕ
  deriving DecidableEq

def timeOfDay (ms : ℕ) : TimeOfDay :=
  ⟨ms / 3600000, ms / 60000 % 60, ms / 1000 % 60, ms % 1000⟩

def TimeOfDay.toMs (t : TimeOfDay) : ℕ :=
  3600000 * t.hour + 60000 * t.minute + 1000 * t.second + t.millisecond

def TimeOfDay.Valid (t : TimeOfDay) : Prop :=
  t.hour < 24 ∧ t.minute < 60 ∧ t.second < 60

instance (t : TimeOfDay) : Decidable t.Valid := inferInstanceAs (Decidable (_ ∧ _))

/-- A year outside four digits has a sign and six. -/
def yearText (y : ℤ) : List Char :=
  if 0 ≤ y ∧ y ≤ 9999 then padded 4 y.toNat
  else if 0 ≤ y then '+' :: padded 6 y.toNat
  else '-' :: padded 6 (-y).toNat

def dateText (c : CivilDate) (rest : List Char) : List Char :=
  yearText c.year ++ '-' :: (padded 2 c.month ++ '-' :: (padded 2 c.date ++ 'T' :: rest))

def timeText (t : TimeOfDay) : List Char :=
  padded 2 t.hour ++ ':' :: (padded 2 t.minute ++ ':' :: (padded 2 t.second ++
    '.' :: (padded 3 t.millisecond ++ ['Z'])))

def toISOString (t : ℤ) : String :=
  String.ofList (dateText (civilFromDay (t / msPerDay))
    (timeText (timeOfDay (t % msPerDay).toNat)))

/-! Reading a text of that form. -/

def takeYear : List Char → Option (ℤ × List Char)
  | '+' :: rest => (takeDigits 6 rest).map fun read => (read.1, read.2)
  | '-' :: rest => (takeDigits 6 rest).map fun read => (-read.1, read.2)
  | chars => (takeDigits 4 chars).map fun read => (read.1, read.2)

def takeDate (chars : List Char) : Option (CivilDate × List Char) := do
  let (year, chars) ← takeYear chars
  let chars ← takeChar '-' chars
  let (month, chars) ← takeDigits 2 chars
  let chars ← takeChar '-' chars
  let (date, chars) ← takeDigits 2 chars
  let chars ← takeChar 'T' chars
  return (⟨year, month, date⟩, chars)

def takeTime (chars : List Char) : Option (TimeOfDay × List Char) := do
  let (hour, chars) ← takeDigits 2 chars
  let chars ← takeChar ':' chars
  let (minute, chars) ← takeDigits 2 chars
  let chars ← takeChar ':' chars
  let (second, chars) ← takeDigits 2 chars
  let chars ← takeChar '.' chars
  let (millisecond, chars) ← takeDigits 3 chars
  let chars ← takeChar 'Z' chars
  return (⟨hour, minute, second, millisecond⟩, chars)

/-- The time value a text names; no text of a date or a time that is none, or
of one out of range, names one. -/
def readISOString (text : String) : Option ℤ := do
  let (c, chars) ← takeDate text.toList
  let (t, chars) ← takeTime chars
  let value := dayFromCivil c * msPerDay + t.toMs
  if chars = [] ∧ c.Valid ∧ t.Valid ∧ InRange value then some value else none

theorem digitOf_ne_sign (n : ℕ) : digitOf n ≠ '+' ∧ digitOf n ≠ '-' := by
  have hvalue := digitValue_digitOf n
  constructor
  · intro h
    rw [h] at hvalue
    cases hvalue
  · intro h
    rw [h] at hvalue
    cases hvalue

theorem takeYear_padded (n : ℕ) (h : n < 10 ^ 4) (rest : List Char) :
    takeYear (padded 4 n ++ rest) = some ((n : ℤ), rest) := by
  have hread := takeDigits_padded h rest
  have hsign := digitOf_ne_sign (n / 10 / 10 / 10)
  simp only [padded, List.nil_append, List.cons_append] at hread ⊢
  unfold takeYear
  split
  · next heq => exact absurd (List.cons.inj heq).1 hsign.1
  · next heq => exact absurd (List.cons.inj heq).1 hsign.2
  · rw [hread]
    rfl

theorem takeYear_yearText {y : ℤ} (h : -1000000 < y ∧ y < 1000000) (rest : List Char) :
    takeYear (yearText y ++ rest) = some (y, rest) := by
  unfold yearText
  split_ifs with hfour hpositive
  · rw [takeYear_padded y.toNat (by omega), Int.toNat_of_nonneg hfour.1]
  · rw [List.cons_append]
    change (takeDigits 6 (padded 6 y.toNat ++ rest)).map _ = _
    rw [takeDigits_padded (by omega), Option.map_some, Int.toNat_of_nonneg hpositive]
  · rw [List.cons_append]
    change (takeDigits 6 (padded 6 (-y).toNat ++ rest)).map _ = _
    rw [takeDigits_padded (by omega), Option.map_some, Int.toNat_of_nonneg (by omega),
      Int.neg_neg]

theorem takeDate_dateText {c : CivilDate} (hyear : -1000000 < c.year ∧ c.year < 1000000)
    (hmonth : c.month < 100) (hdate : c.date < 100) (rest : List Char) :
    takeDate (dateText c rest) = some (c, rest) := by
  unfold takeDate dateText
  simp only [takeYear_yearText hyear, takeDigits_padded (show c.month < 10 ^ 2 from hmonth),
    takeDigits_padded (show c.date < 10 ^ 2 from hdate), takeChar_cons, Option.bind_eq_bind,
    Option.bind_some, Option.pure_def]

theorem takeTime_timeText {t : TimeOfDay} (h : t.Valid) (hms : t.millisecond < 1000) :
    takeTime (timeText t) = some (t, []) := by
  obtain ⟨hhour, hminute, hsecond⟩ := h
  unfold takeTime timeText
  simp only [takeDigits_padded (show t.hour < 10 ^ 2 by omega),
    takeDigits_padded (show t.minute < 10 ^ 2 by omega),
    takeDigits_padded (show t.second < 10 ^ 2 by omega),
    takeDigits_padded (show t.millisecond < 10 ^ 3 by omega), takeChar_cons,
    Option.bind_eq_bind, Option.bind_some, Option.pure_def]

theorem timeOfDay_spec {ms : ℕ} (h : ms < 86400000) :
    (timeOfDay ms).Valid ∧ (timeOfDay ms).millisecond < 1000 ∧ (timeOfDay ms).toMs = ms := by
  unfold TimeOfDay.Valid TimeOfDay.toMs timeOfDay
  simp only
  omega

theorem year_bounds {d : ℤ} (h : -100000000 ≤ d ∧ d ≤ 100000000) :
    -1000000 < (civilFromDay d).year ∧ (civilFromDay d).year < 1000000 := by
  have hyear := yearFromDay_spec d
  change -1000000 < yearFromDay d ∧ yearFromDay d < 1000000
  unfold dayFromYear at hyear
  omega

example : toISOString 1767225599999 = "2025-12-31T23:59:59.999Z" := by decide +kernel

/-- What a time value's text names is the time value. -/
theorem readISOString_toISOString {t : ℤ} (h : InRange t) :
    readISOString (toISOString t) = some t := by
  have hdivmod := Int.mul_ediv_add_emod t msPerDay
  have hms : 0 ≤ t % msPerDay ∧ t % msPerDay < msPerDay := by
    unfold msPerDay
    omega
  have hday : -100000000 ≤ t / msPerDay ∧ t / msPerDay ≤ 100000000 := by
    unfold InRange maxTime at h
    unfold msPerDay
    omega
  obtain ⟨hvalid, hback⟩ := civilFromDay_spec (t / msPerDay)
  obtain ⟨htime, hmillisecond, htoMs⟩ := timeOfDay_spec
    (show (t % msPerDay).toNat < 86400000 by unfold msPerDay at hms ⊢; omega)
  have hmonth : (civilFromDay (t / msPerDay)).month < 100 := by
    have hlast := hvalid.2.1
    omega
  have hdate : (civilFromDay (t / msPerDay)).date < 100 := by
    exact hvalid.date_lt
  have hvalue : dayFromCivil (civilFromDay (t / msPerDay)) * msPerDay +
      ((timeOfDay (t % msPerDay).toNat).toMs : ℤ) = t := by
    rw [hback, htoMs, Int.toNat_of_nonneg hms.1, Int.mul_comm, hdivmod]
  unfold readISOString toISOString
  rw [String.toList_ofList, takeDate_dateText (year_bounds hday) hmonth hdate]
  simp only [Option.bind_eq_bind, Option.bind_some]
  rw [takeTime_timeText htime hmillisecond]
  simp only [Option.bind_some, hvalue]
  rw [if_pos ⟨trivial, hvalid, htime, h⟩]

end SlashWho.IsoTimestamps
