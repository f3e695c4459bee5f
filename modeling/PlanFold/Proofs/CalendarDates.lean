import PlanFold.Timestamp.Basic

/-!
# Dates and day numbers

Every day lies in exactly one year, in one month of it and on one day of that
month. So the date of a day is valid and has that day's number, and a valid
date is the date of its number: each direction of the calendar undoes the
other, for all years in both directions.
-/

set_option autoImplicit false

namespace PlanFold.Calendar

theorem yearStart_succ (year : Int) :
    yearStart (year + 1) = yearStart year + if isLeap year then 366 else 365 := by
  unfold yearStart isLeap
  split
  next h =>
    simp only [Bool.or_eq_true, Bool.and_eq_true, decide_eq_true_eq] at h
    omega
  next h =>
    simp only [Bool.or_eq_true, Bool.and_eq_true, decide_eq_true_eq] at h
    omega

theorem yearStart_mono {a b : Int} (h : a ≤ b) : yearStart a ≤ yearStart b := by
  unfold yearStart
  omega

theorem yearStart_yearOf (day : Int) :
    yearStart (yearOf day) ≤ day ∧ day < yearStart (yearOf day + 1) := by
  unfold yearOf
  dsimp only
  generalize hguess : 400 * day / 146097 = guess
  -- the guess from the mean year is wrong by one year at most
  have hlow : yearStart (guess - 1) ≤ day := by
    unfold yearStart
    omega
  have hhigh : day < yearStart (guess + 1 + 1) := by
    unfold yearStart
    omega
  split
  next hbefore => exact ⟨hlow, by rwa [Int.sub_add_cancel]⟩
  next hbefore =>
    split
    next hafter => exact ⟨hafter, hhigh⟩
    next hafter => exact ⟨Int.not_lt.mp hbefore, Int.not_le.mp hafter⟩

theorem yearOf_eq_iff {day year : Int} :
    yearOf day = year ↔ yearStart year ≤ day ∧ day < yearStart (year + 1) := by
  constructor
  · rintro rfl
    exact yearStart_yearOf day
  · rintro ⟨hstart, hend⟩
    obtain ⟨hstart', hend'⟩ := yearStart_yearOf day
    rcases Int.lt_trichotomy (yearOf day) year with hlt | heq | hgt
    · have := yearStart_mono (Int.add_one_le_iff.mpr hlt)
      omega
    · exact heq
    · have := yearStart_mono (Int.add_one_le_iff.mpr hgt)
      omega

theorem length_monthLengths (year : Int) : (monthLengths year).length = 12 := rfl

theorem daysIn_monthLengths (year : Int) :
    (daysIn (monthLengths year).length (monthLengths year) : Int) =
      yearStart (year + 1) - yearStart year := by
  rw [yearStart_succ, length_monthLengths]
  unfold monthLengths
  cases isLeap year
  · simp only [Bool.false_eq_true, if_false, daysIn]
    omega
  · simp only [if_true, daysIn]
    omega

theorem le_of_mem_monthLengths {year : Int} {length : Nat} (h : length ∈ monthLengths year) :
    length ≤ 31 := by
  unfold monthLengths at h
  cases hleap : isLeap year <;> simp [hleap] at h <;> omega

theorem daysIn_add_lt {lengths : List Nat} {month length day : Nat}
    (hmonth : lengths[month]? = some length) (hday : day < length) :
    daysIn month lengths + day < daysIn lengths.length lengths := by
  induction lengths generalizing month with
  | nil => simp at hmonth
  | cons first rest ih =>
    cases month with
    | zero =>
      obtain rfl : first = length := by simpa using hmonth
      simp only [List.length_cons, daysIn]
      omega
    | succ month =>
      have hrest : rest[month]? = some length := by simpa using hmonth
      have := ih hrest
      simp only [List.length_cons, daysIn]
      omega

theorem passMonths_within {lengths : List Nat} {days : Nat}
    (h : days < daysIn lengths.length lengths) :
    ∃ length, lengths[(passMonths lengths days).1]? = some length ∧
      (passMonths lengths days).2 < length ∧
      daysIn (passMonths lengths days).1 lengths + (passMonths lengths days).2 = days := by
  induction lengths generalizing days with
  | nil => simp [daysIn] at h
  | cons first rest ih =>
    rw [passMonths]
    split
    next hfirst => exact ⟨first, rfl, hfirst, by simp [daysIn]⟩
    next hfirst =>
      have hremain : days - first < daysIn rest.length rest := by
        simp only [List.length_cons, daysIn] at h
        omega
      obtain ⟨length, hmonth, hday, hsum⟩ := ih hremain
      refine ⟨length, by simpa using hmonth, hday, ?_⟩
      simp only [daysIn]
      omega

theorem passMonths_daysIn {lengths : List Nat} {month length day : Nat}
    (hmonth : lengths[month]? = some length) (hday : day < length) :
    passMonths lengths (daysIn month lengths + day) = (month, day) := by
  induction lengths generalizing month with
  | nil => simp at hmonth
  | cons first rest ih =>
    cases month with
    | zero =>
      obtain rfl : first = length := by simpa using hmonth
      simp [passMonths, daysIn, hday]
    | succ month =>
      have hlater : rest[month]? = some length := by simpa using hmonth
      have hpassed : ¬first + daysIn month rest + day < first := by omega
      have hremain : first + daysIn month rest + day - first = daysIn month rest + day := by omega
      simp only [passMonths, daysIn, hpassed, if_false, hremain, ih hlater]

namespace Date

theorem isValid_iff {date : Date} : date.isValid = true ↔
    1 ≤ date.month ∧ 1 ≤ date.day ∧
      ∃ length, (monthLengths date.year)[date.month - 1]? = some length ∧ date.day ≤ length := by
  unfold isValid
  cases (monthLengths date.year)[date.month - 1]? <;> simp [and_assoc]

theorem month_le {date : Date} (h : date.isValid = true) : date.month ≤ 12 := by
  obtain ⟨_, _, length, hlength, _⟩ := isValid_iff.mp h
  obtain ⟨hmonth, _⟩ := List.getElem?_eq_some_iff.mp hlength
  rw [length_monthLengths] at hmonth
  omega

theorem day_le {date : Date} (h : date.isValid = true) : date.day ≤ 31 := by
  obtain ⟨_, _, length, hlength, hday⟩ := isValid_iff.mp h
  exact Nat.le_trans hday (le_of_mem_monthLengths (List.mem_of_getElem? hlength))

theorem dayOfYear_within (day : Int) :
    ((day - yearStart (yearOf day)).toNat : Int) = day - yearStart (yearOf day) ∧
      (day - yearStart (yearOf day)).toNat <
        daysIn (monthLengths (yearOf day)).length (monthLengths (yearOf day)) := by
  obtain ⟨hstart, hend⟩ := yearStart_yearOf day
  have hyear := daysIn_monthLengths (yearOf day)
  omega

theorem isValid_ofDayNumber (day : Int) : (ofDayNumber day).isValid = true := by
  obtain ⟨length, hmonth, hday, _⟩ := passMonths_within (dayOfYear_within day).2
  exact isValid_iff.mpr ⟨Nat.le_add_left _ _, Nat.le_add_left _ _, length, hmonth, hday⟩

/-- The date of a day has the day's number. -/
theorem dayNumber_ofDayNumber (day : Int) : (ofDayNumber day).dayNumber = day := by
  obtain ⟨hdays, hwithin⟩ := dayOfYear_within day
  obtain ⟨_, _, _, hsum⟩ := passMonths_within hwithin
  unfold dayNumber ofDayNumber
  simp only [Nat.add_sub_cancel]
  omega

theorem yearOf_dayNumber {date : Date} (h : date.isValid = true) :
    yearOf date.dayNumber = date.year := by
  obtain ⟨_, hfirst, length, hmonth, hday⟩ := isValid_iff.mp h
  have hpassed : date.day - 1 < length := by omega
  have hwithin := daysIn_add_lt hmonth hpassed
  have hyear := daysIn_monthLengths date.year
  rw [yearOf_eq_iff]
  unfold dayNumber
  omega

/-- A valid date is the date of its number. -/
theorem ofDayNumber_dayNumber {date : Date} (h : date.isValid = true) :
    ofDayNumber date.dayNumber = date := by
  obtain ⟨hjanuary, hfirst, length, hmonth, hday⟩ := isValid_iff.mp h
  have hpassed : (date.dayNumber - yearStart date.year).toNat =
      daysIn (date.month - 1) (monthLengths date.year) + (date.day - 1) := by
    unfold dayNumber
    omega
  have hinMonth : date.day - 1 < length := by omega
  have hmonths := passMonths_daysIn hmonth hinMonth
  unfold ofDayNumber
  simp only [yearOf_dayNumber h, hpassed, hmonths]
  rw [Nat.sub_add_cancel hjanuary, Nat.sub_add_cancel hfirst]

end Date

end PlanFold.Calendar
