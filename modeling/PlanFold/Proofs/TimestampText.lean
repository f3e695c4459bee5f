import Mathlib.Data.List.Basic
import Mathlib.Data.Option.Basic
import PlanFold.Proofs.CalendarDates
import PlanFold.Proofs.DurationText
import PlanFold.Timestamp.Text

/-!
# Reading the text of a timestamp

What a text can say is a valid date of the years 0 to 9999, a time of the day
with a second up to the sixtieth, nine digits of its fraction and an offset of
less than a day. Every text that is a timestamp says so, and the text that is
written for it says the same: it is read as the same timestamp. So is the text
of every timestamp outside leap seconds whose clock shows one of these years.
-/

set_option autoImplicit false

namespace PlanFold.Timestamp

open Calendar Duration

def clockYear (t : Timestamp) : Int := yearOf (t.shownSecond / secondsInDay)

structure Reading where
  date : Date
  hour : Nat
  minute : Nat
  second : Nat
  nano : Nat
  offset : Int
  date_valid : date.isValid = true
  year_nonneg : 0 ≤ date.year
  year_le : date.year ≤ 9999
  hour_le : hour ≤ 23
  minute_le : minute ≤ 59
  second_le : second ≤ 60
  nano_lt : nano < 1000000000
  offset_le : offset.natAbs ≤ 1439

namespace Reading

def timestamp (r : Reading) : Timestamp :=
  ofClock r.date r.hour r.minute r.second r.nano r.offset

def chars (r : Reading) : List Char :=
  padded 4 r.date.year.toNat ++ '-' :: padded 2 r.date.month ++ '-' :: padded 2 r.date.day ++
    'T' :: padded 2 r.hour ++ ':' :: padded 2 r.minute ++ ':' :: padded 2 r.second ++
    fractionChars r.nano ++ offsetChars r.offset

end Reading

theorem isDigit_iff {c : Char} : c.isDigit = true ↔ 48 ≤ c.toNat ∧ c.toNat ≤ 57 := by
  simp [Char.isDigit, UInt32.le_iff_toNat_le]

theorem ofDigitChars_lt {cs : List Char} (h : ∀ c ∈ cs, c.isDigit = true) (before : Nat) :
    Nat.ofDigitChars 10 cs before < (before + 1) * 10 ^ cs.length := by
  induction cs generalizing before with
  | nil => simp [Nat.ofDigitChars]
  | cons c cs ih =>
    obtain ⟨_, hc⟩ := isDigit_iff.mp (h c (by simp))
    have hdigit : 10 * before + (c.toNat - '0'.toNat) + 1 ≤ (before + 1) * 10 := by
      show 10 * before + (c.toNat - 48) + 1 ≤ (before + 1) * 10
      omega
    rw [Nat.ofDigitChars_cons]
    calc Nat.ofDigitChars 10 cs (10 * before + (c.toNat - '0'.toNat))
        < (10 * before + (c.toNat - '0'.toNat) + 1) * 10 ^ cs.length :=
          ih (fun c hc => h c (by simp [hc])) _
      _ ≤ (before + 1) * 10 * 10 ^ cs.length := Nat.mul_le_mul_right _ hdigit
      _ = (before + 1) * 10 ^ (c :: cs).length := by
          rw [Nat.mul_assoc, ← Nat.pow_succ', List.length_cons]

theorem twoDigits?_eq_sixty {a b : Char} {n : Nat} (h : twoDigits? a b = some n) :
    n = 60 ↔ [a, b] = ['6', '0'] := by
  unfold twoDigits? at h
  split at h
  next hdigits =>
    simp only [Bool.and_eq_true, isDigit_iff] at hdigits
    obtain rfl := Option.some.inj h
    have hvalue : Nat.ofDigitChars 10 [a, b] 0 = 10 * (a.toNat - 48) + (b.toNat - 48) := by
      simp [Nat.ofDigitChars]
    have hchars : [a, b] = ['6', '0'] ↔ a.toNat = 54 ∧ b.toNat = 48 := by
      simp [← Char.toNat_inj]
    rw [hvalue, hchars]
    omega
  next => cases h

theorem lt_of_fourDigits? {a b c d : Char} {n : Nat} (h : fourDigits? a b c d = some n) :
    n < 10000 := by
  unfold fourDigits? at h
  split at h
  next hdigits =>
    obtain rfl := Option.some.inj h
    have hall : ∀ x ∈ [a, b, c, d], x.isDigit = true := by simpa [and_assoc] using hdigits
    simpa using ofDigitChars_lt hall 0
  next => cases h

theorem nanosOf_lt {digits : List Char} (h : ∀ c ∈ digits, c.isDigit = true) :
    nanosOf digits < 1000000000 := by
  have hdigits : ∀ c ∈ digits.take 9, c.isDigit = true := fun c hc => h c (List.mem_of_mem_take hc)
  have hkept := ofDigitChars_lt hdigits 0
  have hlength : (digits.take 9).length ≤ 9 := List.length_take_le _ _
  calc nanosOf digits
      < (0 + 1) * 10 ^ (digits.take 9).length * 10 ^ (9 - (digits.take 9).length) :=
        Nat.mul_lt_mul_of_pos_right hkept (Nat.pow_pos (by decide))
    _ = 1000000000 := by
        rw [Nat.zero_add, Nat.one_mul, ← Nat.pow_add, Nat.add_sub_cancel' hlength]

theorem lt_of_fraction? {cs rest : List Char} {nano : Nat}
    (h : fraction? cs = some (nano, rest)) : nano < 1000000000 := by
  unfold fraction? at h
  split at h
  · dsimp only at h
    split at h
    · cases h
    · cases h
      exact nanosOf_lt fun c hc => List.mem_takeWhile_imp hc
  · cases h
    decide

theorem le_of_offset? {cs : List Char} {offset : Int} (h : offset? cs = some offset) :
    offset.natAbs ≤ 1439 := by
  unfold offset? at h
  split at h
  · cases h
    decide
  · cases h
    decide
  · simp only [Option.bind_eq_bind, Option.bind_eq_some_iff] at h
    obtain ⟨hours, -, minutes, -, h⟩ := h
    split at h
    · cases h
    · split at h
      · cases h
        omega
      · split at h
        · cases h
          omega
        · cases h
  · cases h

def secondDigits (cs : List Char) : List Char := (cs.drop 17).take 2

theorem exists_reading_of_chars {cs : List Char} {t : Timestamp} (h : ofChars? cs = some t) :
    ∃ r : Reading, r.timestamp = t ∧ (r.second = 60 ↔ secondDigits cs = ['6', '0']) := by
  unfold ofChars? at h
  split at h
  next =>
    simp only [Option.bind_eq_bind, Option.bind_eq_some_iff, Option.guard_eq_some',
      Bool.and_eq_true, decide_eq_true_eq] at h
    obtain ⟨year, hyear, month, -, day, -, hour, -, minute, -, second, hsecond, _,
      ⟨⟨⟨⟨-, hdate⟩, hhour⟩, hminute⟩, hsixty⟩, ⟨nano, rest⟩, hnano, offset, hoffset, ht⟩ := h
    have hlast := lt_of_fourDigits? hyear
    let r : Reading :=
      { date := ⟨year, month, day⟩, hour, minute, second, nano, offset
        date_valid := hdate
        year_nonneg := Int.natCast_nonneg year
        year_le := by dsimp only; omega
        hour_le := hhour
        minute_le := hminute
        second_le := hsixty
        nano_lt := lt_of_fraction? hnano
        offset_le := le_of_offset? hoffset }
    exact ⟨r, Option.some.inj ht, twoDigits?_eq_sixty hsecond⟩
  next => cases h

theorem digits_padded (width n : Nat) : Digits (padded width n) :=
  digits_zeros_append _ n

theorem ofDigitChars_padded (width n : Nat) : Nat.ofDigitChars 10 (padded width n) 0 = n :=
  ofDigitChars_zeros_append _ n

theorem length_padded {width n : Nat} (hwidth : 0 < width) (h : n < 10 ^ width) :
    (padded width n).length = width := by
  have := (Nat.length_toDigits_le_iff (by decide) hwidth).mpr h
  simp only [padded, List.length_append, List.length_replicate]
  omega

theorem exists_padded_two {n : Nat} (h : n < 100) :
    ∃ a b, padded 2 n = [a, b] ∧ twoDigits? a b = some n := by
  obtain ⟨a, b, hab⟩ := List.length_eq_two.mp (length_padded (by decide) h)
  have hvalue := ofDigitChars_padded 2 n
  have hdigits := (digits_padded 2 n).2
  rw [hab] at hvalue hdigits
  exact ⟨a, b, hab, by simp [twoDigits?, hvalue, hdigits]⟩

theorem exists_padded_four {n : Nat} (h : n < 10000) :
    ∃ a b c d, padded 4 n = [a, b, c, d] ∧ fourDigits? a b c d = some n := by
  obtain ⟨a, b, c, d, habcd⟩ := List.length_eq_four.mp (length_padded (by decide) h)
  have hvalue := ofDigitChars_padded 4 n
  have hdigits := (digits_padded 4 n).2
  rw [habcd] at hvalue hdigits
  exact ⟨a, b, c, d, habcd, by simp [fourDigits?, hvalue, hdigits]⟩

theorem nanosOf_padded {width n : Nat} (hwidth : 0 < width) (hnine : width ≤ 9)
    (h : n < 10 ^ width) : nanosOf (padded width n) = n * 10 ^ (9 - width) := by
  have hlength := length_padded hwidth h
  rw [nanosOf, List.take_of_length_le (by omega), ofDigitChars_padded, hlength]
  rfl

theorem exists_offsetChars (offset : Int) :
    ∃ c cs, offsetChars offset = c :: cs ∧ c.isDigit = false ∧ c ≠ '.' := by
  unfold offsetChars
  split
  · exact ⟨'Z', [], rfl, rfl, by decide⟩
  · split
    · exact ⟨'-', _, rfl, rfl, by decide⟩
    · exact ⟨'+', _, rfl, rfl, by decide⟩

theorem fraction?_offsetChars (offset : Int) :
    fraction? (offsetChars offset) = some (0, offsetChars offset) := by
  obtain ⟨c, cs, hcs, -, hc⟩ := exists_offsetChars offset
  rw [hcs]
  unfold fraction?
  split
  next hpoint => exact absurd (List.cons.inj hpoint).1 hc
  next => rfl

theorem fraction?_point (width n : Nat) (offset : Int) :
    fraction? ('.' :: padded width n ++ offsetChars offset) =
      some (nanosOf (padded width n), offsetChars offset) := by
  obtain ⟨hne, hdigits⟩ := digits_padded width n
  obtain ⟨c, cs, hcs, hc, -⟩ := exists_offsetChars offset
  obtain ⟨htake, hdrop⟩ := span_digits (offsetChars offset) hdigits (by simp [hcs, hc])
  simp [fraction?, htake, hdrop, hne]

theorem fraction?_fractionChars {nano : Nat} (h : nano < 1000000000) (offset : Int) :
    fraction? (fractionChars nano ++ offsetChars offset) = some (nano, offsetChars offset) := by
  have hplaces : ∀ width, 0 < width → width ≤ 9 → 10 ^ (9 - width) ∣ nano →
      fraction? ('.' :: padded width (nano / 10 ^ (9 - width)) ++ offsetChars offset) =
        some (nano, offsetChars offset) := by
    intro width hwidth hnine hzeros
    have hlt : nano / 10 ^ (9 - width) < 10 ^ width := by
      apply Nat.div_lt_of_lt_mul
      rwa [← Nat.pow_add, Nat.sub_add_cancel hnine]
    rw [fraction?_point, nanosOf_padded hwidth hnine hlt, Nat.div_mul_cancel hzeros]
  unfold fractionChars
  split
  next hzero =>
    rw [hzero]
    exact fraction?_offsetChars offset
  next =>
    split
    next hmilli => exact hplaces 3 (by decide) (by decide) (Nat.dvd_of_mod_eq_zero hmilli)
    next =>
      split
      next hmicro => exact hplaces 6 (by decide) (by decide) (Nat.dvd_of_mod_eq_zero hmicro)
      next =>
        have hnine := hplaces 9 (by decide) (by decide) (Nat.one_dvd nano)
        rwa [Nat.sub_self, Nat.pow_zero, Nat.div_one] at hnine

theorem offset?_offsetChars {offset : Int} (h : offset.natAbs ≤ 1439) :
    offset? (offsetChars offset) = some offset := by
  obtain ⟨a, b, hhours, hhours'⟩ := exists_padded_two (n := offset.natAbs / 60) (by omega)
  obtain ⟨c, d, hminutes, hminutes'⟩ := exists_padded_two (n := offset.natAbs % 60) (by omega)
  have hrange : ¬(23 < offset.natAbs / 60 ∨ 59 < offset.natAbs % 60) := by omega
  unfold offsetChars
  split
  next hzero => rw [hzero, offset?]
  next hzero =>
    rw [hhours, hminutes]
    split
    next hsign =>
      have hother : ¬ '-' = '+' := by decide
      simp only [offset?, hhours', hminutes', hrange, hother, List.cons_append, List.nil_append,
        Option.bind_eq_bind, Option.bind_some, if_false, true_or, if_true, Option.some.injEq]
      omega
    next hsign =>
      simp only [offset?, hhours', hminutes', hrange, List.cons_append, List.nil_append,
        Option.bind_eq_bind, Option.bind_some, if_false, if_true, Option.some.injEq]
      omega

namespace Reading

theorem ofChars?_chars (r : Reading) : ofChars? r.chars = some r.timestamp := by
  have hmonth := Date.month_le r.date_valid
  have hday := Date.day_le r.date_valid
  have hyear := r.year_le
  have hhour := r.hour_le
  have hminute := r.minute_le
  have hsecond := r.second_le
  obtain ⟨y₁, y₂, y₃, y₄, hy, hy'⟩ := exists_padded_four (n := r.date.year.toNat) (by omega)
  obtain ⟨m₁, m₂, hm, hm'⟩ := exists_padded_two (n := r.date.month) (by omega)
  obtain ⟨d₁, d₂, hd, hd'⟩ := exists_padded_two (n := r.date.day) (by omega)
  obtain ⟨h₁, h₂, hh, hh'⟩ := exists_padded_two (n := r.hour) (by omega)
  obtain ⟨n₁, n₂, hn, hn'⟩ := exists_padded_two (n := r.minute) (by omega)
  obtain ⟨s₁, s₂, hs, hs'⟩ := exists_padded_two (n := r.second) (by omega)
  have hdate : (⟨(r.date.year.toNat : Int), r.date.month, r.date.day⟩ : Date) = r.date := by
    rw [Int.toNat_of_nonneg r.year_nonneg]
  have hguard : (isSeparator 'T' && r.date.isValid && decide (r.hour ≤ 23) &&
      decide (r.minute ≤ 59) && decide (r.second ≤ 60)) = true := by
    simp [isSeparator, r.date_valid, hhour, hminute, hsecond]
  rw [chars, hy, hm, hd, hh, hn, hs]
  simp only [List.cons_append, List.nil_append]
  simp only [ofChars?, hy', hm', hd', hh', hn', hs', hdate, hguard, guard, if_true,
    fraction?_fractionChars r.nano_lt, offset?_offsetChars r.offset_le, Option.bind_eq_bind,
    Option.bind_some, Option.pure_def]
  rfl

def inDay (r : Reading) : Nat :=
  r.hour * 3600 + r.minute * 60 + if r.second = 60 then 59 else r.second

theorem inDay_lt (r : Reading) : r.inDay < 86400 := by
  have := r.hour_le
  have := r.minute_le
  have := r.second_le
  unfold inDay
  split <;> omega

theorem inDay_fields (r : Reading) : r.inDay / 3600 = r.hour ∧ r.inDay / 60 % 60 = r.minute ∧
    r.inDay % 60 + (if r.second = 60 then 1 else 0) = r.second := by
  have := r.minute_le
  have := r.second_le
  unfold inDay
  split <;> omega

theorem shownSecond_timestamp (r : Reading) :
    r.timestamp.shownSecond = r.date.dayNumber * secondsInDay + r.inDay := by
  unfold shownSecond timestamp ofClock inDay
  dsimp only
  omega

theorem shownDay_timestamp (r : Reading) :
    r.timestamp.shownSecond / secondsInDay = r.date.dayNumber := by
  have := r.inDay_lt
  rw [shownSecond_timestamp]
  unfold secondsInDay
  omega

theorem clockYear_timestamp (r : Reading) : r.timestamp.clockYear = r.date.year := by
  rw [clockYear, r.shownDay_timestamp, Date.yearOf_dayNumber r.date_valid]

theorem nano_timestamp (r : Reading) :
    r.timestamp.nano = r.nano + if r.second = 60 then nanosInSecond else 0 := rfl

theorem nanosInSecond_le_nano_iff (r : Reading) :
    nanosInSecond ≤ r.timestamp.nano ↔ r.second = 60 := by
  have := r.nano_lt
  rw [nano_timestamp]
  unfold nanosInSecond
  split <;> omega

theorem shownInDay_timestamp (r : Reading) :
    (r.timestamp.shownSecond % secondsInDay).toNat = r.inDay := by
  have := r.inDay_lt
  rw [shownSecond_timestamp]
  unfold secondsInDay
  omega

theorem fraction_timestamp (r : Reading) : (r.timestamp.nano % nanosInSecond).toNat = r.nano := by
  have := r.nano_lt
  rw [nano_timestamp]
  unfold nanosInSecond
  split <;> omega

/-- The text of a timestamp that was read says what was read. -/
theorem chars_timestamp (r : Reading) : r.timestamp.chars = r.chars := by
  obtain ⟨hhour, hminute, hsecond⟩ := r.inDay_fields
  have hdate : Date.ofDayNumber (r.timestamp.shownSecond / secondsInDay) = r.date := by
    rw [r.shownDay_timestamp, Date.ofDayNumber_dayNumber r.date_valid]
  have hyear : yearChars r.date.year = padded 4 r.date.year.toNat :=
    if_pos ⟨r.year_nonneg, r.year_le⟩
  have hleap : (if nanosInSecond ≤ r.timestamp.nano then 1 else 0) =
      if r.second = 60 then 1 else 0 := if_congr r.nanosInSecond_le_nano_iff rfl rfl
  unfold Timestamp.chars Reading.chars
  simp only [hdate, hyear, r.shownInDay_timestamp, r.fraction_timestamp, hleap, hhour, hminute,
    hsecond]
  rfl

end Reading

theorem eq_of_shownSecond {s t : Timestamp} (hsecond : s.shownSecond = t.shownSecond)
    (hnano : s.nano = t.nano) (hoffset : s.offset = t.offset) : s = t := by
  cases s
  cases t
  simp only [shownSecond] at hsecond hnano hoffset
  simp only [mk.injEq]
  omega

structure Ordinary (t : Timestamp) : Prop where
  year_nonneg : 0 ≤ t.clockYear
  year_le : t.clockYear ≤ 9999
  nano_nonneg : 0 ≤ t.nano
  nano_lt : t.nano < nanosInSecond
  offset_le : t.offset.natAbs ≤ 1439

namespace Reading

theorem ordinary {r : Reading} (h : r.second ≠ 60) : r.timestamp.Ordinary where
  year_nonneg := by
    rw [r.clockYear_timestamp]
    exact r.year_nonneg
  year_le := by
    rw [r.clockYear_timestamp]
    exact r.year_le
  nano_nonneg := by
    rw [r.nano_timestamp, if_neg h]
    omega
  nano_lt := Int.not_le.mp (mt r.nanosInSecond_le_nano_iff.mp h)
  offset_le := r.offset_le

def ofOrdinary (t : Timestamp) (h : t.Ordinary) : Reading where
  date := Date.ofDayNumber (t.shownSecond / secondsInDay)
  hour := (t.shownSecond % secondsInDay).toNat / 3600
  minute := (t.shownSecond % secondsInDay).toNat / 60 % 60
  second := (t.shownSecond % secondsInDay).toNat % 60
  nano := t.nano.toNat
  offset := t.offset
  date_valid := Date.isValid_ofDayNumber _
  year_nonneg := h.year_nonneg
  year_le := h.year_le
  hour_le := by
    unfold secondsInDay
    omega
  minute_le := by omega
  second_le := by omega
  nano_lt := by
    have hnano := h.nano_lt
    unfold nanosInSecond at hnano
    omega
  offset_le := h.offset_le

theorem timestamp_ofOrdinary {t : Timestamp} (h : t.Ordinary) :
    (ofOrdinary t h).timestamp = t := by
  have hsecond : (ofOrdinary t h).second ≠ 60 := by
    show (t.shownSecond % secondsInDay).toNat % 60 ≠ 60
    omega
  have hday : (ofOrdinary t h).date.dayNumber = t.shownSecond / secondsInDay :=
    Date.dayNumber_ofDayNumber _
  have hinDay : ((ofOrdinary t h).inDay : Int) = t.shownSecond % secondsInDay := by
    rw [inDay, if_neg hsecond]
    simp only [ofOrdinary]
    unfold secondsInDay
    omega
  refine eq_of_shownSecond ?_ ?_ rfl
  · rw [shownSecond_timestamp, hday, hinDay, Int.mul_comm]
    exact Int.mul_ediv_add_emod _ _
  · rw [nano_timestamp, if_neg hsecond, Int.add_zero]
    exact Int.toNat_of_nonneg h.nano_nonneg

/-- The text of a timestamp that was read is read as the same timestamp. -/
theorem readBack (r : Reading) : ofText? r.timestamp.text = some r.timestamp := by
  rw [ofText?, text, String.toList_ofList, r.chars_timestamp, r.ofChars?_chars]

end Reading

theorem Ordinary.readBack {t : Timestamp} (h : t.Ordinary) : ofText? t.text = some t := by
  rw [← Reading.timestamp_ofOrdinary h]
  exact Reading.readBack _

end PlanFold.Timestamp
