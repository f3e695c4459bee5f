import PlanFold.Proofs.Milliseconds
import PlanFold.Proofs.TimestampText

/-!
# Shifting a timestamp there and back

A duration moves a timestamp by the nearest whole number of its milliseconds,
and the duration of the opposite sign moves it by as many the other way. Where
the clock shows a year of four digits in between, the text in between is read
as the shifted timestamp, so that both together do what subtracting nothing
does: they write the timestamp in its one form, in its own offset and with all
nine digits of its fraction.
-/

set_option autoImplicit false

namespace PlanFold

open Numeric

namespace Numeric

def Double.RoundsTo (x : Double) (n : Int) : Prop :=
  (2 * (n * unitsInOne - x.signed)).natAbs ≤ unitsInOne ∧
    ((2 * (n * unitsInOne - x.signed)).natAbs = unitsInOne → x.units < (n * unitsInOne).natAbs)

instance (x : Double) (n : Int) : Decidable (x.RoundsTo n) :=
  inferInstanceAs (Decidable (_ ∧ _))

def Binary64.RoundsTo : Binary64 → Int → Prop
  | .finite x, n => x.RoundsTo n
  | .infinite _, _ => False
  | .undefined, n => n = 0

instance : (x : Binary64) → (n : Int) → Decidable (x.RoundsTo n)
  | .finite x, n => inferInstanceAs (Decidable (x.RoundsTo n))
  | .infinite _, _ => inferInstanceAs (Decidable False)
  | .undefined, n => inferInstanceAs (Decidable (n = 0))

theorem roundHalfUp_nearest (num : Nat) {den : Nat} (hden : 0 < den) :
    (2 * ((roundHalfUp num den : Int) * den - num)).natAbs ≤ den ∧
      ((2 * ((roundHalfUp num den : Int) * den - num)).natAbs = den →
        num < ((roundHalfUp num den : Int) * den).natAbs) := by
  have hdivmod := Nat.div_add_mod' num den
  have hmod := Nat.mod_lt num hden
  unfold roundHalfUp
  dsimp only
  generalize num / den = whole at *
  generalize num % den = part at *
  rw [← hdivmod]
  split <;> push_cast [Int.add_mul] <;> omega

theorem eq_roundHalfUp {num den : Nat} {n : Int} (hden : 0 < den)
    (hnear : (2 * (n * den - num)).natAbs ≤ den)
    (htie : (2 * (n * den - num)).natAbs = den → num < (n * den).natAbs) :
    n = roundHalfUp num den := by
  have hdivmod := Nat.div_add_mod' num den
  have hmod := Nat.mod_lt num hden
  unfold roundHalfUp
  dsimp only
  generalize num / den = whole at *
  generalize num % den = part at *
  obtain ⟨k, rfl⟩ : ∃ k : Int, n = whole + k := ⟨n - whole, by omega⟩
  rw [← hdivmod] at hnear htie
  push_cast [Int.add_mul] at hnear htie
  have hlow : 0 ≤ k := by
    by_contra hneg
    have : k * den ≤ -1 * den := Int.mul_le_mul_of_nonneg_right (by omega) (Int.natCast_nonneg den)
    omega
  have hhigh : k ≤ 1 := by
    by_contra hlarge
    have : 2 * (den : Int) ≤ k * den :=
      Int.mul_le_mul_of_nonneg_right (by omega) (Int.natCast_nonneg den)
    omega
  obtain rfl | rfl : k = 0 ∨ k = 1 := by omega
  · split <;> omega
  · split <;> omega

theorem Double.nearest_neg (x : Double) : x.neg.nearest = -x.nearest := by
  unfold nearest neg
  cases x.negative
  · simp only [Bool.not_false, if_true, Bool.false_eq_true, if_false]
  · simp only [Bool.not_true, if_true, Bool.false_eq_true, if_false, Int.neg_neg]

theorem Double.signed_neg (x : Double) : x.neg.signed = -x.signed := by
  unfold signed neg
  cases x.negative
  · simp only [Bool.not_false, if_true, Bool.false_eq_true, if_false]
  · simp only [Bool.not_true, if_true, Bool.false_eq_true, if_false, Int.neg_neg]

theorem Double.roundsTo_neg {x : Double} {n : Int} : x.neg.RoundsTo (-n) ↔ x.RoundsTo n := by
  have hdistance : 2 * (-n * unitsInOne - x.neg.signed) = -(2 * (n * unitsInOne - x.signed)) := by
    rw [x.signed_neg]
    ring
  unfold RoundsTo
  rw [hdistance, Int.neg_mul, Int.natAbs_neg, Int.natAbs_neg]
  rfl

theorem Double.roundsTo_iff_of_nonneg {x : Double} {n : Int} (hsign : x.negative = false) :
    x.RoundsTo n ↔ n = x.nearest := by
  unfold RoundsTo signed nearest
  simp only [hsign, Bool.false_eq_true, if_false]
  constructor
  · rintro ⟨hnear, htie⟩
    exact eq_roundHalfUp unitsInOne_pos hnear htie
  · rintro rfl
    exact roundHalfUp_nearest x.units unitsInOne_pos

/-- Every double is rounded to exactly one whole number. -/
theorem Double.roundsTo_iff {x : Double} {n : Int} : x.RoundsTo n ↔ n = x.nearest := by
  cases hsign : x.negative with
  | false => exact roundsTo_iff_of_nonneg hsign
  | true =>
    have hneg : x.neg.negative = false := by
      show (!x.negative) = false
      rw [hsign]
      rfl
    rw [← roundsTo_neg, roundsTo_iff_of_nonneg hneg, x.nearest_neg]
    exact neg_inj

theorem Binary64.RoundsTo.neg {x : Binary64} {n : Int} (h : x.RoundsTo n) :
    x.neg.RoundsTo (-n) := by
  cases x with
  | finite x => exact Double.roundsTo_neg.mpr h
  | infinite negative => exact h
  | undefined => exact Int.neg_eq_zero.mpr h

theorem Binary64.neg_mul_thousand (x : Binary64) :
    x.neg.mul (.ofInt 1000) = (x.mul (.ofInt 1000)).neg := by
  cases x with
  | finite x =>
    have hunits : x.neg.units = x.units := rfl
    rw [neg, mul_thousand, mul_thousand]
    by_cases hgrid : OnGrid (rounded (x.units * 1000))
    · rw [dif_pos hgrid, dif_pos (hunits.symm ▸ hgrid)]
      rfl
    · rw [dif_neg hgrid, dif_neg (hunits.symm ▸ hgrid)]
      rfl
  | infinite negative => rw [neg, infinite_mul_thousand, infinite_mul_thousand, neg]
  | undefined => rfl

end Numeric

namespace Timestamp

def nanosInMillisecond : Int := 1000000

def instant (t : Timestamp) : Int := t.second * nanosInSecond + t.nano

def ofInstant (instant offset : Int) : Timestamp :=
  ⟨instant / nanosInSecond, instant % nanosInSecond, offset⟩

def back (t : Timestamp) (milliseconds : Int) : Timestamp :=
  ofInstant (t.instant - milliseconds * nanosInMillisecond) t.offset

theorem instant_ofInstant (instant offset : Int) :
    (ofInstant instant offset).instant = instant := by
  simp only [Timestamp.instant, ofInstant]
  rw [Int.mul_comm]
  exact Int.mul_ediv_add_emod _ _

theorem instant_back (t : Timestamp) (n : Int) :
    (t.back n).instant = t.instant - n * nanosInMillisecond :=
  instant_ofInstant _ _

theorem nano_back (t : Timestamp) (n : Int) :
    0 ≤ (t.back n).nano ∧ (t.back n).nano < nanosInSecond := by
  simp only [back, ofInstant, nanosInSecond]
  omega

variable {t : Timestamp} {n : Int}

theorem later_neg (hnano : t.nano < nanosInSecond) (n : Int) : t.later (-n) = t.back n := by
  have hsplit := Int.mul_tdiv_add_tmod (-n) 1000
  rw [later, if_pos hnano]
  generalize (-n).tdiv 1000 = seconds at *
  generalize (-n).tmod 1000 = part at *
  simp only [carried, back, ofInstant, instant, nanosInSecond, nanosInMillisecond, mk.injEq,
    and_true]
  omega

namespace Ordinary

theorem ofInstant_instant (h : t.Ordinary) : ofInstant t.instant t.offset = t := by
  have hnonneg := h.nano_nonneg
  have hnano := h.nano_lt
  have hsecond : t.instant / nanosInSecond = t.second := by
    unfold instant nanosInSecond at *
    omega
  have hpart : t.instant % nanosInSecond = t.nano := by
    unfold instant nanosInSecond at *
    omega
  rw [ofInstant, hsecond, hpart]

theorem back_zero (h : t.Ordinary) : t.back 0 = t := by
  rw [back, Int.zero_mul, Int.sub_zero, h.ofInstant_instant]

theorem back_neg (h : t.Ordinary) (n : Int) : (t.back n).back (-n) = t := by
  rw [back, instant_back, Int.neg_mul, Int.sub_neg, Int.sub_add_cancel]
  exact h.ofInstant_instant

theorem shownSecond_bounds (h : t.Ordinary) :
    0 ≤ t.shownSecond ∧ t.shownSecond < 315569520000 := by
  obtain ⟨hstart, hend⟩ := Calendar.yearStart_yearOf (t.shownSecond / secondsInDay)
  have hfirst : 0 ≤ Calendar.yearStart t.clockYear := Calendar.yearStart_mono h.year_nonneg
  have hlast : Calendar.yearStart (t.clockYear + 1) ≤ 3652425 :=
    Calendar.yearStart_mono (b := 10000) (Int.add_le_add_right h.year_le 1)
  unfold clockYear at hfirst hlast
  unfold secondsInDay at *
  omega

end Ordinary

theorem inYears_of_bounds {second : Int} (hlow : -86400 ≤ second) (hhigh : second < 315569606400) :
    inYears second = true := by
  have hfirst : Calendar.yearStart firstYear = -95745764 := by decide
  have hlast : Calendar.yearStart (lastYear + 1) = 95745765 := by decide
  simp only [inYears, hfirst, hlast, secondsInDay, Bool.and_eq_true, decide_eq_true_eq]
  omega

namespace Ordinary

theorem isShown (h : t.Ordinary) : t.isShown = true := by
  obtain ⟨hfirst, hlast⟩ := h.shownSecond_bounds
  exact inYears_of_bounds (by omega) (by omega)

theorem inRange (h : t.Ordinary) : t.inRange = true := by
  obtain ⟨hfirst, hlast⟩ := h.shownSecond_bounds
  have hoffset := h.offset_le
  unfold shownSecond at hfirst hlast
  exact inYears_of_bounds (by omega) (by omega)

theorem earlier? (h : t.Ordinary) (hback : (t.back n).Ordinary) :
    t.earlier? n = some (t.back n) := by
  rw [Timestamp.earlier?, later_neg h.nano_lt]
  exact if_pos hback.inRange

theorem shift_bounds (h : t.Ordinary) (hback : (t.back n).Ordinary) :
    -315569520000000 < n ∧ n < 315569520000000 := by
  have hinstant := t.instant_back n
  have hoffset : (t.back n).offset = t.offset := rfl
  have hshown := h.shownSecond_bounds
  have hshown' := hback.shownSecond_bounds
  have hnano := h.nano_lt
  have hnano' := hback.nano_lt
  have hnonneg := h.nano_nonneg
  have hnonneg' := hback.nano_nonneg
  simp only [instant, shownSecond, nanosInSecond, nanosInMillisecond, hoffset] at *
  omega

end Ordinary

end Timestamp

namespace Duration

/-- The duration moves timestamps by so many milliseconds: they are the whole number that its
seconds times a thousand, as a double, are rounded to. -/
structure MovesBy (d : Duration) (n : Int) : Prop where
  rounds : (d.seconds.mul (.ofInt 1000)).RoundsTo n

instance (d : Duration) (n : Int) : Decidable (d.MovesBy n) :=
  decidable_of_iff _ ⟨MovesBy.mk, MovesBy.rounds⟩

theorem MovesBy.neg {d : Duration} {n : Int} (h : d.MovesBy n) :
    (Duration.mk d.seconds.neg).MovesBy (-n) := by
  refine ⟨?_⟩
  rw [Binary64.neg_mul_thousand]
  exact h.rounds.neg

theorem MovesBy.milliseconds_eq {d : Duration} {n : Int} (h : d.MovesBy n)
    (hlow : leastSigned ≤ n) (hhigh : n ≤ greatestSigned) : d.milliseconds = n := by
  have hrounds := h.rounds
  unfold milliseconds
  cases hproduct : d.seconds.mul (.ofInt 1000) with
  | finite product =>
    rw [hproduct] at hrounds
    rw [saturatedNearest, ← Double.roundsTo_iff.mp hrounds]
    unfold saturate
    omega
  | infinite negative =>
    rw [hproduct] at hrounds
    exact hrounds.elim
  | undefined =>
    rw [hproduct] at hrounds
    exact hrounds.symm

theorem movesBy_zero (negative : Bool) :
    (Duration.mk (.finite (Double.zero negative))).MovesBy 0 := by
  cases negative <;> decide +kernel

/-- A duration of so many milliseconds moves a timestamp back by them. -/
theorem subtractFrom?_timestamp {d : Duration} {text : String} {t : Timestamp} {n : Int}
    (hread : Timestamp.ofText? text = some t) (hmoves : d.MovesBy n) (h : t.Ordinary)
    (hback : (t.back n).Ordinary) :
    d.subtractFrom? (.string text) = some (.string (t.back n).text) := by
  have hshort := h.shift_bounds hback
  have hmilliseconds : d.milliseconds = n := by
    refine hmoves.milliseconds_eq ?_ ?_
    · unfold leastSigned
      omega
    · unfold greatestSigned
      omega
  have hleast : n ≠ leastSigned := by
    unfold leastSigned
    omega
  simp only [subtractFrom?, subtractFromText?, hread, hmilliseconds, hleast, if_false,
    h.earlier? hback, hback.isShown, if_true, Option.map_some]

/-- A duration that moves a timestamp to a year of four digits and the duration of the opposite
sign leave the text that a zero duration leaves; the text in between is that of the instant so
many milliseconds earlier in the same offset. -/
theorem subtractFrom?_neg_cancel (d : Duration) {n : Int} {text : String} {t : Timestamp}
    (hread : Timestamp.ofText? text = some t)
    (hsecond : Timestamp.secondDigits text.toList ≠ ['6', '0']) (hmoves : d.MovesBy n)
    (hyear : 0 ≤ (t.back n).clockYear ∧ (t.back n).clockYear ≤ 9999) :
    d.subtractFrom? (.string text) = some (.string (t.back n).text) ∧
    Timestamp.ofText? (t.back n).text = some (t.back n) ∧
    (t.back n).instant = t.instant - n * Timestamp.nanosInMillisecond ∧
    (t.back n).offset = t.offset ∧
    (Duration.mk d.seconds.neg).subtractFrom? (.string (t.back n).text) =
      some (.string t.text) ∧
    (∀ negative, (Duration.mk (.finite (Double.zero negative))).subtractFrom? (.string text) =
      some (.string t.text)) ∧
    Timestamp.ofText? t.text = some t := by
  have h : t.Ordinary := by
    obtain ⟨r, rfl, hsixty⟩ := Timestamp.exists_reading_of_chars hread
    exact Timestamp.Reading.ordinary (mt hsixty.mp hsecond)
  have hback : (t.back n).Ordinary :=
    ⟨hyear.1, hyear.2, (t.nano_back n).1, (t.nano_back n).2, h.offset_le⟩
  have hreturn : (t.back n).back (-n) = t := h.back_neg n
  have hstay : t.back 0 = t := h.back_zero
  refine ⟨subtractFrom?_timestamp hread hmoves h hback, hback.readBack, t.instant_back n, rfl,
    ?_, fun negative => ?_, h.readBack⟩
  · have hforth := subtractFrom?_timestamp hback.readBack hmoves.neg hback (hreturn.symm ▸ h)
    rwa [hreturn] at hforth
  · have hzero := movesBy_zero negative
    have hnone := subtractFrom?_timestamp hread hzero h (hstay.symm ▸ h)
    rwa [hstay] at hnone

/-- A day and a sixteenth of a second, which is half a millisecond more than a whole number of
them, lead across the end of a February with 29 days and back. -/
theorem subtractFrom?_neg_cancel_february :
    let d : Duration :=
      ⟨.finite ⟨false, 86400 * unitsInOne + unitsInOne / 16, by decide +kernel⟩⟩
    let t : Timestamp := ⟨63876450600, 23456789, 330⟩
    let text := "2024-03-01t00:00:00.0234567899+05:30"
    let between := "2024-02-28T23:59:59.960456789+05:30"
    let written := "2024-03-01T00:00:00.023456789+05:30"
    Timestamp.ofText? text = some t ∧ d.MovesBy 86400063 ∧
    d.subtractFrom? (.string text) = some (.string between) ∧
    Timestamp.ofText? between = some (t.back 86400063) ∧
    (Duration.mk d.seconds.neg).subtractFrom? (.string between) = some (.string written) ∧
    (Duration.mk (.finite (Double.zero false))).subtractFrom? (.string text) =
      some (.string written) ∧
    Timestamp.ofText? written = some t := by
  intro d t text between written
  have hread : Timestamp.ofText? text = some t := by decide +kernel
  have hsecond : Timestamp.secondDigits text.toList ≠ ['6', '0'] := by decide +kernel
  have hmoves : d.MovesBy 86400063 := by decide +kernel
  have hyear : 0 ≤ (t.back 86400063).clockYear ∧ (t.back 86400063).clockYear ≤ 9999 := by
    decide +kernel
  have hbetween : (t.back 86400063).text = between := by decide +kernel
  have hwritten : t.text = written := by decide +kernel
  obtain ⟨hback, hbackRead, -, -, hforth, hzero, hwrittenRead⟩ :=
    subtractFrom?_neg_cancel d hread hsecond hmoves hyear
  rw [hbetween] at hback hbackRead hforth
  rw [hwritten] at hforth hwrittenRead
  have hnone := hzero false
  rw [hwritten] at hnone
  exact ⟨hread, hmoves, hback, hbackRead, hforth, hnone, hwrittenRead⟩

end Duration

end PlanFold
