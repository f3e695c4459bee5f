import PlanFold.Proofs.Milliseconds

/-!
# Differences of whole numbers

A whole number that loses a whole number of seconds is a whole number again
where number and difference fit 64 signed bits, and a double otherwise. The
seconds are cut at 64 signed bits before they are subtracted, so this is said
of the cut seconds; it is said of the seconds themselves but for the few
numbers from which the cut seconds still leave something that fits.
-/

set_option autoImplicit false

namespace PlanFold

open Numeric

namespace Numeric

theorem Double.units_add_le (x : Double) {power : Nat} (h : unitsLimit = 2 ^ (power + 54)) :
    x.units + 2 * 2 ^ power ≤ 2 ^ (power + 54) := by
  have hlimit : 2 ^ (power + 54) = 2 ^ 53 * (2 * 2 ^ power) := by
    rw [pow_add]
    ring
  have hpos := Nat.two_pow_pos power
  have hlt : x.units < 2 ^ (power + 54) := h ▸ x.onGrid.1
  rcases Nat.lt_or_ge x.units (2 ^ (power + 53)) with hlow | hhigh
  · have hhalf : 2 ^ (power + 53) = 2 ^ 52 * (2 * 2 ^ power) := by
      rw [pow_add]
      ring
    omega
  · have hzero : x.units ≠ 0 := by
      have := Nat.two_pow_pos (power + 53)
      omega
    have hlog : power + 53 ≤ x.units.log2 := (Nat.le_log2 hzero).mpr hhigh
    have hstep : 2 * 2 ^ power ∣ gridStep x.units := by
      rw [gridStep_eq, ← pow_succ']
      exact Nat.pow_dvd_pow 2 (by omega)
    obtain ⟨k, hk⟩ := hstep.trans (Nat.dvd_of_mod_eq_zero x.onGrid.2)
    have hk' : k < 2 ^ 53 := by
      by_contra hge
      have := Nat.mul_le_mul_left (2 * 2 ^ power) (Nat.le_of_not_lt hge)
      omega
    calc x.units + 2 * 2 ^ power = 2 * 2 ^ power * (k + 1) := by rw [hk]; ring
      _ ≤ 2 * 2 ^ power * 2 ^ 53 := Nat.mul_le_mul_left _ hk'
      _ = 2 ^ (power + 54) := by rw [hlimit, Nat.mul_comm]

theorem Binary64.ofSigned_finite {zeroNegative : Bool} {n : Int} {power : Nat}
    (hlimit : unitsLimit = 2 ^ (power + 54)) (h : n.natAbs + 2 ^ power < 2 ^ (power + 54)) :
    ∃ y, ofSigned zeroNegative n = .finite y := by
  unfold ofSigned
  split
  · exact ⟨_, rfl⟩
  · have hround : rounded n.natAbs < unitsLimit := hlimit ▸ rounded_lt_two_pow h
    exact ⟨_, by rw [ofUnits_one, dif_pos (onGrid_rounded hround)]⟩

theorem natAbs_whole_lt (n : Whole) : n.val.natAbs < 2 ^ 64 := by
  have hleast := n.least
  have hgreatest := n.greatest
  unfold leastSigned at hleast
  unfold greatestWhole at hgreatest
  omega

theorem Double.natAbs_signed (x : Double) : x.signed.natAbs = x.units := by
  unfold signed
  split <;> omega

theorem Binary64.ofInt_whole (n : Whole) {digits : Nat} (hdigits : unitsInOne = 2 ^ digits)
    (hlimit : 2 ^ (digits + 64) < unitsLimit) :
    ∃ y, ofInt n.val = .finite y ∧ y.units ≤ 2 ^ (digits + 64) := by
  have hunits : n.val.natAbs * unitsInOne < 2 ^ (digits + 64) := by
    rw [hdigits, pow_add, Nat.mul_comm]
    exact Nat.mul_lt_mul_of_pos_left (natAbs_whole_lt n) (Nat.two_pow_pos _)
  have hround := rounded_le_two_pow hunits
  have hgrid : OnGrid (rounded (n.val.natAbs * unitsInOne)) :=
    onGrid_rounded (Nat.lt_of_le_of_lt hround hlimit)
  refine ⟨⟨decide (n.val < 0), _, hgrid⟩, ?_, hround⟩
  rw [ofInt, ofRatio, ofUnits_one, dif_pos hgrid]

theorem Binary64.sub_finite (n : Whole) (x : Double) :
    ∃ y, (ofInt n.val).sub (.finite x) = .finite y := by
  obtain ⟨digits, power, hfar, hone, hlimit⟩ := unitsLimit_pow
  have hfirst : 2 * 2 ^ (digits + 64) ≤ 2 ^ power := by
    rw [← pow_succ']
    exact Nat.pow_le_pow_right (by decide) (by omega)
  have hgap := x.units_add_le hlimit
  have hpos := Nat.two_pow_pos power
  obtain ⟨whole, hwhole, hunits⟩ := ofInt_whole n hone (by rw [hlimit]; omega)
  rw [hwhole]
  refine ofSigned_finite hlimit ?_
  have habs := Int.natAbs_add_le whole.signed x.neg.signed
  rw [Double.natAbs_signed, Double.natAbs_signed, show x.neg.units = x.units from rfl] at habs
  omega

theorem Double.truncate_of_signed {x : Double} {s : Int} (h : x.signed = s * unitsInOne) :
    x.isWhole = true ∧ x.truncate = s := by
  have hpos := unitsInOne_pos
  have hunits : x.units = s.natAbs * unitsInOne := by
    rw [← x.natAbs_signed, h, Int.natAbs_mul, Int.natAbs_natCast]
  have hquotient : x.units / unitsInOne = s.natAbs := by
    rw [hunits, Nat.mul_div_cancel _ hpos]
  refine ⟨by simp [isWhole, hunits], ?_⟩
  unfold truncate signed at *
  rw [hquotient]
  split
  next hnegative =>
    rw [if_pos hnegative, hunits] at h
    have hsign : s ≤ 0 := by
      by_contra hs
      have := Int.mul_pos (Int.not_le.mp hs) (Int.natCast_pos.mpr hpos)
      omega
    omega
  next hpositive =>
    rw [if_neg hpositive] at h
    have hsign : 0 ≤ s := by
      by_contra hs
      have := Int.mul_neg_of_neg_of_pos (Int.not_le.mp hs) (Int.natCast_pos.mpr hpos)
      omega
    omega

end Numeric

def FitsSigned (n : Int) : Prop := leastSigned ≤ n ∧ n ≤ greatestSigned

instance (n : Int) : Decidable (FitsSigned n) :=
  inferInstanceAs (Decidable (_ ∧ _))

namespace Duration

/-- A number is the difference of a whole number and whole seconds: exactly, where both
fit 64 signed bits, and otherwise the double nearest to the difference in doubles. -/
def Difference (d : Duration) (n : Whole) (s : Int) (difference : Number) : Prop :=
  if FitsSigned n.val ∧ FitsSigned (n.val - s) then
    ∃ whole : Whole, whole.val = n.val - s ∧ difference = .whole whole
  else ∃ y, (Binary64.ofInt n.val).sub d.seconds = .finite y ∧ difference = .double y

theorem fitsSigned_signed? (n : Whole) :
    (Number.whole n).signed? = if FitsSigned n.val then some n.val else none := by
  have hleast := n.least
  simp [Number.signed?, Whole.signed?, FitsSigned, hleast]

theorem wholeDifference?_eq {d : Duration} {x : Double} {s : Int} (hd : d.seconds = .finite x)
    (hs : x.signed = s * unitsInOne) (n : Whole) :
    d.wholeDifference? (.whole n) =
      if FitsSigned n.val ∧ FitsSigned (n.val - saturate s) then Whole.ofInt? (n.val - saturate s)
      else none := by
  obtain ⟨hwhole, htruncate⟩ := Double.truncate_of_signed hs
  have hguard : d.isWhole = true := by
    unfold isWhole
    rw [hd]
    exact hwhole
  have hseconds : saturatedWhole d.seconds = saturate s := by
    rw [hd, saturatedWhole, htruncate]
  unfold wholeDifference?
  rw [hguard, hseconds, fitsSigned_signed?]
  by_cases hn : FitsSigned n.val
  · rw [if_pos hn]
    show (guard (FitsSigned (n.val - saturate s)) >>= fun _ => Whole.ofInt? _) = _
    by_cases hdifference : FitsSigned (n.val - saturate s)
    · rw [if_pos ⟨hn, hdifference⟩, guard, if_pos hdifference]
      rfl
    · rw [if_neg (hdifference ·.2), guard, if_neg hdifference]
      rfl
  · rw [if_neg hn, if_neg (hn ·.1)]
    rfl

theorem subtractFromNumber_whole {d : Duration} {x : Double} {s : Int}
    (hd : d.seconds = .finite x) (hs : x.signed = s * unitsInOne) (n : Whole) :
    d.Difference n (saturate s) (d.subtractFromNumber (.whole n)) := by
  unfold Difference subtractFromNumber
  rw [wholeDifference?_eq hd hs]
  split
  next hfits =>
    have hwhole : leastSigned ≤ n.val - saturate s ∧ n.val - saturate s ≤ greatestWhole := by
      obtain ⟨_, hleast, hgreatest⟩ := hfits
      exact ⟨hleast, hgreatest.trans (by decide)⟩
    rw [Whole.ofInt?, dif_pos hwhole]
    exact ⟨_, rfl, rfl⟩
  next =>
    obtain ⟨y, hy⟩ := Binary64.sub_finite n x
    rw [← hd] at hy
    refine ⟨y, hy, ?_⟩
    show d.doubleDifference (.whole n) = .double y
    rw [doubleDifference, Number.toBinary64, hy]
    rfl

/-- The seconds are cut at 64 signed bits, and what is left of the number fits them. -/
def Overshoots (n : Whole) (s : Int) : Prop :=
  FitsSigned n.val ∧ (greatestSigned < s ∧ -1 ≤ n.val ∨ s < leastSigned ∧ n.val < 0)

instance (n : Whole) (s : Int) : Decidable (Overshoots n s) :=
  inferInstanceAs (Decidable (_ ∧ _))

theorem Overshoots.fits {n : Whole} {s : Int} (h : Overshoots n s) :
    FitsSigned n.val ∧ FitsSigned (n.val - saturate s) := by
  unfold Overshoots FitsSigned saturate leastSigned greatestSigned at *
  omega

theorem Overshoots.saturate_ne {n : Whole} {s : Int} (h : Overshoots n s) : saturate s ≠ s := by
  unfold Overshoots FitsSigned saturate leastSigned greatestSigned at *
  omega

theorem fits_saturate_iff {n : Whole} {s : Int} (h : ¬Overshoots n s) :
    FitsSigned n.val ∧ FitsSigned (n.val - saturate s) ↔
      FitsSigned n.val ∧ FitsSigned (n.val - s) := by
  unfold Overshoots FitsSigned saturate leastSigned greatestSigned at *
  omega

theorem saturate_of_fits {n : Whole} {s : Int} (h : ¬Overshoots n s)
    (hfits : FitsSigned n.val ∧ FitsSigned (n.val - s)) : saturate s = s := by
  unfold Overshoots FitsSigned saturate leastSigned greatestSigned at *
  omega

/-- The difference by the cut seconds is the difference, but where the cut overshoots. -/
theorem difference_saturate_iff {d : Duration} {n : Whole} {s : Int} {difference : Number}
    (h : d.Difference n (saturate s) difference) :
    d.Difference n s difference ↔ ¬Overshoots n s := by
  constructor
  · intro hexact hover
    rw [Difference, if_pos hover.fits] at h
    obtain ⟨whole, hval, rfl⟩ := h
    unfold Difference at hexact
    split at hexact
    · obtain ⟨other, hother, hsame⟩ := hexact
      cases hsame
      have hne := hover.saturate_ne
      omega
    · obtain ⟨y, _, hdouble⟩ := hexact
      cases hdouble
  · intro hover
    have hiff := fits_saturate_iff hover
    unfold Difference at h ⊢
    split
    next hfits =>
      rwa [if_pos (hiff.mpr hfits), saturate_of_fits hover hfits] at h
    next hfits =>
      rwa [if_neg (fun hcut => hfits (hiff.mp hcut))] at h

/-- A whole number from which whole seconds are subtracted loses the seconds cut at 64
signed bits, exactly where number and difference fit them and otherwise in doubles. That
is the exact difference unless the cut overshoots. -/
theorem subtractFrom?_whole {d : Duration} {x : Double} {s : Int} (hd : d.seconds = .finite x)
    (hs : x.signed = s * unitsInOne) (n : Whole) :
    ∃ difference, d.subtractFrom? (.number (.whole n)) = some (.number difference) ∧
      d.Difference n (saturate s) difference ∧
      (d.Difference n s difference ↔ ¬Overshoots n s) := by
  have hcut := subtractFromNumber_whole hd hs n
  exact ⟨_, rfl, hcut, difference_saturate_iff hcut⟩

/-- The greatest number of 64 signed bits is reached exactly. -/
theorem subtractFrom?_whole_greatest :
    ∃ d, ofText? "-PT9223372036854774784S" = some d ∧
      d.subtractFrom? (.number (.whole (.saturated 1023))) =
        some (.number (.whole (.saturated 9223372036854775807))) := by
  let x : Double := ⟨true, 9223372036854774784 * unitsInOne, by decide +kernel⟩
  have hs : x.signed = -9223372036854774784 * unitsInOne := by decide +kernel
  obtain ⟨difference, hsubtract, _, hexact⟩ :=
    subtractFrom?_whole (d := ⟨.finite x⟩) rfl hs (.saturated 1023)
  have hdifference := hexact.mpr (by decide +kernel)
  refine ⟨⟨.finite x⟩, by decide +kernel, ?_⟩
  rw [Difference, if_pos (by decide +kernel)] at hdifference
  obtain ⟨⟨val, _, _⟩, hval, rfl⟩ := hdifference
  obtain rfl : val = 9223372036854775807 := hval
  exact hsubtract

/-- Seconds of 2^63 are cut to one less, which taken from zero leaves a number that fits. -/
theorem subtractFrom?_whole_overshoots :
    ∃ d x, ofText? "PT9223372036854775808S" = some d ∧ d.seconds = .finite x ∧
      x.signed = 9223372036854775808 * unitsInOne ∧ FitsSigned (0 - 9223372036854775808) ∧
      d.subtractFrom? (.number (.whole (.saturated 0))) =
        some (.number (.whole (.saturated (-9223372036854775807)))) := by
  let x : Double := ⟨false, 2 ^ 63 * unitsInOne, onGrid_two_pow⟩
  have hdifference : subtractFromNumber ⟨.finite x⟩ (.whole (.saturated 0)) =
      .whole (.saturated (-9223372036854775807)) := by decide +kernel
  refine ⟨⟨.finite x⟩, x, by decide +kernel, rfl, by decide +kernel, by decide, ?_⟩
  rw [subtractFrom?, hdifference]

end Duration

end PlanFold
