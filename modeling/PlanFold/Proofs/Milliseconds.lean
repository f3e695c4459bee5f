import PlanFold.Adjustment
import PlanFold.Proofs.GridRounding

/-!
# The least number of milliseconds

A duration is turned into whole milliseconds through doubles and a cut at 64
signed bits, and the least of these numbers cannot be negated. It is reached
from a bound on the seconds downwards and nowhere else: the last double above
the bound is two seconds away, and rounding the product with a thousand makes
up for less than that.
-/

set_option autoImplicit false

namespace PlanFold

open Numeric

namespace Numeric

theorem le_roundHalfUp (num den : Nat) : num / den ≤ roundHalfUp num den := by
  unfold roundHalfUp
  dsimp only
  split <;> omega

theorem roundHalfUp_le (num den : Nat) : roundHalfUp num den ≤ num / den + 1 := by
  unfold roundHalfUp
  dsimp only
  split <;> omega

theorem unitsInOne_pow : ∃ digits, 52 ≤ digits ∧ unitsInOne = 2 ^ digits := by
  obtain ⟨digits, hdigits⟩ : ∃ digits, digits = 1074 := ⟨_, rfl⟩
  refine ⟨digits, by omega, ?_⟩
  unfold unitsInOne
  rw [← hdigits]
  rfl

theorem Double.even_of_large (x : Double) (h : 2 ^ 53 * unitsInOne ≤ x.units) :
    2 * unitsInOne ∣ x.units := by
  obtain ⟨digits, hdigits, hone⟩ := unitsInOne_pow
  rw [hone] at h ⊢
  rw [← pow_add] at h
  have hpos : x.units ≠ 0 := by
    have := Nat.two_pow_pos (53 + digits)
    omega
  have hlog : 53 + digits ≤ x.units.log2 := (Nat.le_log2 hpos).mpr h
  have hstep : 2 * 2 ^ digits ∣ gridStep x.units := by
    rw [gridStep_eq, ← pow_succ']
    exact Nat.pow_dvd_pow 2 (by omega)
  exact hstep.trans (Nat.dvd_of_mod_eq_zero x.onGrid.2)

theorem Double.le_of_lt_even (x : Double) {n : Nat} (hn : 2 ^ 53 ≤ 2 * n)
    (h : x.units < 2 * (n + 1) * unitsInOne) : x.units ≤ 2 * n * unitsInOne := by
  rcases Nat.lt_or_ge x.units (2 ^ 53 * unitsInOne) with hsmall | hlarge
  · exact (Nat.le_of_lt hsmall).trans (Nat.mul_le_mul_right _ hn)
  · obtain ⟨k, hk⟩ := x.even_of_large hlarge
    have hlt : k < n + 1 := by
      apply Nat.lt_of_mul_lt_mul_left (a := 2 * unitsInOne)
      calc 2 * unitsInOne * k = x.units := hk.symm
        _ < 2 * (n + 1) * unitsInOne := h
        _ = 2 * unitsInOne * (n + 1) := by ring
    calc x.units = 2 * unitsInOne * k := hk
      _ ≤ 2 * unitsInOne * n := Nat.mul_le_mul_left _ (Nat.le_of_lt_succ hlt)
      _ = 2 * n * unitsInOne := by ring

theorem rounded_le_of_lt {units power : Nat} (h : units < 2 ^ (power + 53)) :
    rounded units ≤ units + 2 ^ power := by
  have hlog : units.log2 - 52 ≤ power := by
    by_cases hzero : units = 0
    · rw [hzero]
      simp
    · have := (Nat.log2_lt hzero).mpr h
      omega
  have hstep : gridStep units ≤ 2 ^ power := by
    rw [gridStep_eq]
    exact Nat.pow_le_pow_right (by decide) hlog
  exact (rounded_le units).trans (Nat.add_le_add_left hstep _)

theorem onGrid_two_pow : OnGrid (2 ^ 63 * unitsInOne) := by decide +kernel

theorem Binary64.mul_thousand (x : Double) : mul (.finite x) (.ofInt 1000) =
    if h : OnGrid (rounded (x.units * 1000)) then
      .finite ⟨x.negative, rounded (x.units * 1000), h⟩
    else .infinite x.negative := by
  have hsmall : 1000 ≤ 2 ^ 53 := by decide
  have hunits : (Double.mk false (1000 * unitsInOne) (onGrid_whole hsmall)).units =
    1000 * unitsInOne := rfl
  have hthousand : ofInt 1000 = .finite ⟨false, 1000 * unitsInOne, onGrid_whole hsmall⟩ :=
    ofInt_small hsmall
  rw [hthousand, mul_whole x hunits]
  simp only [Bool.xor_false]

theorem Binary64.infinite_mul_thousand (negative : Bool) :
    mul (.infinite negative) (.ofInt 1000) = .infinite negative := by
  cases negative <;> decide +kernel

end Numeric

namespace Duration

def boundlessSeconds : Nat := 9223372036854776

def Boundless (d : Duration) : Prop :=
  d.seconds = .infinite true ∨
    ∃ x, d.seconds = .finite x ∧ x.signed ≤ -((boundlessSeconds * unitsInOne : Nat) : Int)

/-- From the bound on, the milliseconds round to 2^63 or more. -/
theorem le_rounded_of_boundless {units : Nat} (h : boundlessSeconds * unitsInOne ≤ units) :
    2 ^ 63 * unitsInOne ≤ rounded (units * 1000) := by
  have hproduct : 2 ^ 63 * unitsInOne ≤ units * 1000 := by
    unfold boundlessSeconds at h
    omega
  obtain ⟨digits, _, hone⟩ := unitsInOne_pow
  rw [hone, ← pow_add] at hproduct ⊢
  exact le_rounded hproduct

/-- Below the bound they are a double that rounds to less than 2^63. -/
theorem rounded_lt_of_bounded {x : Double} (h : x.units < boundlessSeconds * unitsInOne) :
    rounded (x.units * 1000) + 2 * unitsInOne < 2 ^ 63 * unitsInOne := by
  have hpos := unitsInOne_pos
  have hbound : boundlessSeconds = 2 * (4611686018427387 + 1) := rfl
  rw [hbound] at h
  have hunits := x.le_of_lt_even (by decide) h
  have hproduct : x.units * 1000 < 2 ^ 63 * unitsInOne := by omega
  have hround : rounded (x.units * 1000) ≤ x.units * 1000 + 2 ^ 10 * unitsInOne := by
    obtain ⟨digits, _, hone⟩ := unitsInOne_pow
    rw [hone, ← pow_add] at hproduct ⊢
    apply rounded_le_of_lt
    rwa [show 10 + digits + 53 = 63 + digits by omega]
  omega

theorem saturate_le {n : Int} (h : n ≤ leastSigned) : saturate n = leastSigned := by
  unfold saturate
  unfold leastSigned greatestSigned at *
  omega

theorem lt_saturate {n : Int} (h : leastSigned < n) : leastSigned < saturate n := by
  unfold saturate
  unfold leastSigned greatestSigned at *
  omega

theorem nearest_nonneg {x : Double} (h : x.negative = false) : 0 ≤ x.nearest := by
  unfold Double.nearest
  rw [h]
  exact Int.natCast_nonneg _

theorem saturatedNearest_negative {x : Double} (h : x.negative = true) :
    saturatedNearest ((Binary64.finite x).mul (.ofInt 1000)) = leastSigned ↔
      boundlessSeconds * unitsInOne ≤ x.units := by
  have hpos := unitsInOne_pos
  rw [Binary64.mul_thousand, h]
  constructor
  · intro hleast
    by_contra hbounded
    have hround := rounded_lt_of_bounded (Nat.lt_of_not_le hbounded)
    have hgrid : OnGrid (rounded (x.units * 1000)) := by
      have := onGrid_two_pow.1
      exact onGrid_rounded (by omega)
    rw [dif_pos hgrid] at hleast
    have hnearest := roundHalfUp_le (rounded (x.units * 1000)) unitsInOne
    have hquotient : rounded (x.units * 1000) / unitsInOne < 2 ^ 63 - 1 := by
      apply Nat.div_lt_of_lt_mul
      omega
    refine absurd hleast (lt_saturate ?_).ne'
    show leastSigned < -(roundHalfUp (rounded (x.units * 1000)) unitsInOne : Int)
    unfold leastSigned
    omega
  · intro hbound
    have hround := le_rounded_of_boundless hbound
    split
    · have hnearest := le_roundHalfUp (rounded (x.units * 1000)) unitsInOne
      have hquotient : 2 ^ 63 ≤ rounded (x.units * 1000) / unitsInOne :=
        (Nat.le_div_iff_mul_le hpos).mpr hround
      refine saturate_le ?_
      show -(roundHalfUp (rounded (x.units * 1000)) unitsInOne : Int) ≤ leastSigned
      unfold leastSigned
      omega
    · rfl

theorem saturatedNearest_positive {x : Double} (h : x.negative = false) :
    leastSigned < saturatedNearest ((Binary64.finite x).mul (.ofInt 1000)) := by
  rw [Binary64.mul_thousand, h]
  split
  · refine lt_saturate ?_
    have hnearest := nearest_nonneg (x := ⟨false, _, ‹_›⟩) rfl
    unfold leastSigned
    omega
  · decide

/-- The milliseconds are the least number of 64 signed bits exactly for the durations
at or below the bound. -/
theorem milliseconds_eq_leastSigned_iff (d : Duration) :
    d.milliseconds = leastSigned ↔ d.Boundless := by
  have hpos := Nat.mul_pos (by decide : 0 < boundlessSeconds) unitsInOne_pos
  unfold milliseconds Boundless
  cases hd : d.seconds with
  | undefined =>
    have hzero : saturatedNearest (Binary64.undefined.mul (.ofInt 1000)) ≠ leastSigned := by
      decide +kernel
    simp only [hzero, reduceCtorEq, false_and, exists_false, or_self]
  | infinite negative =>
    rw [Binary64.infinite_mul_thousand]
    cases negative with
    | true => exact iff_of_true rfl (.inl rfl)
    | false =>
      have hgreatest : saturatedNearest (.infinite false) ≠ leastSigned := by decide
      simp only [hgreatest, Binary64.infinite.injEq, Bool.false_eq_true, reduceCtorEq, false_and,
        exists_false, or_self]
  | finite x =>
    cases hx : x.negative with
    | true =>
      rw [saturatedNearest_negative hx]
      simp only [reduceCtorEq, Binary64.finite.injEq, exists_eq_left', Double.signed, hx, if_true,
        false_or]
      omega
    | false =>
      have hlarge := saturatedNearest_positive hx
      simp only [hlarge.ne', reduceCtorEq, Binary64.finite.injEq, exists_eq_left', Double.signed,
        hx, Bool.false_eq_true, if_false, false_or, false_iff]
      omega

end Duration

end PlanFold
