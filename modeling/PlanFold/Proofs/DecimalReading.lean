import PlanFold.Numeric.Decimal
import PlanFold.Proofs.GridRounding

/-!
# Reading decimals back

A decimal is read as the double nearest to its quotient, whatever its exponent:
the shortcuts for decimals far out only save work. So decimals of one quotient
are read as one double, and the fewest digits chosen for a double are read as
that double. That no fewer digits do is not claimed here.
-/

set_option autoImplicit false

namespace PlanFold.Numeric

namespace Binary64

theorem ofUnits_congr (negative : Bool) {num den num' den' : Nat} (hden : 0 < den)
    (hden' : 0 < den') (h : num * den' = num' * den) :
    ofUnits negative num den = ofUnits negative num' den' := by
  have hquotient : num / den = num' / den' := by
    rw [← Nat.mul_div_mul_right num den hden', h, Nat.mul_comm den den',
      Nat.mul_div_mul_right num' den' hden]
  have hround : ∀ step, roundHalfEven num (den * step) = roundHalfEven num' (den' * step) := by
    intro step
    rw [← roundHalfEven_mul_right num (den * step) hden', h,
      ← roundHalfEven_mul_right num' (den' * step) hden]
    congr 1
    ring
  unfold ofUnits
  simp only [hquotient, hround]

theorem ofRatio_congr (negative : Bool) {num den num' den' : Nat} (hden : 0 < den)
    (hden' : 0 < den') (h : num * den' = num' * den) :
    ofRatio negative num den = ofRatio negative num' den' := by
  refine ofUnits_congr negative hden hden' ?_
  rw [Nat.mul_right_comm, h, Nat.mul_right_comm]

theorem ofUnits_small (negative : Bool) {num den : Nat} (h : 2 * num < den) :
    ofUnits negative num den = .finite (Double.zero negative) := by
  have hquotient : num / den = 0 := Nat.div_eq_of_lt (by omega)
  have hround : roundHalfEven num (den * gridStep 0) = 0 := by
    have hstep : gridStep 0 = 1 := rfl
    rw [hstep]
    exact Nat.le_zero.mp (roundHalfEven_le_of_lt (by omega))
  unfold ofUnits
  simp only [hquotient, hround, Nat.zero_mul]
  rw [dif_pos Double.onGrid_zero]
  rfl

theorem ofUnits_large (negative : Bool) {num den : Nat} (hden : 0 < den)
    (h : unitsLimit * den ≤ num) : ofUnits negative num den = .infinite negative := by
  have hquotient : unitsLimit ≤ num / den := (Nat.le_div_iff_mul_le hden).mpr h
  have hround : unitsLimit ≤
      roundHalfEven num (den * gridStep (num / den)) * gridStep (num / den) := by
    obtain ⟨_, power, _, _, hlimit⟩ := unitsLimit_pow
    rw [hlimit] at hquotient ⊢
    calc 2 ^ (power + 54) ≤ num / den / gridStep (num / den) * gridStep (num / den) :=
          le_floor hquotient
      _ ≤ _ := by
          rw [Nat.div_div_eq_div_mul]
          exact Nat.mul_le_mul_right _ (le_roundHalfEven _ _)
  unfold ofUnits
  exact dif_neg fun hgrid => absurd hgrid.1 (Nat.not_lt.mpr hround)

end Binary64

theorem ratio_pos (d : Decimal) : 0 < d.ratio.2 := by
  unfold Decimal.ratio
  split
  · exact Nat.one_pos
  · exact Nat.pow_pos (by decide)

theorem lt_pow_digitCount (n : Nat) : n < 10 ^ digitCount n :=
  (Nat.length_toDigits_le_iff (by decide) Nat.length_toDigits_pos).mp le_rfl

theorem pow_digitCount_le {n : Nat} (h : n ≠ 0) : 10 ^ (digitCount n - 1) ≤ n := by
  rcases Nat.lt_or_ge 1 (digitCount n) with hlong | hshort
  · by_contra hlt
    have hle : digitCount n ≤ digitCount n - 1 :=
      (Nat.length_toDigits_le_iff (by decide) (by omega)).mpr (Nat.not_le.mp hlt)
    omega
  · rw [Nat.sub_eq_zero_of_le hshort]
    exact Nat.pos_of_ne_zero h

theorem unitsLimit_le : unitsLimit ≤ 10 ^ 401 * unitsInOne := by decide +kernel

theorem two_mul_unitsInOne_le : 2 * unitsInOne ≤ 10 ^ 400 := by decide +kernel

namespace Decimal

theorem le_ratio {d : Decimal} (hdigits : d.digits ≠ 0) {power : Nat}
    (h : (power : Int) ≤ d.leading) : 10 ^ power * d.ratio.2 ≤ d.ratio.1 := by
  have hlead := pow_digitCount_le hdigits
  have hcount : 0 < digitCount d.digits := Nat.length_toDigits_pos
  unfold leading at h
  unfold ratio
  split
  · calc 10 ^ power * 1 ≤ 10 ^ (digitCount d.digits - 1 + d.exponent.toNat) := by
          rw [Nat.mul_one]
          exact Nat.pow_le_pow_right (by decide) (by omega)
      _ = 10 ^ (digitCount d.digits - 1) * 10 ^ d.exponent.toNat := pow_add _ _ _
      _ ≤ d.digits * 10 ^ d.exponent.toNat := Nat.mul_le_mul_right _ hlead
  · calc 10 ^ power * 10 ^ (-d.exponent).toNat = 10 ^ (power + (-d.exponent).toNat) :=
          (pow_add _ _ _).symm
      _ ≤ 10 ^ (digitCount d.digits - 1) := Nat.pow_le_pow_right (by decide) (by omega)
      _ ≤ d.digits := hlead

theorem ratio_lt {d : Decimal} {power : Nat} (h : d.leading + power < 0) :
    d.ratio.1 * 10 ^ power < d.ratio.2 := by
  have hbound := lt_pow_digitCount d.digits
  have hcount : 0 < digitCount d.digits := Nat.length_toDigits_pos
  unfold leading at h
  unfold ratio
  rw [if_neg (by omega)]
  calc d.digits * 10 ^ power < 10 ^ digitCount d.digits * 10 ^ power :=
        Nat.mul_lt_mul_of_pos_right hbound (Nat.pow_pos (by decide))
    _ = 10 ^ (digitCount d.digits + power) := (pow_add _ _ _).symm
    _ ≤ 10 ^ (-d.exponent).toNat := Nat.pow_le_pow_right (by decide) (by omega)

/-- The shortcuts for decimals far out give what reading in full gives. -/
theorem toBinary64_eq (negative : Bool) (d : Decimal) :
    d.toBinary64 negative = Binary64.ofRatio negative d.ratio.1 d.ratio.2 := by
  have hden := ratio_pos d
  unfold toBinary64
  split
  next hzero =>
    have hnum : d.ratio.1 = 0 := by
      unfold ratio
      split <;> simp [hzero]
    rw [Binary64.ofRatio, hnum, Nat.zero_mul, Binary64.ofUnits_small negative (by omega)]
  next hdigits =>
    split
    next hlarge =>
      have hratio := @le_ratio d hdigits 401 (Int.add_one_le_of_lt hlarge)
      refine (Binary64.ofUnits_large negative hden ?_).symm
      calc unitsLimit * d.ratio.2 ≤ 10 ^ 401 * unitsInOne * d.ratio.2 :=
            Nat.mul_le_mul_right _ unitsLimit_le
        _ = 10 ^ 401 * d.ratio.2 * unitsInOne := Nat.mul_right_comm _ _ _
        _ ≤ d.ratio.1 * unitsInOne := Nat.mul_le_mul_right _ hratio
    next =>
      split
      next hsmall =>
        have hratio := @ratio_lt d 400 (by omega)
        refine (Binary64.ofUnits_small negative ?_).symm
        calc 2 * (d.ratio.1 * unitsInOne) = d.ratio.1 * (2 * unitsInOne) := Nat.mul_left_comm _ _ _
          _ ≤ d.ratio.1 * 10 ^ 400 := Nat.mul_le_mul_left _ two_mul_unitsInOne_le
          _ < d.ratio.2 := hratio
      next => rfl

theorem toBinary64_congr {d e : Decimal} (h : d.ratio.1 * e.ratio.2 = e.ratio.1 * d.ratio.2)
    (negative : Bool) : d.toBinary64 negative = e.toBinary64 negative := by
  rw [toBinary64_eq, toBinary64_eq,
    Binary64.ofRatio_congr negative (ratio_pos d) (ratio_pos e) h]

theorem ratio_of_nonneg (digits exponent : Nat) :
    ratio ⟨digits, exponent⟩ = (digits * 10 ^ exponent, 1) := by
  unfold ratio
  rw [if_pos (Int.natCast_nonneg exponent)]
  rfl

theorem ratio_of_neg (digits places : Nat) :
    ratio ⟨digits, -((places + 1 : Nat) : Int)⟩ = (digits, 10 ^ (places + 1)) := by
  unfold ratio
  rw [if_neg (by simp only; omega), Int.neg_neg]
  rfl

theorem toBinary64_shift (digits : Nat) (exponent : Int) (negative : Bool) :
    toBinary64 negative ⟨digits, exponent + 1⟩ = toBinary64 negative ⟨10 * digits, exponent⟩ := by
  apply toBinary64_congr
  rcases Int.eq_nat_or_neg exponent with ⟨n, rfl | rfl⟩
  · have hnext : ((n : Int) + 1) = ((n + 1 : Nat) : Int) := rfl
    rw [hnext, ratio_of_nonneg, ratio_of_nonneg, pow_succ]
    ring
  · cases n with
    | zero =>
      have hzero : (-((0 : Nat) : Int) + 1) = ((1 : Nat) : Int) := rfl
      have hzero' : -((0 : Nat) : Int) = ((0 : Nat) : Int) := rfl
      rw [hzero, hzero', ratio_of_nonneg, ratio_of_nonneg]
      ring
    | succ n =>
      rw [ratio_of_neg]
      cases n with
      | zero =>
        have hnext : (-((0 + 1 : Nat) : Int) + 1) = ((0 : Nat) : Int) := rfl
        rw [hnext, ratio_of_nonneg]
        ring
      | succ n =>
        have hnext : (-((n + 1 + 1 : Nat) : Int) + 1) = -((n + 1 : Nat) : Int) := by omega
        rw [hnext, ratio_of_neg]
        ring

theorem toBinary64_trim (more : Nat) (d : Decimal) (negative : Bool) :
    (d.trim more).toBinary64 negative = d.toBinary64 negative := by
  induction more generalizing d with
  | zero => rfl
  | succ more ih =>
    unfold trim
    split
    next hzero =>
      have hdigits : 10 * (d.digits / 10) = d.digits :=
        Nat.mul_div_cancel' (Nat.dvd_of_mod_eq_zero hzero.2)
      rw [ih, toBinary64_shift, hdigits]
    next => rfl

end Decimal

theorem nearer_eq (tie : Tie) (num den : Nat) (low high : Decimal) :
    nearer tie num den low high = low ∨ nearer tie num den low high = high := by
  unfold nearer
  dsimp only
  repeat' split
  all_goals first | exact .inl rfl | exact .inr rfl

theorem readsBack_of_onDecimalGrid {tie : Tie} {units : Nat} {exponent : Int} {d : Decimal}
    (h : onDecimalGrid tie units exponent = some d) : d.readsBackAs units = true := by
  unfold onDecimalGrid at h
  split at h
  next low high _ =>
    split at h
    next hlow hhigh =>
      rw [← Option.some.inj h]
      rcases nearer_eq tie units unitsInOne low high with hnear | hnear <;> rw [hnear]
      · exact hlow
      · exact hhigh
    next hlow _ => rwa [← Option.some.inj h]
    next _ hhigh => rwa [← Option.some.inj h]
    next => cases h

theorem Binary64.negative_of_ofUnits {negative : Bool} {num den : Nat} {x : Double}
    (h : ofUnits negative num den = .finite x) : x.negative = negative := by
  unfold ofUnits at h
  dsimp only at h
  split at h
  · rw [← Binary64.finite.inj h]
  · cases h

theorem Decimal.toBinary64_of_readsBack {d : Decimal} {units : Nat} (hunits : OnGrid units)
    (h : d.readsBackAs units = true) : d.toBinary64 false = .finite ⟨false, units, hunits⟩ := by
  unfold readsBackAs at h
  split at h
  next x hx =>
    have hsign : x.negative = false := by
      rw [toBinary64_eq] at hx
      exact Binary64.negative_of_ofUnits hx
    obtain ⟨negative, units', _⟩ := x
    obtain rfl : units' = units := of_decide_eq_true h
    rw [hx, show negative = false from hsign]
  next => cases h

theorem Decimal.toBinary64_exact {units : Nat} (hunits : OnGrid units) (places : Nat)
    (hone : unitsInOne = 2 ^ (places + 1)) :
    toBinary64 false ⟨units * Nat.pow 5 (places + 1), -((places + 1 : Nat) : Int)⟩ =
      .finite ⟨false, units, hunits⟩ := by
  have hratio : units * Nat.pow 5 (places + 1) * unitsInOne = units * 10 ^ (places + 1) := by
    have hpow : Nat.pow 5 (places + 1) = 5 ^ (places + 1) := rfl
    rw [hpow, hone, Nat.mul_assoc, ← Nat.mul_pow]
  have hratio' : units * Nat.pow 5 (places + 1) * unitsInOne * 1 = units * 10 ^ (places + 1) := by
    rw [Nat.mul_one, hratio]
  rw [toBinary64_eq, ratio_of_neg, Binary64.ofRatio,
    Binary64.ofUnits_congr false (Nat.pow_pos (by decide)) Nat.one_pos hratio',
    Binary64.ofUnits_one]
  simp only [rounded_of_onGrid hunits, hunits, dite_true]

/-- The digits of a double read back as the double. -/
theorem toBinary64_shortest (tie : Tie) {units : Nat} (hunits : OnGrid units) :
    (shortest tie units).toBinary64 false = .finite ⟨false, units, hunits⟩ := by
  unfold shortest
  split
  next hzero =>
    subst hzero
    rfl
  next =>
    dsimp only
    split
    next d hfound =>
      obtain ⟨places, _, hgrid⟩ := List.exists_of_findSome?_eq_some hfound
      rw [Decimal.toBinary64_trim]
      exact Decimal.toBinary64_of_readsBack hunits (readsBack_of_onDecimalGrid hgrid)
    next =>
      obtain ⟨places, hplaces⟩ : ∃ places, 1074 = places + 1 := ⟨1073, rfl⟩
      have hone : unitsInOne = 2 ^ (places + 1) := by
        unfold unitsInOne
        rw [hplaces]
        rfl
      have hexponent : (-1074 : Int) = -((1074 : Nat) : Int) := rfl
      rw [Decimal.toBinary64_trim, hexponent, hplaces]
      exact Decimal.toBinary64_exact hunits places hone

end PlanFold.Numeric
