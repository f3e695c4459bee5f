import Mathlib.Tactic.Linarith
import Mathlib.Tactic.Ring
import PlanFold.Numeric.Binary64

/-!
# Rounding to the grid of doubles

Rounding a count of units gives a count that a double holds, unless it reaches
the limit of doubles, and it is never farther away than one step of the grid.
So an operation on doubles is infinite only where its rounded result is too
large, and the result of a large operation is large.
-/

set_option autoImplicit false

namespace PlanFold.Numeric

theorem le_roundHalfEven (num den : Nat) : num / den ≤ roundHalfEven num den := by
  unfold roundHalfEven
  dsimp only
  split
  · omega
  · split
    · omega
    · split <;> omega

theorem roundHalfEven_le_of_lt {num den n : Nat} (h : 2 * num < (2 * n + 1) * den) :
    roundHalfEven num den ≤ n := by
  have hquotient : num / den ≤ n := by
    have hlt : num < den * (n + 1) := by nlinarith
    exact Nat.le_of_lt_succ (Nat.div_lt_of_lt_mul hlt)
  rcases Nat.lt_or_eq_of_le hquotient with hlt | heq
  · exact (roundHalfEven_le num den).trans hlt
  · have hdivmod := Nat.div_add_mod num den
    have hbelow : 2 * (num % den) < den := by
      rw [heq] at hdivmod
      nlinarith
    unfold roundHalfEven
    simp only [hbelow, if_true]
    exact hquotient

theorem roundHalfEven_mul_right (num den : Nat) {factor : Nat} (h : 0 < factor) :
    roundHalfEven (num * factor) (den * factor) = roundHalfEven num den := by
  have hquotient : num * factor / (den * factor) = num / den := Nat.mul_div_mul_right num den h
  have htwice : 2 * (num * factor % (den * factor)) = 2 * (num % den) * factor := by
    rw [Nat.mul_mod_mul_right, Nat.mul_assoc]
  unfold roundHalfEven
  simp only [hquotient, htwice, Nat.mul_lt_mul_right h]

def rounded (units : Nat) : Nat := roundHalfEven units (gridStep units) * gridStep units

theorem gridStep_eq (units : Nat) : gridStep units = 2 ^ (units.log2 - 52) := rfl

theorem lt_gridStep_mul (units : Nat) : units < 2 ^ 53 * gridStep units := by
  have hlog : units < 2 ^ (units.log2 + 1) := Nat.lt_log2_self
  have hpow : 2 ^ (units.log2 + 1) ≤ 2 ^ (53 + (units.log2 - 52)) :=
    Nat.pow_le_pow_right (by decide) (by omega)
  rw [gridStep_eq, ← pow_add]
  omega

theorem rounded_le (units : Nat) : rounded units ≤ units + gridStep units := by
  have hle := roundHalfEven_le units (gridStep units)
  have hmul := Nat.div_mul_le_self units (gridStep units)
  calc rounded units ≤ (units / gridStep units + 1) * gridStep units :=
        Nat.mul_le_mul_right _ hle
    _ = units / gridStep units * gridStep units + gridStep units := Nat.succ_mul _ _
    _ ≤ units + gridStep units := Nat.add_le_add_right hmul _

theorem le_floor {units power : Nat} (h : 2 ^ power ≤ units) :
    2 ^ power ≤ units / gridStep units * gridStep units := by
  have hpos : units ≠ 0 := by
    have := Nat.two_pow_pos power
    omega
  have hlog : power ≤ units.log2 := (Nat.le_log2 hpos).mpr h
  have hlead : 2 ^ units.log2 ≤ units := Nat.log2_self_le hpos
  have hstep : gridStep units ∣ 2 ^ units.log2 := by
    rw [gridStep_eq]
    exact Nat.pow_dvd_pow 2 (by omega)
  calc 2 ^ power ≤ 2 ^ units.log2 := Nat.pow_le_pow_right (by decide) hlog
    _ = 2 ^ units.log2 / gridStep units * gridStep units := (Nat.div_mul_cancel hstep).symm
    _ ≤ units / gridStep units * gridStep units :=
        Nat.mul_le_mul_right _ (Nat.div_le_div_right hlead)

theorem le_rounded {units power : Nat} (h : 2 ^ power ≤ units) : 2 ^ power ≤ rounded units :=
  (le_floor h).trans (Nat.mul_le_mul_right _ (le_roundHalfEven units _))

/-- At most 53 binary digits before a power of two are on the grid. -/
theorem onGrid_mul_two_pow {digits shift : Nat} (hdigits : digits ≤ 2 ^ 53)
    (hlimit : digits * 2 ^ shift < unitsLimit) : OnGrid (digits * 2 ^ shift) := by
  refine ⟨hlimit, Nat.mod_eq_zero_of_dvd ?_⟩
  by_cases hzero : digits * 2 ^ shift = 0
  · rw [hzero]
    exact Nat.dvd_zero _
  · rw [gridStep_eq]
    rcases Nat.lt_or_eq_of_le hdigits with hlt | heq
    · have hlt' : digits * 2 ^ shift < 2 ^ (53 + shift) := by
        rw [pow_add]
        exact Nat.mul_lt_mul_of_pos_right hlt (Nat.two_pow_pos shift)
      have hlog : (digits * 2 ^ shift).log2 < 53 + shift := (Nat.log2_lt hzero).mpr hlt'
      exact dvd_mul_of_dvd_right (Nat.pow_dvd_pow 2 (by omega)) digits
    · rw [heq, ← pow_add, Nat.log2_two_pow]
      exact Nat.pow_dvd_pow 2 (by omega)

theorem onGrid_rounded {units : Nat} (h : rounded units < unitsLimit) :
    OnGrid (rounded units) := by
  refine onGrid_mul_two_pow ?_ h
  have hquotient : units / gridStep units < 2 ^ 53 :=
    Nat.div_lt_of_lt_mul (by rw [Nat.mul_comm]; exact lt_gridStep_mul units)
  have hle := roundHalfEven_le units (gridStep units)
  omega

theorem rounded_of_onGrid {units : Nat} (h : OnGrid units) : rounded units = units := by
  have hdvd : gridStep units ∣ units := Nat.dvd_of_mod_eq_zero h.2
  have hpos : 0 < gridStep units := by
    rw [gridStep_eq]
    exact Nat.two_pow_pos _
  rw [rounded, roundHalfEven_of_dvd _ _ hpos hdvd, Nat.div_mul_cancel hdvd]

theorem rounded_le_two_pow {units power : Nat} (h : units < 2 ^ power) :
    rounded units ≤ 2 ^ power := by
  have hlog : units.log2 - 52 ≤ power := by
    by_cases hzero : units = 0
    · rw [hzero]
      simp
    · have := (Nat.log2_lt hzero).mpr h
      omega
  obtain ⟨steps, hsteps⟩ : gridStep units ∣ 2 ^ power := by
    rw [gridStep_eq]
    exact Nat.pow_dvd_pow 2 hlog
  have hquotient : units / gridStep units < steps :=
    Nat.div_lt_of_lt_mul (hsteps ▸ h)
  calc rounded units ≤ steps * gridStep units :=
        Nat.mul_le_mul_right _ ((roundHalfEven_le units _).trans hquotient)
    _ = 2 ^ power := by rw [hsteps, Nat.mul_comm]

theorem Binary64.ofUnits_one (negative : Bool) (units : Nat) :
    ofUnits negative units 1 =
      if h : OnGrid (rounded units) then .finite ⟨negative, rounded units, h⟩
      else .infinite negative := by
  unfold ofUnits rounded
  simp only [Nat.div_one, Nat.one_mul]

/-- Less than half a step below a power of two, rounding stays below it. -/
theorem rounded_lt_two_pow {units power : Nat} (h : units + 2 ^ power < 2 ^ (power + 54)) :
    rounded units < 2 ^ (power + 54) := by
  have hpos := Nat.two_pow_pos power
  have hlimit : 2 ^ (power + 54) = 2 ^ 54 * 2 ^ power := by rw [pow_add, Nat.mul_comm]
  have hlast : 2 ^ (power + 53) = 2 ^ 53 * 2 ^ power := by rw [pow_add, Nat.mul_comm]
  rcases Nat.lt_or_ge units (2 ^ (power + 53)) with hlow | hhigh
  · have hle := rounded_le_two_pow hlow
    omega
  · have hzero : units ≠ 0 := by omega
    have hlog : units.log2 = power + 53 := by
      have hlower := (Nat.le_log2 hzero).mpr hhigh
      have hupper := (Nat.log2_lt hzero (k := power + 54)).mpr (by omega)
      omega
    have hstep : gridStep units = 2 * 2 ^ power := by
      rw [gridStep_eq, hlog, ← pow_succ']
      rfl
    have hround : roundHalfEven units (2 * 2 ^ power) ≤ 2 ^ 53 - 1 :=
      roundHalfEven_le_of_lt (by omega)
    rw [rounded, hstep]
    calc roundHalfEven units (2 * 2 ^ power) * (2 * 2 ^ power)
        ≤ (2 ^ 53 - 1) * (2 * 2 ^ power) := Nat.mul_le_mul_right _ hround
      _ < 2 ^ (power + 54) := by omega

theorem unitsLimit_pow : ∃ digits power, digits + 65 ≤ power ∧ unitsInOne = 2 ^ digits ∧
    unitsLimit = 2 ^ (power + 54) := by
  obtain ⟨digits, hdigits⟩ : ∃ digits, digits = 1074 := ⟨_, rfl⟩
  obtain ⟨power, hpower⟩ : ∃ power, power = 2044 := ⟨_, rfl⟩
  refine ⟨digits, power, by omega, ?_, ?_⟩
  · unfold unitsInOne
    rw [← hdigits]
    rfl
  · have hsum : 2098 = power + 54 := by omega
    unfold unitsLimit
    rw [hsum]
    rfl

theorem unitsInOne_pos : 0 < unitsInOne := by
  unfold unitsInOne
  apply Nat.pow_pos
  decide

/-- The product with a whole number, rounded once. -/
theorem Binary64.mul_whole (x : Double) {n : Nat} {y : Double} (hn : y.units = n * unitsInOne) :
    mul (.finite x) (.finite y) =
      if h : OnGrid (rounded (x.units * n)) then
        .finite ⟨x.negative ^^ y.negative, rounded (x.units * n), h⟩
      else .infinite (x.negative ^^ y.negative) := by
  have hproduct : x.units * y.units = x.units * n * unitsInOne := by rw [hn, Nat.mul_assoc]
  have hquotient : x.units * n * unitsInOne / unitsInOne = x.units * n :=
    Nat.mul_div_cancel _ unitsInOne_pos
  have hround : roundHalfEven (x.units * n * unitsInOne)
      (unitsInOne * gridStep (x.units * n)) =
        roundHalfEven (x.units * n) (gridStep (x.units * n)) := by
    rw [Nat.mul_comm unitsInOne]
    exact roundHalfEven_mul_right _ _ unitsInOne_pos
  unfold mul ofUnits
  simp only [hproduct, hquotient, hround]
  rfl

theorem onGrid_whole {n : Nat} (h : n ≤ 2 ^ 53) : OnGrid (n * unitsInOne) := by
  obtain ⟨digits, power, hfar, hone, hlimit⟩ := unitsLimit_pow
  rw [hone]
  refine onGrid_mul_two_pow h ?_
  calc n * 2 ^ digits ≤ 2 ^ 53 * 2 ^ digits := Nat.mul_le_mul_right _ h
    _ = 2 ^ (53 + digits) := (pow_add 2 53 digits).symm
    _ < 2 ^ (power + 54) := Nat.pow_lt_pow_right (by decide) (by omega)
    _ = unitsLimit := hlimit.symm

theorem Binary64.ofUnits_onGrid (negative : Bool) {units : Nat} (h : OnGrid units) :
    ofUnits negative units 1 = .finite ⟨negative, units, h⟩ := by
  have hrounded := rounded_of_onGrid h
  have hgrid : OnGrid (rounded units) := by rwa [hrounded]
  rw [ofUnits_one, dif_pos hgrid]
  simp only [hrounded]

theorem Binary64.ofInt_zero : ofInt 0 = .finite (.zero false) := by
  rw [ofInt, ofRatio, Int.natAbs_zero, Nat.zero_mul, ofUnits_onGrid _ Double.onGrid_zero]
  rfl

theorem Binary64.ofSigned_natCast {units : Nat} (h : OnGrid units) :
    ofSigned false units = .finite ⟨false, units, h⟩ := by
  have hsign : decide ((units : Int) < 0) = false := decide_eq_false (by omega)
  by_cases hzero : units = 0
  · subst hzero
    rfl
  · rw [ofSigned, if_neg (by omega), hsign, Int.natAbs_natCast, ofUnits_onGrid _ h]

theorem Binary64.ofInt_small {n : Nat} (h : n ≤ 2 ^ 53) :
    ofInt n = .finite ⟨false, n * unitsInOne, onGrid_whole h⟩ := by
  have hsign : decide ((n : Int) < 0) = false := decide_eq_false (by omega)
  rw [ofInt, ofRatio, hsign, Int.natAbs_natCast, ofUnits_onGrid false (onGrid_whole h)]

/-- Doubles count exactly up to 2^53. -/
theorem Binary64.ofInt_add {m n : Nat} (h : m + n ≤ 2 ^ 53) :
    (ofInt m).add (ofInt n) = ofInt ((m + n : Nat) : Int) := by
  have hm : m ≤ 2 ^ 53 := by omega
  have hn : n ≤ 2 ^ 53 := by omega
  rw [ofInt_small hm, ofInt_small hn, ofInt_small h]
  show ofSigned false (((m * unitsInOne : Nat) : Int) + ((n * unitsInOne : Nat) : Int)) = _
  rw [← Int.natCast_add, ← Nat.add_mul, ofSigned_natCast (onGrid_whole h)]

theorem Binary64.ofInt_mul {m n : Nat} (hm : m ≤ 2 ^ 53) (hn : n ≤ 2 ^ 53)
    (h : m * n ≤ 2 ^ 53) : (ofInt m).mul (ofInt n) = ofInt ((m * n : Nat) : Int) := by
  have hgrid := onGrid_whole h
  have hproduct : m * unitsInOne * n = m * n * unitsInOne := Nat.mul_right_comm _ _ _
  have hunits : (Double.mk false (n * unitsInOne) (onGrid_whole hn)).units = n * unitsInOne := rfl
  rw [ofInt_small hm, ofInt_small hn, ofInt_small h, mul_whole _ hunits]
  simp only [hproduct, rounded_of_onGrid hgrid, hgrid, dite_true, Bool.xor_self]

end PlanFold.Numeric
