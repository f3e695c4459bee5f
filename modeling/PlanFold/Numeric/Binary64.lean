/-!
# Double-precision numbers

A finite double is a sign and a whole number of *units* of 2^-1074, the least
positive double. A count of units is a double exactly when it lies below
2^2098 and has at most 53 significant binary digits. Every operation computes
the exact result and rounds it once, half to even; what is rounded to 2^2098
units or more is infinite. The sign of zero is kept.

Quotients of naturals are rounded by two rules, which differ only where the
quotient lies half way between two naturals.
-/

set_option autoImplicit false

namespace PlanFold.Numeric

def roundHalfEven (num den : Nat) : Nat :=
  let whole := num / den
  let twice := 2 * (num % den)
  if twice < den then whole
  else if den < twice then whole + 1
  else if whole % 2 = 0 then whole
  else whole + 1

def roundHalfUp (num den : Nat) : Nat :=
  let whole := num / den
  if 2 * (num % den) < den then whole else whole + 1

theorem roundHalfEven_of_dvd (num den : Nat) (hden : 0 < den) (h : den ∣ num) :
    roundHalfEven num den = num / den := by
  have hr : num % den = 0 := Nat.mod_eq_zero_of_dvd h
  simp [roundHalfEven, hr, hden]

theorem roundHalfEven_le (num den : Nat) : roundHalfEven num den ≤ num / den + 1 := by
  unfold roundHalfEven
  dsimp only
  split
  · omega
  · split
    · omega
    · split <;> omega

def unitsInOne : Nat := Nat.pow 2 1074

def unitsLimit : Nat := Nat.pow 2 2098

def gridShift (units : Nat) : Nat := units.log2 - 52

def gridStep (units : Nat) : Nat := Nat.pow 2 (gridShift units)

def leadingUnit : Nat := Nat.pow 2 52

def OnGrid (units : Nat) : Prop :=
  units < unitsLimit ∧ units % gridStep units = 0

instance (units : Nat) : Decidable (OnGrid units) := by
  unfold OnGrid; infer_instance

structure Double where
  negative : Bool
  units : Nat
  onGrid : OnGrid units
deriving DecidableEq

inductive Binary64 where
  | finite (x : Double)
  | infinite (negative : Bool)
  | undefined
deriving DecidableEq

namespace Double

theorem unitsLimit_pos : 0 < unitsLimit := by
  unfold unitsLimit; apply Nat.pow_pos; decide

theorem onGrid_zero : OnGrid 0 := ⟨unitsLimit_pos, Nat.zero_mod _⟩

def zero (negative : Bool) : Double := ⟨negative, 0, onGrid_zero⟩

def neg (x : Double) : Double := ⟨!x.negative, x.units, x.onGrid⟩

def isZero (x : Double) : Bool := x.units = 0

def signed (x : Double) : Int := if x.negative then -(x.units : Int) else x.units

def same (x y : Double) : Bool := x.signed = y.signed

def isWhole (x : Double) : Bool := x.units % unitsInOne = 0

def truncate (x : Double) : Int :=
  if x.negative then -((x.units / unitsInOne : Nat) : Int) else (x.units / unitsInOne : Nat)

def nearest (x : Double) : Int :=
  if x.negative then -(roundHalfUp x.units unitsInOne : Int) else roundHalfUp x.units unitsInOne

end Double

namespace Binary64

def ofUnits (negative : Bool) (num den : Nat) : Binary64 :=
  let step := gridStep (num / den)
  let units := roundHalfEven num (den * step) * step
  if h : OnGrid units then .finite ⟨negative, units, h⟩ else .infinite negative

def ofRatio (negative : Bool) (num den : Nat) : Binary64 :=
  ofUnits negative (num * unitsInOne) den

def ofInt (n : Int) : Binary64 := ofRatio (n < 0) n.natAbs 1

def ofSigned (zeroNegative : Bool) (n : Int) : Binary64 :=
  if n = 0 then .finite (Double.zero zeroNegative) else ofUnits (n < 0) n.natAbs 1

def neg : Binary64 → Binary64
  | .finite x => .finite x.neg
  | .infinite negative => .infinite (!negative)
  | .undefined => .undefined

def add : Binary64 → Binary64 → Binary64
  | .finite x, .finite y => ofSigned (x.negative && y.negative) (x.signed + y.signed)
  | .finite _, .infinite negative => .infinite negative
  | .infinite negative, .finite _ => .infinite negative
  | .infinite a, .infinite b => if a = b then .infinite a else .undefined
  | _, _ => .undefined

def sub (x y : Binary64) : Binary64 := add x y.neg

def mul : Binary64 → Binary64 → Binary64
  | .finite x, .finite y => ofUnits (x.negative ^^ y.negative) (x.units * y.units) unitsInOne
  | .finite x, .infinite b => if x.isZero then .undefined else .infinite (x.negative ^^ b)
  | .infinite a, .finite y => if y.isZero then .undefined else .infinite (a ^^ y.negative)
  | .infinite a, .infinite b => .infinite (a ^^ b)
  | _, _ => .undefined

def divNat (x : Binary64) (n : Nat) : Binary64 :=
  match x with
  | .finite x => ofUnits x.negative x.units n
  | .infinite negative => .infinite negative
  | .undefined => .undefined

def finite? : Binary64 → Option Double
  | .finite x => some x
  | _ => none

def pattern : Binary64 → Nat
  | .finite x =>
    let magnitude :=
      if x.units < leadingUnit then x.units
      else (gridShift x.units + 1) * leadingUnit + (x.units / gridStep x.units - leadingUnit)
    if x.negative then 0x8000000000000000 + magnitude else magnitude
  | .infinite negative => if negative then 0xFFF0000000000000 else 0x7FF0000000000000
  | .undefined => 0x7FF8000000000000

end Binary64

end PlanFold.Numeric
