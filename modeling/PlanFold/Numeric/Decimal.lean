import PlanFold.Numeric.Binary64

/-!
# Decimals, and how doubles are written

A decimal is a natural times a power of ten. Reading one gives the nearest
double. In the other direction a double has many decimals that read back as
it; the one chosen has the fewest digits, and among those lies nearest.

A layout decides everything about the text of a double except its digits:
which powers of ten are written positionally, whether a whole number keeps a
point, and how an exponent looks.
-/

set_option autoImplicit false

namespace PlanFold.Numeric

structure Decimal where
  digits : Nat
  exponent : Int
deriving DecidableEq

def digitCount (n : Nat) : Nat := (Nat.toDigits 10 n).length

namespace Decimal

def ratio (d : Decimal) : Nat × Nat :=
  if 0 ≤ d.exponent then (d.digits * Nat.pow 10 d.exponent.toNat, 1)
  else (d.digits, Nat.pow 10 (-d.exponent).toNat)

def leading (d : Decimal) : Int := digitCount d.digits - 1 + d.exponent

/-- The nearest double. Decimals of 10^400 and more, or below 10^-400, are
settled by their leading digit alone. -/
def toBinary64 (negative : Bool) (d : Decimal) : Binary64 :=
  if d.digits = 0 then .finite (Double.zero negative)
  else if 400 < d.leading then .infinite negative
  else if d.leading < -400 then .finite (Double.zero negative)
  else Binary64.ofRatio negative d.ratio.1 d.ratio.2

def readsBackAs (units : Nat) (d : Decimal) : Bool :=
  match d.toBinary64 false with
  | .finite x => x.units = units
  | _ => false

def distance (num den : Nat) (d : Decimal) : Nat :=
  let scaled := d.ratio.1 * den
  let wanted := num * d.ratio.2
  (scaled - wanted) + (wanted - scaled)

end Decimal

inductive Tie where
  | even
  | upper
deriving DecidableEq

def leadingPower (num den : Nat) : Int :=
  if den ≤ num then digitCount (num / den) - 1
  else -(digitCount ((den + num - 1) / num - 1) : Int)

def neighbours (num den : Nat) (exponent : Int) : Decimal × Decimal :=
  let below :=
    if 0 ≤ exponent then num / (den * Nat.pow 10 exponent.toNat)
    else num * Nat.pow 10 (-exponent).toNat / den
  (⟨below, exponent⟩, ⟨below + 1, exponent⟩)

def nearer (tie : Tie) (num den : Nat) (low high : Decimal) : Decimal :=
  let fromLow := low.distance num den
  let fromHigh := high.distance num den
  if fromLow < fromHigh then low
  else if fromHigh < fromLow then high
  else match tie with
    | .even => if low.digits % 2 = 0 then low else high
    | .upper => high

def onDecimalGrid (tie : Tie) (units : Nat) (exponent : Int) : Option Decimal :=
  match neighbours units unitsInOne exponent with
  | (low, high) =>
    match low.readsBackAs units, high.readsBackAs units with
    | true, true => some (nearer tie units unitsInOne low high)
    | true, false => some low
    | false, true => some high
    | false, false => none

def Decimal.trim : Nat → Decimal → Decimal
  | 0, d => d
  | more + 1, d =>
    if d.digits ≠ 0 ∧ d.digits % 10 = 0 then Decimal.trim more ⟨d.digits / 10, d.exponent + 1⟩
    else d

/-- The fewest digits that read back as the double of the given magnitude. Seventeen
digits always do; the exact expansion stands behind them as the last choice. -/
def shortest (tie : Tie) (units : Nat) : Decimal :=
  if units = 0 then ⟨0, 0⟩
  else
    let top := leadingPower units unitsInOne
    match (List.range 17).findSome? fun (places : Nat) => onDecimalGrid tie units (top - places) with
    | some d => d.trim 17
    | none => Decimal.trim 1074 ⟨units * Nat.pow 5 1074, -1074⟩

structure Layout where
  plainFrom : Option Int
  plainUpTo : Option Int
  wholeKeepsPoint : Bool
  tie : Tie

namespace Layout

def isPlain (layout : Layout) (power : Int) : Bool :=
  (match layout.plainFrom with
    | some low => low ≤ power
    | none => true) &&
  (match layout.plainUpTo with
    | some high => power ≤ high
    | none => true)

def plain (wholeKeepsPoint : Bool) (d : Decimal) : List Char :=
  let digits := Nat.toDigits 10 d.digits
  if 0 ≤ d.exponent then
    digits ++ List.replicate d.exponent.toNat '0' ++ (if wholeKeepsPoint then ['.', '0'] else [])
  else
    let places := (-d.exponent).toNat
    if digits.length ≤ places then
      ['0', '.'] ++ List.replicate (places - digits.length) '0' ++ digits
    else
      digits.take (digits.length - places) ++ ['.'] ++ digits.drop (digits.length - places)

def scientific (d : Decimal) : List Char :=
  let digits := Nat.toDigits 10 d.digits
  let power := d.leading
  let behind := digits.drop 1
  digits.take 1 ++ (if behind.isEmpty then [] else '.' :: behind) ++
    ['e', if power < 0 then '-' else '+'] ++ Nat.toDigits 10 power.natAbs

def finite (layout : Layout) (x : Double) : List Char :=
  let d := shortest layout.tie x.units
  (if x.negative then ['-'] else []) ++
    (if layout.isPlain d.leading then plain layout.wholeKeepsPoint d else scientific d)

end Layout

end PlanFold.Numeric
