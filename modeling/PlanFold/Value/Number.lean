import PlanFold.Numeric.Decimal

/-!
# Numbers in values

A number is either a whole number from -2^63 to 2^64 - 1 or a finite double.
The two kinds never equal each other: `1` and `1.0` are different numbers.
-/

set_option autoImplicit false

namespace PlanFold

open Numeric

def leastSigned : Int := -9223372036854775808

def greatestSigned : Int := 9223372036854775807

def greatestWhole : Int := 18446744073709551615

def saturate (n : Int) : Int := max leastSigned (min n greatestSigned)

structure Whole where
  val : Int
  least : leastSigned ≤ val
  greatest : val ≤ greatestWhole
deriving DecidableEq

namespace Whole

def ofInt? (n : Int) : Option Whole :=
  if h : leastSigned ≤ n ∧ n ≤ greatestWhole then some ⟨n, h.1, h.2⟩ else none

def saturated (n : Int) : Whole :=
  ⟨saturate n, by simp only [saturate, leastSigned, greatestSigned]; omega,
    by simp only [saturate, leastSigned, greatestSigned, greatestWhole]; omega⟩

def zero : Whole := saturated 0

def signed? (n : Whole) : Option Int := if n.val ≤ greatestSigned then some n.val else none

end Whole

inductive Number where
  | whole (n : Whole)
  | double (x : Double)
deriving DecidableEq

namespace Number

def signed? : Number → Option Int
  | .whole n => n.signed?
  | .double _ => none

def toBinary64 : Number → Binary64
  | .whole n => Binary64.ofInt n.val
  | .double x => .finite x

def ofBinary64? (x : Binary64) : Option Number :=
  x.finite?.map .double

def same : Number → Number → Bool
  | .whole m, .whole n => m = n
  | .double x, .double y => x.same y
  | _, _ => false

def layout : Layout := ⟨some (-5), some 15, true, .even⟩

def integerText (n : Int) : List Char :=
  (if n < 0 then ['-'] else []) ++ Nat.toDigits 10 n.natAbs

def text : Number → List Char
  | .whole n => integerText n.val
  | .double x => layout.finite x

end Number

end PlanFold
