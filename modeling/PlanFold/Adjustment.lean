import PlanFold.Duration
import PlanFold.Timestamp.Text
import PlanFold.Value.Basic

/-!
# Subtracting a duration from a value

Numbers lose the seconds of the duration. Texts that are timestamps move back
by its nearest whole milliseconds, saturated to 64 signed bits. Every other
value stays as it is.

Two shifts have no answer. One is by the least number of milliseconds in 64
signed bits, which has no counterpart in the other direction. The other leads
to an instant in the years that timestamps have, but to a day before or after
all that the clock of the timestamp's own offset can show.
-/

set_option autoImplicit false

namespace PlanFold.Duration

open Numeric

def saturatedWhole : Binary64 → Int
  | .finite x => saturate x.truncate
  | .infinite negative => if negative then leastSigned else greatestSigned
  | .undefined => 0

def saturatedNearest : Binary64 → Int
  | .finite x => saturate x.nearest
  | .infinite negative => if negative then leastSigned else greatestSigned
  | .undefined => 0

def isWhole (d : Duration) : Bool :=
  match d.seconds with
  | .finite x => x.isWhole
  | _ => false

def wholeDifference? (d : Duration) (n : Number) : Option Whole := do
  guard d.isWhole
  let n ← n.signed?
  let difference := n - saturatedWhole d.seconds
  guard (leastSigned ≤ difference ∧ difference ≤ greatestSigned)
  Whole.ofInt? difference

def doubleDifference (d : Duration) (n : Number) : Number :=
  (Number.ofBinary64? (n.toBinary64.sub d.seconds)).getD n

def subtractFromNumber (d : Duration) (n : Number) : Number :=
  match d.wholeDifference? n with
  | some whole => .whole whole
  | none => d.doubleDifference n

def milliseconds (d : Duration) : Int := saturatedNearest (d.seconds.mul (.ofInt 1000))

/-- The text moved back, if it is a timestamp and stays in range; nothing where the
shift has no answer. -/
def subtractFromText? (d : Duration) (text : String) : Option String :=
  match Timestamp.ofText? text with
  | none => some text
  | some t =>
    if d.milliseconds = leastSigned then none
    else
      match t.earlier? d.milliseconds with
      | some shifted => if shifted.isShown then some shifted.text else none
      | none => some text

def subtractFrom? (d : Duration) : Value → Option Value
  | .number n => some (.number (d.subtractFromNumber n))
  | .string text => (d.subtractFromText? text).map .string
  | value => some value

end PlanFold.Duration
