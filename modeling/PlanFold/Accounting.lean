import PlanFold.Step
import PlanFold.Text

/-!
# Counters in metadata

A child's effort is added to the counters of its parent. Whole counts add up
and saturate at 64 signed bits; as soon as one side is anything else the sum
is taken in doubles, where what is no number counts as zero. Page counters can
be zeroed, and a step can override the count of delivered pages.

A result without a metadata mapping has no counters, and none are given to it.
-/

set_option autoImplicit false

namespace PlanFold

open Numeric

def wholeCount? : Option Value → Option Int
  | none => some 0
  | some (.number n) => n.signed?
  | some _ => none

def doubleCount : Option Value → Binary64
  | some (.number n) => n.toBinary64
  | _ => .ofInt 0

def addCounts (a b : Option Value) : Value :=
  match wholeCount? a, wholeCount? b with
  | some m, some n => .ofWhole (m + n)
  | _, _ =>
    match Number.ofBinary64? ((doubleCount a).add (doubleCount b)) with
    | some n => .number n
    | none => .null

def addCounter (child : Fields) (parent : Fields) (counter : String) : Fields :=
  match parent.get? counter, child.get? counter with
  | none, none => parent
  | mine, theirs => parent.insert counter (addCounts mine theirs)

namespace StepResult

def addEffort (parent child : StepResult) (counters : List String) : StepResult :=
  parent.mapMetadata fun metadata =>
    counters.foldl (addCounter (child.metadata?.getD [])) metadata

def zeroCounter (metadata : Fields) (counter : String) : Fields :=
  if metadata.contains counter then metadata.insert counter (.ofWhole 0) else metadata

def zeroPageCounts (result : StepResult) (counters : List String) : StepResult :=
  result.mapMetadata fun metadata => counters.foldl zeroCounter metadata

end StepResult

def leadingNumber (cs : List Char) : Int :=
  let n : Int := Nat.ofDigitChars 10 (cs.takeWhile Char.isDigit) 0
  if n ≤ greatestSigned then n else 0

def textCount (text : String) : Int :=
  match Text.dropBlanks text.toList with
  | '-' :: rest => -leadingNumber rest
  | '+' :: rest => leadingNumber rest
  | cs => leadingNumber cs

def pageCount? : Value → Option Int
  | .number n =>
    match n.signed?, n.toBinary64 with
    | some count, _ => some count
    | none, .finite x => some (saturate x.truncate)
    | none, _ => none
  | .string text => some (textCount text)
  | _ => none

def overridePageCount (step : Step) (result : StepResult) : StepResult :=
  match (step.get? "set_page_count_delivered").bind pageCount? with
  | some count =>
    result.mapMetadata fun metadata => metadata.insert "page_count_delivered" (.ofWhole count)
  | none => result

end PlanFold
