import PlanFold.Plan

/-!
# Checks before and after a step

A node may run only if it has every required field and a binding name that is
not bound yet. Its result stands only if no rule of the plan matches it.

A rule looks at the end of a dotted path that starts at the fields of a result.
A segment selects the member of its name in a mapping, and in a list the element
whose index it writes. An absent segment is an error and never reads as null.
-/

set_option autoImplicit false

namespace PlanFold

def greatestIndex : Nat := 18446744073709551615

def listIndex? (segment : String) : Option Nat :=
  let digits :=
    match segment.toList with
    | '+' :: rest => rest
    | cs => cs
  if digits.isEmpty || !digits.all Char.isDigit then none
  else
    let index := Nat.ofDigitChars 10 digits 0
    if index ≤ greatestIndex then some index else none

namespace Value

def part? (segment : String) : Value → Option Value
  | .mapping fields => Fields.get? segment fields
  | .list items => (listIndex? segment).bind fun index => items[index]?
  | _ => none

def follow : List String → Value → Except String Value
  | [], value => .ok value
  | segment :: rest, value =>
    match value.part? segment with
    | some part => follow rest part
    | none => .error segment

end Value

namespace StepResult

def lookup (result : StepResult) (path : String) : Except PlanError Value :=
  match Text.segments path with
  | (first, more) => (result.toValue.follow (first :: more)).mapError (.missingPath path)

end StepResult

namespace Plan

def lacking? (plan : Plan) (required : List String) : Option String :=
  required.find? fun field => !plan.fields.contains field

def validate (plan : Plan) (state : State) (required : List String) : Except PlanError String :=
  match plan.lacking? required with
  | some field => .error (.missingField field)
  | none => do
    let binding ← plan.binding
    if state.contains binding then throw (.duplicateBinding binding) else return binding

end Plan

namespace StepResult

def checkRule (result : StepResult) (rule : FailRule) : Except PlanError Unit := do
  let value ← result.lookup rule.path
  if rule.predicate.holds value then
    throw (.validation rule.path value rule.predicate.name)

def checkRules (result : StepResult) : List FailRule → Except PlanError Unit
  | [] => .ok ()
  | rule :: rest => do
    result.checkRule rule
    checkRules result rest

end StepResult

end PlanFold
