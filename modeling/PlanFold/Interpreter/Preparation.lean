import PlanFold.Adjustment
import PlanFold.Host

/-!
# From a plan node to a step

Every field that is not structural and is shaped like a reference is replaced
by what it refers to; all other fields stay as they are. The host may then
change the step.
-/

set_option autoImplicit false

namespace PlanFold.Interpreter

def container (host : Host) (state : State) (args : List Value) (name : String) : Run Value := do
  let supplied ← Run.callHook host.unpack (.unpack name args)
    (fun unpack earlier => unpack earlier name args) none
  match supplied, state.get? name with
  | some found, _ => pure found
  | none, some bound => pure bound
  | none, none => throw (.unknownContainer name)

def readAttribute (reference : Reference) (found : Value) : Except PlanError Value :=
  match reference.member.bind found.field? with
  | some value => .ok value
  | none => .error (.unknownAttribute reference.container (reference.member.getD "")
      ((found.fields?.map Fields.keys).getD []))

def adjust (minus : Option String) (value : Value) : Except PlanError Value :=
  match minus with
  | none => .ok value
  | some text =>
    match Duration.ofText? text with
    | none => .error (.invalidDuration text)
    | some duration =>
      match duration.subtractFrom? value with
      | some adjusted => .ok adjusted
      | none => .error (.unboundedShift text)

def resolve (host : Host) (state : State) (args : List Value) (reference : Reference) :
    Run Value := do
  let found ← container host state args reference.container
  let value ← Run.ofExcept (readAttribute reference found)
  Run.ofExcept (adjust reference.minus value)

def resolveField (host : Host) (state : State) (args : List Value) (name : String)
    (value : Value) : Run Value :=
  if isStructural name then pure value
  else
    match Reference.ofValue value with
    | .error fault => throw (.invalidReference name fault)
    | .ok none => pure value
    | .ok (some reference) => resolve host state args reference

def resolveFields (host : Host) (state : State) (args : List Value) : Fields → Run Fields
  | [] => pure []
  | (name, value) :: rest => do
    let resolved ← resolveField host state args name value
    let others ← resolveFields host state args rest
    pure ((name, resolved) :: others)

def prepare (host : Host) (plan : Plan) (state : State) (args : List Value) : Run Step := do
  let step : Step := ⟨← resolveFields host state args plan.fields⟩
  Run.callHook host.interpolate (.interpolate step state args)
    (fun interpolate earlier => interpolate earlier step state args) step

end PlanFold.Interpreter
