import PlanFold.Interpreter.FanOut
import PlanFold.Interpreter.Preparation
import PlanFold.Validation

/-!
# Running plans

A node is validated, prepared and run; its result is checked against the
rules of the plan and shown to the host; then its children run. The recursion
is over the tree of plans alone: each child plan becomes a branch, and a node
is run with its branches.
-/

set_option autoImplicit false

namespace PlanFold.Interpreter

def runStep (interpreter : Interpreter) (plan : Plan) (state : State) (args : List Value) :
    Run StepResult := do
  let step ← prepare interpreter.host plan state args
  let raw ← Run.call (.run step args) fun earlier => interpreter.host.run earlier step args
  Run.ofExcept (raw.checkRules plan.failRules)
  let result := overridePageCount step raw
  Run.callHook interpreter.host.post (.post step result)
    (fun post earlier => post earlier step result) result

def runNode (interpreter : Interpreter) (args : List Value) (plan : Plan)
    (directives : List (Scope × Branch)) (fallback : Option Branch) (state : State) :
    Run StepResult := do
  let binding ← Run.ofExcept (plan.validate state interpreter.settings.requiredFields)
  let result ← runStep interpreter plan state args
  fanOut interpreter ⟨plan, binding, state, args, result, fallback⟩ directives

mutual

def runPlan (interpreter : Interpreter) (args : List Value) : Plan → State → Run StepResult
  | plan@⟨_, children, _, fallback, _, _, _, _⟩, state =>
    runNode interpreter args plan (branches interpreter args children)
      (fallbackBranch interpreter args fallback) state

def branches (interpreter : Interpreter) (args : List Value) :
    List (Scope × Plan) → List (Scope × Branch)
  | [] => []
  | (scope, child) :: rest =>
    (scope, ⟨child, fun state => runPlan interpreter args child state⟩) ::
      branches interpreter args rest

def fallbackBranch (interpreter : Interpreter) (args : List Value) : Option Plan → Option Branch
  | none => none
  | some plan => some ⟨plan, fun state => runPlan interpreter args plan state⟩

end

def run (interpreter : Interpreter) (plan : Plan) (state : State) (args : List Value)
    (history : History) : Except PlanError StepResult × History :=
  match runPlan interpreter args plan state history with
  | .ok result history => (.ok result, history)
  | .error e history => (.error e, history)

def prepareStep (interpreter : Interpreter) (plan : Plan) (state : State) (args : List Value)
    (history : History) : Except PlanError Step × History :=
  match prepare interpreter.host plan state args history with
  | .ok step history => (.ok step, history)
  | .error e history => (.error e, history)

end PlanFold.Interpreter
