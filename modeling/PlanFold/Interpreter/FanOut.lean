import PlanFold.Accounting
import PlanFold.Host
import PlanFold.Integration
import PlanFold.Predicate

/-!
# Fan-out

The directives of a node are carried out in order on a copy of its result. A
child of a scope that finds no data is passed over. A child that runs sees the
node's binding name bound to the data it runs on; its effort is added to the
node and its result is folded in.

What running a child does is a parameter here, so that everything about
fan-out can be said without the recursion over plans.

Diagnostic events of the debug level are taken to be off. With them on, a child
whose default hook answers would be asked for its binding name as well, and the
run would fail if it has none.
-/

set_option autoImplicit false

namespace PlanFold.Interpreter

structure Branch where
  plan : Plan
  run : State → Run StepResult

structure Node where
  plan : Plan
  binding : String
  state : State
  args : List Value
  own : StepResult
  fallback : Option Branch

/-- A result as folded so far, and whether its page counters are still to be zeroed. -/
structure Folding where
  result : StepResult
  skipPending : Bool

namespace Folding

def passOver (folding : Folding) : Folding := { folding with skipPending := false }

def descend (folding : Folding) (counters : List String) : Folding :=
  if folding.skipPending then ⟨folding.result.zeroPageCounts counters, false⟩ else folding

end Folding

/-- Fold a child result into a target. Nothing is changed and no hook is called
unless payload and target fit. -/
def integrate (host : Host) (attach : Attach) (target : Fields) (source : StepResult) :
    Run Fields :=
  if attach.mode = .detached then pure target
  else do
    let payload ← Run.ofExcept (attach.payload source)
    Run.ofExcept (attach.mode.check target payload)
    let stamped := keepNewest target source
    let target ← Run.callHook host.mergeDown (.mergeDown stamped source)
      (fun mergeDown earlier => mergeDown earlier stamped source) stamped
    Run.ofExcept (attach.land target payload)

def integrateElement (host : Host) (attach : Attach) (element : Value) (source : StepResult) :
    Run Value :=
  match element with
  | .mapping fields => return .mapping (← integrate host attach fields source)
  | other =>
    if attach.mode = .detached then pure other
    else throw (.incompatibleTarget attach.mode.name other.kind)

def runChild (node : Node) (branch : Branch) (bound : Value) : Run StepResult := do
  let computed ← Run.callHook branch.plan.defaultWith
    (.defaultWith (branch.plan.get? "as") bound node.args)
    (fun hook earlier => hook earlier bound node.args) none
  match computed with
  | some result => pure result
  | none => branch.run (node.state.bind node.binding bound)

def foldChild (interpreter : Interpreter) (node : Node) (folding : Folding) (branch : Branch)
    (bound : Value) : Run Folding := do
  let folding := folding.descend interpreter.settings.pageCountFields
  let child ← runChild node branch bound
  let result := folding.result.addEffort child interpreter.settings.effortCounters
  let attach ← Run.ofExcept branch.plan.attachDirective
  let fields ← integrate interpreter.host attach result.fields child
  pure { folding with result := ⟨fields⟩ }

def listItems (result : StepResult) (list : String) : Except PlanError (Option (List Value)) :=
  match result.content.field? list with
  | none => .ok none
  | some .null => .ok none
  | some (.list items) => .ok (some items)
  | some _ => .error (.notAList list)

def defaultFor? (plan : Plan) (element : Value) : Option Value :=
  match plan.defaultRule with
  | some (predicate, content) => if predicate.holds element then some content else none
  | none => none

def elementResult (interpreter : Interpreter) (node : Node) (branch : Branch)
    (result : StepResult) (element : Value) : Run (StepResult × StepResult) :=
  match defaultFor? branch.plan element with
  | some content => pure (.ofContent content, result)
  | none => do
    let child ← runChild node branch element
    pure (child, result.addEffort child interpreter.settings.effortCounters)

def foldElements (interpreter : Interpreter) (node : Node) (branch : Branch) (attach : Attach) :
    StepResult → List Value → Run (StepResult × List Value)
  | result, [] => pure (result, [])
  | result, element :: rest => do
    let (child, result) ← elementResult interpreter node branch result element
    let element ← integrateElement interpreter.host attach element child
    let (result, others) ← foldElements interpreter node branch attach result rest
    pure (result, element :: others)

def setList (result : StepResult) (list : String) (items : List Value) : StepResult :=
  match result.content with
  | .mapping content => result.setContent (.mapping (Fields.insert list (.list items) content))
  | _ => result

def directThis (interpreter : Interpreter) (node : Node) (folding : Folding) (branch : Branch) :
    Run Folding :=
  if folding.result.content.isNull then pure folding.passOver
  else foldChild interpreter node folding branch folding.result.content

def directFirst (interpreter : Interpreter) (node : Node) (folding : Folding) (list : String)
    (branch : Branch) : Run Folding := do
  match ← Run.ofExcept (listItems folding.result list) with
  | none => pure folding.passOver
  | some items =>
    match Selection.select node.plan.partition items node.fallback.isSome, node.fallback with
    | .primary element, _ => foldChild interpreter node folding branch element
    | .fallback, some fallback =>
      foldChild interpreter node folding fallback node.own.toValue
    | .fallback, none => pure folding
    | .nothing, _ => do
      let attach ← Run.ofExcept branch.plan.attachDirective
      let fields ← integrate interpreter.host attach folding.result.fields .empty
      pure ⟨⟨fields⟩, false⟩

def directEach (interpreter : Interpreter) (node : Node) (folding : Folding) (list : String)
    (branch : Branch) : Run Folding := do
  match ← Run.ofExcept (listItems folding.result list) with
  | none => pure folding.passOver
  | some items => do
    let folding := folding.descend interpreter.settings.pageCountFields
    let attach ← Run.ofExcept branch.plan.attachDirective
    let (result, items) ← foldElements interpreter node branch attach folding.result items
    pure { folding with result := setList result list items }

def direct (interpreter : Interpreter) (node : Node) (folding : Folding)
    (directive : Scope × Branch) : Run Folding :=
  match directive.1 with
  | .this => directThis interpreter node folding directive.2
  | .first list => directFirst interpreter node folding list directive.2
  | .each list => directEach interpreter node folding list directive.2

def directAll (interpreter : Interpreter) (node : Node) :
    Folding → List (Scope × Branch) → Run Folding
  | folding, [] => pure folding
  | folding, directive :: rest => do
    let folding ← direct interpreter node folding directive
    directAll interpreter node folding rest

def fanOut (interpreter : Interpreter) (node : Node) (directives : List (Scope × Branch)) :
    Run StepResult := do
  let folding ← directAll interpreter node ⟨node.own, node.plan.skipsPageCount⟩ directives
  pure (folding.descend interpreter.settings.pageCountFields).result

end PlanFold.Interpreter
