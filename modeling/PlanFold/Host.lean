import PlanFold.Plan
import PlanFold.Settings.Json

/-!
# The host

The host runs steps and may install four hooks. Every answer is a function of
the calls made before and of what the present call shows, so a host of any
behaviour can be described: one that ignores the history answers by its
arguments alone.

A run either goes on with an answer or ends with an error, and keeps the
history in both cases.
-/

set_option autoImplicit false

namespace PlanFold

structure Host where
  run : History → Step → List Value → Except String StepResult
  interpolate : Option (History → Step → State → List Value → Except String Step)
  unpack : Option (History → String → List Value → Except String (Option Value))
  post : Option (History → Step → StepResult → Except String StepResult)
  mergeDown : Option (History → Fields → StepResult → Except String Fields)

namespace Host

def description (host : Host) : String :=
  let shown (installed : Bool) : String := if installed then "true" else "false"
  "Hooks \x7b interpolate_step: " ++ shown host.interpolate.isSome ++
    ", unpack_ref_container: " ++ shown host.unpack.isSome ++
    ", post_step: " ++ shown host.post.isSome ++
    ", merge_down_step: " ++ shown host.mergeDown.isSome ++ " \x7d"

end Host

abbrev Run := EStateM PlanError History

namespace Run

def ofExcept {α : Type} : Except PlanError α → Run α
  | .ok a => pure a
  | .error e => throw e

def call {α : Type} (c : Call) (answer : History → Except String α) : Run α :=
  fun earlier =>
    match answer earlier with
    | .ok a => .ok a (earlier ++ [c])
    | .error text => .error (.host text) (earlier ++ [c])

def callHook {α β : Type} (hook : Option β) (c : Call) (answer : β → History → Except String α)
    (otherwise : α) : Run α :=
  match hook with
  | some f => call c (answer f)
  | none => pure otherwise

end Run

structure Interpreter where
  host : Host
  settings : Settings

namespace Interpreter

def description (interpreter : Interpreter) : String :=
  "Interpreter \x7b hooks: " ++ interpreter.host.description ++ ", settings: " ++
    interpreter.settings.description ++ ", .. \x7d"

end Interpreter

end PlanFold
