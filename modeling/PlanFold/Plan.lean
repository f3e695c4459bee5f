import PlanFold.PlanError
import PlanFold.Predicate
import PlanFold.Step

/-!
# Plans

A plan is a tree. A node has plain fields in order, among them its binding
name `as` and its directive `attach`, and child plans with the scope each runs
in. It may split lists by a predicate, name a fallback for what remains, give
a default for elements or compute one, list rules that fail the run, and ask
that its own page counters be skipped.
-/

set_option autoImplicit false

namespace PlanFold

inductive Scope where
  | this
  | first (list : String)
  | each (list : String)
deriving DecidableEq

namespace Scope

def name : Scope → String
  | .this => "this"
  | .first _ => "first"
  | .each _ => "each"

def list? : Scope → Option String
  | .this => none
  | .first list => some list
  | .each list => some list

end Scope

structure FailRule where
  path : String
  predicate : Predicate

abbrev DefaultHook := History → Value → List Value → Except String (Option StepResult)

structure Plan where
  fields : Fields
  children : List (Scope × Plan)
  partition : Option Predicate
  fallback : Option Plan
  defaultRule : Option (Predicate × Value)
  defaultWith : Option DefaultHook
  failRules : List FailRule
  skipsPageCount : Bool

namespace Plan

def ofFields (fields : Fields) : Plan :=
  ⟨fields, [], none, none, none, none, [], false⟩

def empty : Plan := ofFields []

def field (plan : Plan) (name : String) (value : Value) : Plan :=
  { plan with fields := plan.fields.insert name value }

def named (binding : String) : Plan := empty.field "as" (.string binding)

def attach (plan : Plan) (directive : Attach) : Plan := plan.field "attach" directive.toValue

def fanOut (plan : Plan) (scope : Scope) (child : Plan) : Plan :=
  { plan with children := plan.children ++ [(scope, child)] }

def failIf (plan : Plan) (path : String) (predicate : Predicate) : Plan :=
  { plan with failRules := plan.failRules ++ [⟨path, predicate⟩] }

def get? (plan : Plan) (name : String) : Option Value := plan.fields.get? name

def binding (plan : Plan) : Except PlanError String :=
  match plan.get? "as" with
  | some (.string name) => .ok name
  | some value => .error (.invalidBinding value)
  | none => .error (.missingField "as")

def attachDirective (plan : Plan) : Except PlanError Attach :=
  match plan.get? "attach" with
  | some value => (Attach.ofValue value).mapError (.invalidAttach value)
  | none => .ok .detached

end Plan

end PlanFold
