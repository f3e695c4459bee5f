import PlanFold.Attach
import PlanFold.Reference

/-!
# What can go wrong in a run

Each failure ends the whole run. Plan errors lie in the plan itself, host
errors come from the step runner or a hook, and all others from a result or a
value met on the way.
-/

set_option autoImplicit false

namespace PlanFold

inductive PlanError where
  | missingField (field : String)
  | duplicateBinding (binding : String)
  | invalidBinding (value : Value)
  | unknownContainer (container : String)
  | unknownAttribute (container member : String) (available : List String)
  | invalidReference (field : String) (fault : ReferenceFault)
  | invalidDuration (text : String)
  | validation (path : String) (value : Value) (predicate : String)
  | missingPath (path segment : String)
  | invalidAttach (value : Value) (fault : AttachFault)
  | notAList (field : String)
  | incompatibleTarget (strategy found : String)
  | incompatibleSource (operation found : String)
  | host (text : String)
  /-- A timestamp would have to move by a number of milliseconds that cannot be
  negated, or to a day that its clock cannot show. -/
  | unboundedShift (minus : String)

namespace PlanError

def message : PlanError → String
  | .missingField field => "plan does not include required field " ++ Text.quote field
  | .duplicateBinding binding => Text.quote binding ++ " already exists from a previous step"
  | .invalidBinding value => "binding name must be a string, got " ++ value.text
  | .unknownContainer container => "referenced unknown container " ++ Text.quote container
  | .unknownAttribute container member available =>
    "referenced unknown attribute " ++ Text.quote member ++ " on container " ++
      Text.quote container ++ " " ++ Text.quoteAll available
  | .invalidReference field fault =>
    "invalid reference in field " ++ Text.quote field ++ ": " ++ fault.message
  | .invalidDuration text => "invalid ISO-8601 duration " ++ Text.quote text
  | .validation path value predicate =>
    "validation failed: " ++ path ++ ": " ++ value.text ++ " <- " ++ predicate
  | .missingPath path segment =>
    "result path " ++ Text.quote path ++ " is missing segment " ++ Text.quote segment
  | .invalidAttach value fault =>
    "invalid attach directive " ++ value.text ++ ": " ++ fault.message
  | .notAList field => "fan-out field " ++ Text.quote field ++ " is not a list"
  | .incompatibleTarget strategy found => "cannot " ++ strategy ++ " into " ++ found
  | .incompatibleSource operation found => "cannot " ++ operation ++ " a " ++ found ++ " source"
  | .host text => text
  | .unboundedShift minus => "duration " ++ Text.quote minus ++ " shifts a timestamp too far"

def isPlanError : PlanError → Bool
  | .missingField _ => true
  | .duplicateBinding _ => true
  | .invalidBinding _ => true
  | .invalidAttach _ _ => true
  | .invalidReference _ _ => true
  | .invalidDuration _ => true
  | _ => false

def isHostError : PlanError → Bool
  | .host _ => true
  | _ => false

end PlanError

end PlanFold
