import PlanFold.Value.Basic
import PlanFold.Text

/-!
# References

A plan field whose value is a mapping with the key `ref` refers to an attribute
of a named container, as in `cake.updated_at`. Only the first two dotted
segments count. The key `minus` may hold the text of a duration to subtract.

Structural fields belong to the plan itself and are never references.
-/

set_option autoImplicit false

namespace PlanFold

structure Reference where
  container : String
  member : Option String
  minus : Option String
deriving DecidableEq

inductive ReferenceFault where
  | targetNotText
  | targetEmpty
  | minusNotText
deriving DecidableEq

def ReferenceFault.message : ReferenceFault → String
  | .targetNotText => "ref must be a string"
  | .targetEmpty => "ref must not be empty"
  | .minusNotText => "minus must be an ISO-8601 duration string"

namespace Reference

def ofNames (container member : String) : Reference := ⟨container, some member, none⟩

def target (reference : Reference) : String :=
  match reference.member with
  | some member => reference.container ++ "." ++ member
  | none => reference.container

def readMinus (descriptor : Fields) : Except ReferenceFault (Option String) :=
  match descriptor.get? "minus" with
  | none => .ok none
  | some .null => .ok none
  | some (.string minus) => .ok (some minus)
  | some _ => .error .minusNotText

def ofDescriptor (target : Value) (descriptor : Fields) : Except ReferenceFault Reference :=
  match target with
  | .string name =>
    if name = "" then .error .targetEmpty
    else do
      let minus ← readMinus descriptor
      match Text.segments name with
      | (container, more) => return ⟨container, more.head?, minus⟩
  | _ => .error .targetNotText

def ofValue (value : Value) : Except ReferenceFault (Option Reference) :=
  match value with
  | .mapping descriptor =>
    match Fields.get? "ref" descriptor with
    | some target => (ofDescriptor target descriptor).map some
    | none => .ok none
  | _ => .ok none

def toValue (reference : Reference) : Value :=
  .mapping (("ref", .string reference.target) ::
    match reference.minus with
    | some minus => [("minus", .string minus)]
    | none => [])

end Reference

def isStructural (name : String) : Bool :=
  name = "as" || name = "attach" || name = "skip_page_count" || name = "partition" ||
    name = "fallback" || name = "default" || Text.beginsWith "for_" name ||
    Text.endsWith "_if" name

end PlanFold
