import PlanFold.PlanError
import PlanFold.Step
import PlanFold.Timestamp.Text

/-!
# Folding a child result into a target

A target is either a whole result, with a field `content` that receives the
payload, or a bare mapping such as a list element, which receives it itself.
The payload is the child's content, narrowed to one key and with its keys
prefixed as the directive says.

Nothing is claimed about the order of the checks beyond this: a target that
cannot receive a payload is reported before a payload that cannot be received.
-/

set_option autoImplicit false

namespace PlanFold

namespace Attach

def narrow (key : String) : Value → Except PlanError Value
  | .null => .ok .null
  | .mapping fields => .ok ((Fields.get? key fields).getD .null)
  | value => .error (.incompatibleSource "narrow" value.kind)

def prefixKeys (start : String) : Value → Except PlanError Value
  | .null => .ok .null
  | .mapping fields => .ok (.mapping (fields.map fun field => (start ++ field.1, field.2)))
  | value => .error (.incompatibleSource "prefix" value.kind)

def payload (attach : Attach) (source : StepResult) : Except PlanError Value := do
  let narrowed ←
    match attach.fromKey with
    | some key => narrow key source.content
    | none => .ok source.content
  match attach.keyPrefix with
  | some start => prefixKeys start narrowed
  | none => .ok narrowed

end Attach

def Value.isNullOrMapping : Value → Bool
  | .null => true
  | .mapping _ => true
  | _ => false

namespace AttachMode

def accepts (mode : AttachMode) (target : Fields) : Bool :=
  match mode, target.get? "content" with
  | .detached, _ => true
  | _, none => true
  | .replace, some _ => true
  | _, some content => content.isNullOrMapping

def admits (mode : AttachMode) (target : Fields) (payload : Value) : Bool :=
  match mode with
  | .merge => payload.isNullOrMapping
  | .replace => target.contains "content" || payload.isNullOrMapping
  | _ => true

def targetKind (target : Fields) : String :=
  match target.get? "content" with
  | some content => content.kind
  | none => "mapping"

def check (mode : AttachMode) (target : Fields) (payload : Value) : Except PlanError Unit :=
  if !mode.accepts target then .error (.incompatibleTarget mode.name (targetKind target))
  else if !mode.admits target payload then .error (.incompatibleSource mode.name payload.kind)
  else .ok ()

end AttachMode

def slot? (target : Fields) : Option Fields :=
  match target.get? "content" with
  | none => some target
  | some .null => some []
  | some (.mapping fields) => some fields
  | some _ => none

def fillSlot (target slot : Fields) : Fields :=
  if target.contains "content" then target.insert "content" (.mapping slot) else slot

namespace Attach

def land (attach : Attach) (target : Fields) (payload : Value) : Except PlanError Fields :=
  let blocked := .error (.incompatibleTarget attach.mode.name (AttachMode.targetKind target))
  let unfit := .error (.incompatibleSource attach.mode.name payload.kind)
  match attach.mode with
  | .detached => .ok target
  | .merge =>
    match slot? target, payload with
    | none, _ => blocked
    | some slot, .null => .ok (fillSlot target slot)
    | some slot, .mapping fields => .ok (fillSlot target (slot.merge fields))
    | some _, _ => unfit
  | .replace =>
    if target.contains "content" then .ok (target.insert "content" payload)
    else
      match payload with
      | .null => .ok []
      | .mapping fields => .ok fields
      | _ => unfit
  | .relocate key =>
    match slot? target with
    | none => blocked
    | some slot =>
      let kept :=
        match attach.fromKey with
        | some old => slot.erase old
        | none => slot
      .ok (fillSlot target (kept.insert key payload))

end Attach

def updatedAt? (metadata : Fields) : Option String :=
  (metadata.get? "updated_at").bind Value.string?

def isNewer (candidate current : String) : Bool :=
  match Timestamp.ofText? candidate, Timestamp.ofText? current with
  | some a, some b => a.isAfter b
  | _, _ => false

def keepNewest (target : Fields) (source : StepResult) : Fields :=
  match source.metadata?.bind updatedAt?, (target.get? "metadata").bind Value.fields? with
  | some candidate, some metadata =>
    match updatedAt? metadata with
    | some current =>
      if isNewer candidate current then
        target.insert "metadata" (.mapping (metadata.insert "updated_at" (.string candidate)))
      else target
    | none => target
  | _, _ => target

end PlanFold
