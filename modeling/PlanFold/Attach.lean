import PlanFold.Json.Text
import PlanFold.Text

/-!
# Attach directives

An attach directive says how a child result is folded into its target. As a
field value it is `false` or null for detached, and otherwise a mapping with
some of the keys `merge`, `replace`, `to`, `from` and `prefix`. A mapping may
ask for more than one mode: `merge` comes before `replace` and that before `to`.
-/

set_option autoImplicit false

namespace PlanFold

inductive AttachMode where
  | detached
  | merge
  | replace
  | relocate (key : String)
deriving DecidableEq

def AttachMode.name : AttachMode → String
  | .detached => "detach"
  | .merge => "merge"
  | .replace => "replace"
  | .relocate _ => "relocate"

structure Attach where
  mode : AttachMode
  fromKey : Option String
  keyPrefix : Option String
deriving DecidableEq

inductive AttachFault where
  | notADirective
  | unknownField (name : String)
  | expectedTruthValue (found : Value)
  | expectedText (found : Value)

namespace AttachFault

def found : Value → String
  | .null => "null"
  | .bool b => if b then "boolean `true`" else "boolean `false`"
  | .number (.whole n) => "integer `" ++ String.ofList (Number.whole n).text ++ "`"
  | .number (.double x) => "floating point `" ++ String.ofList (Number.double x).text ++ "`"
  | .string s => "string " ++ Text.quote s
  | .list _ => "sequence"
  | .mapping _ => "map"

def message : AttachFault → String
  | .notADirective => "expected false or a mapping"
  | .unknownField name =>
    "unknown field `" ++ name ++ "`, expected one of `merge`, `replace`, `to`, `from`, `prefix`"
  | .expectedTruthValue value => "invalid type: " ++ found value ++ ", expected a boolean"
  | .expectedText value => "invalid type: " ++ found value ++ ", expected a string"

end AttachFault

namespace Attach

def detached : Attach := ⟨.detached, none, none⟩

structure Keys where
  merge : Bool
  replace : Bool
  toKey : Option String
  fromKey : Option String
  keyPrefix : Option String

def truthValue : Value → Except AttachFault Bool
  | .bool b => .ok b
  | value => .error (.expectedTruthValue value)

def optionalText : Value → Except AttachFault (Option String)
  | .null => .ok none
  | .string s => .ok (some s)
  | value => .error (.expectedText value)

def readKey (keys : Keys) (field : String × Value) : Except AttachFault Keys := do
  if field.1 = "merge" then return { keys with merge := ← truthValue field.2 }
  else if field.1 = "replace" then return { keys with replace := ← truthValue field.2 }
  else if field.1 = "to" then return { keys with toKey := ← optionalText field.2 }
  else if field.1 = "from" then return { keys with fromKey := ← optionalText field.2 }
  else if field.1 = "prefix" then return { keys with keyPrefix := ← optionalText field.2 }
  else throw (.unknownField field.1)

def readKeys (fields : Fields) : Except AttachFault Keys :=
  fields.foldlM readKey ⟨false, false, none, none, none⟩

def Keys.mode (keys : Keys) : AttachMode :=
  if keys.merge then .merge
  else if keys.replace then .replace
  else
    match keys.toKey with
    | some key => .relocate key
    | none => .detached

def ofValue : Value → Except AttachFault Attach
  | .null => .ok detached
  | .bool false => .ok detached
  | .mapping fields => do
    let keys ← readKeys fields
    return ⟨keys.mode, keys.fromKey, keys.keyPrefix⟩
  | _ => .error .notADirective

def modeFields : AttachMode → Fields
  | .detached => []
  | .merge => [("merge", .bool true)]
  | .replace => [("replace", .bool true)]
  | .relocate key => [("to", .string key)]

def textField (name : String) : Option String → Fields
  | some s => [(name, .string s)]
  | none => []

def toValue (attach : Attach) : Value :=
  let fields := modeFields attach.mode ++ textField "from" attach.fromKey ++
    textField "prefix" attach.keyPrefix
  if fields.isEmpty then .bool false else .mapping fields

end Attach

end PlanFold
