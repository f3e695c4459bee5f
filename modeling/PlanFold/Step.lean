import PlanFold.Json.Text
import PlanFold.Value.Fields

/-!
# States, steps and their results, and the calls a run makes to its host

A state holds the values bound to names along one path from the root of a
plan. Binding yields a new state and leaves the old one as it was. No name is
bound twice, so the size of a state counts its names.

A step is what a plan node becomes once its references are resolved. It yields
a mapping. The field `content` is the payload, null when absent; the field
`metadata`, when it is a mapping, holds counters and a timestamp. All other
fields are carried along.

The host answers calls: it runs steps, and its hooks may change them, supply
reference containers, change results and targets, or stand in for a plan. A
history lists the calls made so far, oldest first.
-/

set_option autoImplicit false

namespace PlanFold

structure State where
  bindings : Fields
  distinct : bindings.Distinct

namespace State

def empty : State := ⟨[], by simp [Fields.Distinct, Fields.keys]⟩

def bind (state : State) (name : String) (value : Value) : State :=
  ⟨state.bindings.insert name value, state.distinct.insert name value⟩

def get? (state : State) (name : String) : Option Value := state.bindings.get? name

def contains (state : State) (name : String) : Bool := state.bindings.contains name

def size (state : State) : Nat := state.bindings.length

def isEmpty (state : State) : Bool := state.bindings.isEmpty

theorem get?_bind (state : State) (name : String) (value : Value) (key : String) :
    (state.bind name value).get? key = if name = key then some value else state.get? key :=
  Fields.get?_insert name value state.bindings key

theorem contains_bind (state : State) (name : String) (value : Value) (key : String) :
    (state.bind name value).contains key = (decide (name = key) || state.contains key) := by
  show ((state.bind name value).get? key).isSome = _
  rw [get?_bind]
  by_cases h : name = key
  · simp [h]
  · simp only [h, if_false, decide_false, Bool.false_or]
    rfl

def ofList (bindings : List (String × Value)) : State :=
  ⟨Fields.ofList bindings, Fields.distinct_ofList bindings⟩

def same (s t : State) : Bool := Value.same (.mapping s.bindings) (.mapping t.bindings)

def sorted (state : State) : Fields := state.bindings.mergeSort fun a b => a.1 ≤ b.1

end State

structure StepResult where
  fields : Fields

namespace StepResult

def ofContent (content : Value) : StepResult := ⟨[("content", content)]⟩

def empty : StepResult := ofContent .null

def content (result : StepResult) : Value := (result.fields.get? "content").getD .null

def metadata? (result : StepResult) : Option Fields :=
  (result.fields.get? "metadata").bind Value.fields?

def setContent (result : StepResult) (content : Value) : StepResult :=
  ⟨result.fields.insert "content" content⟩

def setMetadata (result : StepResult) (metadata : Fields) : StepResult :=
  ⟨result.fields.insert "metadata" (.mapping metadata)⟩

def mapMetadata (result : StepResult) (change : Fields → Fields) : StepResult :=
  match result.metadata? with
  | some metadata => result.setMetadata (change metadata)
  | none => result

def toValue (result : StepResult) : Value := .mapping result.fields

def ofText? (text : String) : Option StepResult :=
  ((Value.ofText? text).bind Value.fields?).map .mk

end StepResult

structure Step where
  fields : Fields

namespace Step

def get? (step : Step) (name : String) : Option Value := step.fields.get? name

def binding? (step : Step) : Option String := (step.get? "as").bind Value.string?

end Step

inductive Call where
  | run (step : Step) (args : List Value)
  | interpolate (step : Step) (state : State) (args : List Value)
  | unpack (container : String) (args : List Value)
  | post (step : Step) (result : StepResult)
  | mergeDown (target : Fields) (source : StepResult)
  | defaultWith (binding : Option Value) (bound : Value) (args : List Value)

abbrev History := List Call

def Call.isRun : Call → Bool
  | .run _ _ => true
  | _ => false

def History.runs (history : History) : Nat := history.countP Call.isRun

end PlanFold
