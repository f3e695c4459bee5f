import PlanFold.Interpreter.Basic
import PlanFold.Proofs.Directives

/-!
# Nodes of a run

A plan is run by running its node with its children as branches. `Ran` tells
what a node that succeeded has done: its own result, the child results brought
to it in order, and the result it returns. As it speaks of any plan, state and
history, a law about `Ran` holds at every node of a tree.
-/

set_option autoImplicit false

namespace PlanFold

theorem Plan.induction {P : Plan → Prop}
    (h : ∀ plan, (∀ directive ∈ plan.children, P directive.2) →
      (∀ fallback, plan.fallback = some fallback → P fallback) → P plan) :
    ∀ plan, P plan := by
  intro plan
  refine Plan.rec (motive_1 := P)
    (motive_2 := fun children => ∀ directive ∈ children, P directive.2)
    (motive_3 := fun fallback => ∀ plan, fallback = some plan → P plan)
    (motive_4 := fun directive => P directive.2) ?_ ?_ ?_ ?_ ?_ ?_ plan
  · intro fields children partition fallback rule hook rules skips hchildren hfallback
    exact h _ hchildren hfallback
  · intro directive hd
    cases hd
  · intro head tail hhead htail directive hd
    rcases List.mem_cons.mp hd with rfl | hd
    · exact hhead
    · exact htail directive hd
  · intro plan hp
    cases hp
  · intro plan hplan other hp
    cases hp
    exact hplan
  · intro scope plan hplan
    exact hplan

inductive Plan.Has : Plan → Plan → Prop
  | self (plan : Plan) : Has plan plan
  | child {plan node : Plan} {directive : Scope × Plan} :
      directive ∈ plan.children → Has directive.2 node → Has plan node
  | fallback {plan node fallback : Plan} :
      plan.fallback = some fallback → Has fallback node → Has plan node

def Plan.Refers (plan : Plan) (reference : Reference) : Prop :=
  ∃ name value, (name, value) ∈ plan.fields ∧ isStructural name = false ∧
    Reference.ofValue value = .ok (some reference)

def Host.scripted (results : List StepResult) : Host where
  run earlier _ _ := .ok (results.getD earlier.runs .empty)
  interpolate := none
  unpack := none
  post := none
  mergeDown := none

def Host.byName (answers : List (String × StepResult)) : Host where
  run _ step _ := .ok <| ((step.binding?.bind fun name =>
    answers.find? fun answer => answer.1 = name).map Prod.snd).getD .empty
  interpolate := none
  unpack := none
  post := none
  mergeDown := none

namespace Interpreter

theorem runPlan_eq (interpreter : Interpreter) (args : List Value) (plan : Plan) (state : State) :
    runPlan interpreter args plan state = runNode interpreter args plan
      (branches interpreter args plan.children)
      (fallbackBranch interpreter args plan.fallback) state := by
  cases plan
  rfl

theorem runPlan_branch (interpreter : Interpreter) (args : List Value) (plan : Plan) :
    runPlan interpreter args plan = runNode interpreter args plan
      (branches interpreter args plan.children)
      (fallbackBranch interpreter args plan.fallback) :=
  funext (runPlan_eq interpreter args plan)

def nodeOf (interpreter : Interpreter) (args : List Value) (plan : Plan) (state : State)
    (binding : String) (own : StepResult) : Node :=
  ⟨plan, binding, state, args, own, fallbackBranch interpreter args plan.fallback⟩

def Node.start (node : Node) : Folding := ⟨node.own, node.plan.skipsPageCount⟩

def Folding.close (folding : Folding) (interpreter : Interpreter) : StepResult :=
  (folding.descend interpreter.settings.pageCountFields).result

/-- A node that ran to its end: the name it binds, its own result right after
its step, the child results brought to it, and the result it returns. -/
structure Ran (interpreter : Interpreter) (args : List Value) (plan : Plan) (state : State)
    (history : History) (binding : String) (own : StepResult) (stepped : History)
    (received : List StepResult) (final : StepResult) (after : History) : Prop where
  valid : plan.validate state interpreter.settings.requiredFields = .ok binding
  step : runStep interpreter plan state args history = .ok own stepped
  children : ∃ folding,
    CarriedAll interpreter (nodeOf interpreter args plan state binding own)
      (nodeOf interpreter args plan state binding own).start
      (branches interpreter args plan.children) stepped received folding after ∧
    folding.close interpreter = final

variable {interpreter : Interpreter} {args : List Value} {plan : Plan} {state : State}
  {history after : History} {final : StepResult}

theorem branches_eq (children : List (Scope × Plan)) :
    branches interpreter args children = children.map fun directive =>
      (directive.1, ⟨directive.2, runPlan interpreter args directive.2⟩) := by
  induction children with
  | nil => rfl
  | cons directive rest ih =>
    show (directive.1, _) :: branches interpreter args rest = _
    rw [ih]
    rfl

theorem mem_branches {children : List (Scope × Plan)} {directive : Scope × Branch}
    (h : directive ∈ branches interpreter args children) :
    ∃ child ∈ children, directive.2 = ⟨child.2, runPlan interpreter args child.2⟩ := by
  rw [branches_eq] at h
  obtain ⟨child, hchild, rfl⟩ := List.mem_map.mp h
  exact ⟨child, hchild, rfl⟩

theorem fallbackBranch_some {fallback : Option Plan} {branch : Branch}
    (h : fallbackBranch interpreter args fallback = some branch) :
    ∃ other, fallback = some other ∧ branch = ⟨other, runPlan interpreter args other⟩ := by
  cases fallback with
  | none => cases h
  | some other => exact ⟨other, rfl, (Option.some.inj h).symm⟩

/-- A run that succeeds has validated its node, run its step and carried out all
its directives. -/
theorem stages_of_ok (h : runPlan interpreter args plan state history = .ok final after) :
    ∃ binding own stepped folding,
      plan.validate state interpreter.settings.requiredFields = .ok binding ∧
      runStep interpreter plan state args history = .ok own stepped ∧
      directAll interpreter (nodeOf interpreter args plan state binding own)
        (nodeOf interpreter args plan state binding own).start
        (branches interpreter args plan.children) stepped = .ok folding after ∧
      folding.close interpreter = final := by
  rw [runPlan_eq] at h
  obtain ⟨binding, hvalid, h⟩ := Run.ofExcept_bind_ok_iff.mp h
  obtain ⟨own, stepped, hstep, h⟩ := Run.bind_ok_iff.mp h
  obtain ⟨folding, last, hall, h⟩ := Run.bind_ok_iff.mp h
  obtain ⟨hfinal, rfl⟩ := Run.pure_ok_iff.mp h
  exact ⟨binding, own, stepped, folding, hvalid, hstep, hall, hfinal⟩

theorem ok_of_stages {binding : String} {own : StepResult} {stepped : History} {folding : Folding}
    (hvalid : plan.validate state interpreter.settings.requiredFields = .ok binding)
    (hstep : runStep interpreter plan state args history = .ok own stepped)
    (hall : directAll interpreter (nodeOf interpreter args plan state binding own)
      (nodeOf interpreter args plan state binding own).start
      (branches interpreter args plan.children) stepped = .ok folding after) :
    runPlan interpreter args plan state history = .ok (folding.close interpreter) after := by
  rw [runPlan_eq]
  refine Run.ofExcept_bind_ok_iff.mpr ⟨binding, hvalid, ?_⟩
  refine Run.bind_ok_iff.mpr ⟨own, stepped, hstep, ?_⟩
  exact Run.bind_ok_iff.mpr ⟨folding, after, hall, rfl⟩

theorem ran_of_ok (h : runPlan interpreter args plan state history = .ok final after) :
    ∃ binding own stepped received,
      Ran interpreter args plan state history binding own stepped received final after := by
  obtain ⟨binding, own, stepped, folding, hvalid, hstep, hall, hfinal⟩ := stages_of_ok h
  obtain ⟨received, hall⟩ := carriedAll_of_ok hall
  exact ⟨binding, own, stepped, received, hvalid, hstep, folding, hall, hfinal⟩

end Interpreter

end PlanFold
