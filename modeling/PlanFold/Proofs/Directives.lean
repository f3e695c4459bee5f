import PlanFold.Interpreter.FanOut
import PlanFold.Proofs.Computations

/-!
# What a directive does

A directive first decides, from the node and its result as folded so far, and
then acts on its decision. There are four decisions only, and everything a
node does with its children is said in terms of them.

`Carried` tells what a directive that succeeded has done, with the child
results it brought to the node in order. It is the one place where fan-out is
taken apart: every law about successful runs is an induction on it.
-/

set_option autoImplicit false

namespace PlanFold

theorem Selection.select_eq (predicate : Option Predicate) (items : List Value)
    (hasFallback : Bool) : select predicate items hasFallback =
      match items.find? (isPrimary predicate) with
      | some element => .primary element
      | none => if hasFallback && !items.isEmpty then .fallback else .nothing := by
  unfold select partition
  rw [List.partition_eq_filter_filter]
  cases hf : items.find? (isPrimary predicate) with
  | some element =>
    have hhead := List.head?_filter (p := isPrimary predicate) (l := items)
    rw [hf] at hhead
    cases hp : items.filter (isPrimary predicate) with
    | nil => simp [hp] at hhead
    | cons first rest =>
      have hfirst : first = element := by simpa [hp] using hhead
      simp [hfirst]
  | none =>
    have hnone := List.find?_eq_none.mp hf
    have hp : items.filter (isPrimary predicate) = [] := List.filter_eq_nil_iff.mpr hnone
    have hr : items.filter (not ∘ isPrimary predicate) = items := by
      apply List.filter_eq_self.mpr
      intro item hitem
      simpa using hnone item hitem
    rw [hp, hr]
    cases items <;> cases hasFallback <;> rfl

namespace Interpreter

inductive Choice where
  | passOver
  | once (branch : Branch) (bound : Value)
  | nothing
  | each (list : String) (items : List Value)

def chooseFirst (node : Node) (branch : Branch) (items : List Value) : Choice :=
  match items.find? (Selection.isPrimary node.plan.partition), items, node.fallback with
  | some element, _, _ => .once branch element
  | none, _ :: _, some fallback => .once fallback node.own.toValue
  | none, _, _ => .nothing

def choose (node : Node) (result : StepResult) (directive : Scope × Branch) :
    Except PlanError Choice :=
  match directive.1 with
  | .this =>
    .ok (if result.content.isNull then .passOver else .once directive.2 result.content)
  | .first list =>
    (listItems result list).map fun items => items.elim .passOver (chooseFirst node directive.2)
  | .each list =>
    (listItems result list).map fun items => items.elim .passOver (.each list)

theorem listItems_some {result : StepResult} {list : String} {items : List Value}
    (h : listItems result list = .ok (some items)) :
    result.content.field? list = some (.list items) := by
  unfold listItems at h
  split at h
  · cases h
  · cases h
  · rename_i hfield
    cases h
    exact hfield
  · cases h

theorem items_of_map {x : Except PlanError (Option (List Value))} {f : List Value → Choice}
    {choice : Choice} (h : (x.map fun items => items.elim .passOver f) = .ok choice)
    (hne : choice ≠ .passOver) : ∃ items, x = .ok (some items) ∧ f items = choice := by
  cases x with
  | error e => cases h
  | ok items =>
    cases items with
    | none => exact absurd (Except.ok.inj h).symm hne
    | some items => exact ⟨items, rfl, Except.ok.inj h⟩

def foldNothing (interpreter : Interpreter) (folding : Folding) (branch : Branch) :
    Run Folding := do
  let attach ← Run.ofExcept branch.plan.attachDirective
  let fields ← integrate interpreter.host attach folding.result.fields .empty
  pure ⟨⟨fields⟩, false⟩

def foldEach (interpreter : Interpreter) (node : Node) (folding : Folding) (branch : Branch)
    (list : String) (items : List Value) : Run Folding := do
  let folding := folding.descend interpreter.settings.pageCountFields
  let attach ← Run.ofExcept branch.plan.attachDirective
  let (result, items) ← foldElements interpreter node branch attach folding.result items
  pure { folding with result := setList result list items }

def act (interpreter : Interpreter) (node : Node) (folding : Folding) (branch : Branch) :
    Choice → Run Folding
  | .passOver => pure folding.passOver
  | .once chosen bound => foldChild interpreter node folding chosen bound
  | .nothing => foldNothing interpreter folding branch
  | .each list items => foldEach interpreter node folding branch list items

theorem direct_eq (interpreter : Interpreter) (node : Node) (folding : Folding)
    (directive : Scope × Branch) : direct interpreter node folding directive =
      Run.ofExcept (choose node folding.result directive) >>=
        act interpreter node folding directive.2 := by
  obtain ⟨scope, branch⟩ := directive
  cases scope with
  | this =>
    unfold direct directThis choose
    cases folding.result.content.isNull <;> rfl
  | first list =>
    unfold direct directFirst choose
    simp only
    cases listItems folding.result list with
    | error e => rfl
    | ok items =>
      cases items with
      | none => rfl
      | some items =>
        simp only [Run.ofExcept, pure_bind, Except.map, Option.elim, Selection.select_eq]
        unfold chooseFirst
        cases items.find? (Selection.isPrimary node.plan.partition) with
        | some element => rfl
        | none => cases items <;> cases node.fallback <;> rfl
  | each list =>
    unfold direct directEach choose
    simp only
    cases listItems folding.result list with
    | error e => rfl
    | ok items => cases items <;> rfl

theorem directAll_append (interpreter : Interpreter) (node : Node) (folding : Folding)
    (first second : List (Scope × Branch)) :
    directAll interpreter node folding (first ++ second) =
      directAll interpreter node folding first >>= fun folding =>
        directAll interpreter node folding second := by
  induction first generalizing folding with
  | nil => rfl
  | cons directive rest ih =>
    show (direct interpreter node folding directive >>= fun folding =>
      directAll interpreter node folding (rest ++ second)) =
        (direct interpreter node folding directive >>= fun folding =>
          directAll interpreter node folding rest) >>= fun folding =>
            directAll interpreter node folding second
    simp only [ih, bind_assoc]

theorem foldElements_append (interpreter : Interpreter) (node : Node) (branch : Branch)
    (attach : Attach) (result : StepResult) (first second : List Value) :
    foldElements interpreter node branch attach result (first ++ second) =
      foldElements interpreter node branch attach result first >>= fun out =>
        foldElements interpreter node branch attach out.1 second >>= fun more =>
          pure (more.1, out.2 ++ more.2) := by
  induction first generalizing result with
  | nil =>
    show foldElements interpreter node branch attach result second = _ >>= fun more => pure more
    rw [bind_pure]
  | cons element rest ih =>
    simp only [List.cons_append, foldElements, ih, bind_assoc, pure_bind]

theorem skipPending_descend (folding : Folding) (counters : List String) :
    (folding.descend counters).skipPending = false := by
  unfold Folding.descend
  split
  · rfl
  · rename_i h
    exact Bool.eq_false_iff.mpr h

inductive Folded (interpreter : Interpreter) (node : Node) (branch : Branch) (attach : Attach) :
    StepResult → List Value → History → List StepResult → StepResult → List Value → History → Prop
  | nil {result : StepResult} {history : History} :
      Folded interpreter node branch attach result [] history [] result [] history
  | default {result result' : StepResult} {element folded content : Value}
      {rest others : List Value} {history between after : History} {received : List StepResult} :
      defaultFor? branch.plan element = some content →
      integrateElement interpreter.host attach element (.ofContent content) history =
        .ok folded between →
      Folded interpreter node branch attach result rest between received result' others after →
      Folded interpreter node branch attach result (element :: rest) history received
        result' (folded :: others) after
  | child {result result' child : StepResult} {element folded : Value}
      {rest others : List Value} {history between later after : History}
      {received : List StepResult} :
      defaultFor? branch.plan element = none →
      runChild node branch element history = .ok child between →
      integrateElement interpreter.host attach element child between = .ok folded later →
      Folded interpreter node branch attach
        (result.addEffort child interpreter.settings.effortCounters) rest later received
        result' others after →
      Folded interpreter node branch attach result (element :: rest) history (child :: received)
        result' (folded :: others) after

inductive Carried (interpreter : Interpreter) (node : Node) (folding : Folding)
    (directive : Scope × Branch) (history : History) :
    List StepResult → Folding → History → Prop
  | passOver : choose node folding.result directive = .ok .passOver →
      Carried interpreter node folding directive history [] folding.passOver history
  | once {branch : Branch} {bound : Value} {child : StepResult} {attach : Attach}
      {fields : Fields} {between after : History} :
      choose node folding.result directive = .ok (.once branch bound) →
      runChild node branch bound history = .ok child between →
      branch.plan.attachDirective = .ok attach →
      integrate interpreter.host attach
        ((folding.descend interpreter.settings.pageCountFields).result.addEffort child
          interpreter.settings.effortCounters).fields child between = .ok fields after →
      Carried interpreter node folding directive history [child] ⟨⟨fields⟩, false⟩ after
  | nothing {attach : Attach} {fields : Fields} {after : History} :
      choose node folding.result directive = .ok .nothing →
      directive.2.plan.attachDirective = .ok attach →
      integrate interpreter.host attach folding.result.fields .empty history =
        .ok fields after →
      Carried interpreter node folding directive history [] ⟨⟨fields⟩, false⟩ after
  | each {list : String} {items others : List Value} {attach : Attach}
      {received : List StepResult} {result : StepResult} {after : History} :
      choose node folding.result directive = .ok (.each list items) →
      directive.2.plan.attachDirective = .ok attach →
      Folded interpreter node directive.2 attach
        (folding.descend interpreter.settings.pageCountFields).result items history received
        result others after →
      Carried interpreter node folding directive history received
        ⟨setList result list others, false⟩ after

inductive CarriedAll (interpreter : Interpreter) (node : Node) :
    Folding → List (Scope × Branch) → History → List StepResult → Folding → History → Prop
  | nil {folding : Folding} {history : History} :
      CarriedAll interpreter node folding [] history [] folding history
  | cons {folding folding' folding'' : Folding} {directive : Scope × Branch}
      {rest : List (Scope × Branch)} {history between after : History}
      {received others : List StepResult} :
      Carried interpreter node folding directive history received folding' between →
      CarriedAll interpreter node folding' rest between others folding'' after →
      CarriedAll interpreter node folding (directive :: rest) history (received ++ others)
        folding'' after

variable {interpreter : Interpreter} {node : Node}

theorem folded_of_ok {branch : Branch} {attach : Attach} {items others : List Value}
    {result result' : StepResult} {history after : History}
    (h : foldElements interpreter node branch attach result items history =
      .ok (result', others) after) :
    ∃ received, Folded interpreter node branch attach result items history received
      result' others after := by
  induction items generalizing result history others with
  | nil =>
    obtain ⟨he, rfl⟩ := Run.pure_ok_iff.mp h
    obtain ⟨rfl, rfl⟩ := Prod.mk.inj he
    exact ⟨[], .nil⟩
  | cons element rest ih =>
    unfold foldElements at h
    obtain ⟨⟨child, result₁⟩, between, hchild, h⟩ := Run.bind_ok_iff.mp h
    obtain ⟨folded, later, hfolded, h⟩ := Run.bind_ok_iff.mp h
    obtain ⟨⟨result₂, tail⟩, last, hrest, h⟩ := Run.bind_ok_iff.mp h
    obtain ⟨he, rfl⟩ := Run.pure_ok_iff.mp h
    obtain ⟨rfl, rfl⟩ := Prod.mk.inj he
    obtain ⟨received, hrest⟩ := ih hrest
    unfold elementResult at hchild
    cases hd : defaultFor? branch.plan element with
    | some content =>
      rw [hd] at hchild
      obtain ⟨he, rfl⟩ := Run.pure_ok_iff.mp hchild
      obtain ⟨rfl, rfl⟩ := Prod.mk.inj he
      exact ⟨received, .default hd hfolded hrest⟩
    | none =>
      rw [hd] at hchild
      obtain ⟨answer, middle, hrun, hchild⟩ := Run.bind_ok_iff.mp hchild
      obtain ⟨he, rfl⟩ := Run.pure_ok_iff.mp hchild
      obtain ⟨rfl, rfl⟩ := Prod.mk.inj he
      exact ⟨answer :: received, .child hd hrun hfolded hrest⟩

/-- Whatever a directive does when it succeeds, `Carried` tells. -/
theorem carried_of_ok {folding folding' : Folding} {directive : Scope × Branch}
    {history after : History}
    (h : direct interpreter node folding directive history = .ok folding' after) :
    ∃ received, Carried interpreter node folding directive history received folding' after := by
  rw [direct_eq] at h
  obtain ⟨choice, hchoice, h⟩ := Run.ofExcept_bind_ok_iff.mp h
  cases choice with
  | passOver =>
    obtain ⟨rfl, rfl⟩ := Run.pure_ok_iff.mp h
    exact ⟨[], .passOver hchoice⟩
  | once branch bound =>
    unfold act foldChild at h
    obtain ⟨child, between, hchild, h⟩ := Run.bind_ok_iff.mp h
    obtain ⟨attach, hattach, h⟩ := Run.ofExcept_bind_ok_iff.mp h
    obtain ⟨fields, last, hfields, h⟩ := Run.bind_ok_iff.mp h
    obtain ⟨rfl, rfl⟩ := Run.pure_ok_iff.mp h
    rw [skipPending_descend]
    exact ⟨[child], .once hchoice hchild hattach hfields⟩
  | nothing =>
    unfold act foldNothing at h
    obtain ⟨attach, hattach, h⟩ := Run.ofExcept_bind_ok_iff.mp h
    obtain ⟨fields, last, hfields, h⟩ := Run.bind_ok_iff.mp h
    obtain ⟨rfl, rfl⟩ := Run.pure_ok_iff.mp h
    exact ⟨[], .nothing hchoice hattach hfields⟩
  | each list items =>
    unfold act foldEach at h
    obtain ⟨attach, hattach, h⟩ := Run.ofExcept_bind_ok_iff.mp h
    obtain ⟨⟨result, others⟩, last, hfold, h⟩ := Run.bind_ok_iff.mp h
    obtain ⟨rfl, rfl⟩ := Run.pure_ok_iff.mp h
    obtain ⟨received, hfold⟩ := folded_of_ok hfold
    rw [skipPending_descend]
    exact ⟨received, .each hchoice hattach hfold⟩

theorem carriedAll_of_ok {folding folding' : Folding} {directives : List (Scope × Branch)}
    {history after : History}
    (h : directAll interpreter node folding directives history = .ok folding' after) :
    ∃ received, CarriedAll interpreter node folding directives history received folding' after := by
  induction directives generalizing folding history with
  | nil =>
    obtain ⟨rfl, rfl⟩ := Run.pure_ok_iff.mp h
    exact ⟨[], .nil⟩
  | cons directive rest ih =>
    obtain ⟨folding₁, between, hone, h⟩ := Run.bind_ok_iff.mp h
    obtain ⟨received, hone⟩ := carried_of_ok hone
    obtain ⟨others, hrest⟩ := ih h
    exact ⟨received ++ others, .cons hone hrest⟩

end Interpreter

end PlanFold
