import PlanFold.Proofs.IntegrationAlgebra
import PlanFold.Proofs.Milliseconds
import PlanFold.Proofs.Nodes

/-!
# Shifts without an answer

Subtracting a duration has an answer for every value but a timestamp, and for
a timestamp too unless the duration is boundless or leads to a day that the
clock of the timestamp cannot show. A run or the preparation of a step ends
without an answer only where a field of its plan subtracts such a duration;
every other failure is one of the errors a plan, a host or a value can cause.
-/

set_option autoImplicit false

namespace PlanFold

namespace Duration

/-- A timestamp has no place so many milliseconds earlier that its clock can show,
although the instant is one that timestamps have. -/
def LeavesClock (milliseconds : Int) (t : Timestamp) : Prop :=
  ∃ shifted, t.earlier? milliseconds = some shifted ∧ shifted.isShown = false

def Unanswered (d : Duration) (t : Timestamp) : Prop :=
  d.Boundless ∨ LeavesClock d.milliseconds t

theorem subtractFromText?_eq_none_iff (d : Duration) (text : String) :
    d.subtractFromText? text = none ↔
      ∃ t, Timestamp.ofText? text = some t ∧ d.Unanswered t := by
  unfold subtractFromText? Unanswered LeavesClock
  rw [← milliseconds_eq_leastSigned_iff]
  cases Timestamp.ofText? text with
  | none => simp
  | some t =>
    by_cases hleast : d.milliseconds = leastSigned
    · simp [hleast]
    · cases hshift : t.earlier? d.milliseconds with
      | none => simp [hleast, hshift]
      | some shifted => cases hshown : shifted.isShown <;> simp [hleast, hshift, hshown]

theorem subtractFrom?_eq_none_iff (d : Duration) (value : Value) :
    d.subtractFrom? value = none ↔
      ∃ text t, value = .string text ∧ Timestamp.ofText? text = some t ∧ d.Unanswered t := by
  cases value with
  | string text => simp [subtractFrom?, subtractFromText?_eq_none_iff]
  | _ => simp [subtractFrom?]

end Duration

def Unanswerable (text : String) : Prop :=
  ∃ d time t, Duration.ofText? text = some d ∧ Timestamp.ofText? time = some t ∧ d.Unanswered t

def Plan.Subtracts (plan : Plan) (text : String) : Prop :=
  ∃ reference, plan.Refers reference ∧ reference.minus = some text

def Refuses {α : Type} (E : PlanError → Prop) (x : Except PlanError α) : Prop :=
  ∀ e, x = .error e → E e

def Run.Fails {α : Type} (E : PlanError → Prop) (x : Run α) : Prop :=
  ∀ history e after, x history = .error e after → E e

section fails

variable {α β : Type} {E : PlanError → Prop}

theorem Refuses.bind {x : Except PlanError α} {f : α → Except PlanError β} (hx : Refuses E x)
    (hf : ∀ a, Refuses E (f a)) : Refuses E (x >>= f) := by
  cases x with
  | error e => exact fun e' h => hx e' (by simpa [Bind.bind, Except.bind] using h)
  | ok a => exact hf a

theorem refuses_ok (a : α) : Refuses E (.ok a : Except PlanError α) := by
  intro e h
  cases h

theorem refuses_error {e : PlanError} (h : E e) : Refuses E (.error e : Except PlanError α) := by
  rintro _ ⟨⟩
  exact h

namespace Run

theorem fails_pure (a : α) : Fails E (pure a : Run α) := by
  intro history e after h
  cases h

theorem fails_throw {e : PlanError} (h : E e) : Fails E (throw e : Run α) := by
  rintro history _ after ⟨⟩
  exact h

theorem fails_ofExcept {x : Except PlanError α} (h : Refuses E x) : Fails E (ofExcept x) := by
  cases x with
  | error e => exact fails_throw (h e rfl)
  | ok a => exact fails_pure a

theorem Fails.bind {x : Run α} {f : α → Run β} (hx : Fails E x) (hf : ∀ a, Fails E (f a)) :
    Fails E (x >>= f) := by
  intro history e after h
  rw [bind_run] at h
  cases hrun : x history with
  | ok a between =>
    rw [hrun] at h
    exact hf a between e after h
  | error e' between =>
    rw [hrun] at h
    cases h
    exact hx history _ _ hrun

theorem fails_call {c : Call} {answer : History → Except String α}
    (h : ∀ text, E (.host text)) : Fails E (call c answer) := by
  intro history e after hcall
  unfold call at hcall
  cases hanswer : answer history with
  | ok a =>
    rw [hanswer] at hcall
    cases hcall
  | error text =>
    rw [hanswer] at hcall
    cases hcall
    exact h text

theorem fails_callHook {hook : Option β} {c : Call} {answer : β → History → Except String α}
    {otherwise : α} (h : ∀ text, E (.host text)) : Fails E (callHook hook c answer otherwise) := by
  cases hook with
  | none => exact fails_pure otherwise
  | some f => exact fails_call h

end Run

end fails

def Blames (P : String → Prop) : PlanError → Prop
  | .unboundedShift text => P text
  | _ => True

section blames

variable {P : String → Prop}

theorem refuses_validate (plan : Plan) (state : State) (required : List String) :
    Refuses (Blames P) (plan.validate state required) := by
  have hbinding : Refuses (Blames P) plan.binding := by
    unfold Plan.binding
    split
    · exact refuses_ok _
    · exact refuses_error trivial
    · exact refuses_error trivial
  unfold Plan.validate
  split
  · exact refuses_error trivial
  · refine hbinding.bind fun binding => ?_
    split
    · exact refuses_error trivial
    · exact refuses_ok _

theorem refuses_mapError {α ε : Type} (x : Except ε α) {fault : ε → PlanError}
    (h : ∀ e, Blames P (fault e)) : Refuses (Blames P) (x.mapError fault) := by
  cases x with
  | error e => exact refuses_error (h e)
  | ok a => exact refuses_ok a

theorem refuses_checkRules (result : StepResult) (rules : List FailRule) :
    Refuses (Blames P) (result.checkRules rules) := by
  induction rules with
  | nil => exact refuses_ok ()
  | cons rule rest ih =>
    refine Refuses.bind ?_ fun _ => ih
    refine Refuses.bind (refuses_mapError _ fun _ => trivial) fun value => ?_
    split
    · exact refuses_error trivial
    · exact refuses_ok _

theorem refuses_attachDirective (plan : Plan) : Refuses (Blames P) plan.attachDirective := by
  unfold Plan.attachDirective
  split
  · exact refuses_mapError _ fun _ => trivial
  · exact refuses_ok _

theorem refuses_payload (attach : Attach) (source : StepResult) :
    Refuses (Blames P) (attach.payload source) := by
  have hnarrow : ∀ key value, Refuses (Blames P) (Attach.narrow key value) := by
    intro key value
    cases value <;> first | exact refuses_ok _ | exact refuses_error trivial
  have hprefix : ∀ start value, Refuses (Blames P) (Attach.prefixKeys start value) := by
    intro start value
    cases value <;> first | exact refuses_ok _ | exact refuses_error trivial
  unfold Attach.payload
  cases attach.fromKey with
  | none =>
    cases attach.keyPrefix with
    | none => exact (refuses_ok _).bind fun _ => refuses_ok _
    | some start => exact (refuses_ok _).bind fun _ => hprefix start _
  | some key =>
    cases attach.keyPrefix with
    | none => exact (hnarrow key _).bind fun _ => refuses_ok _
    | some start => exact (hnarrow key _).bind fun _ => hprefix start _

theorem refuses_check (mode : AttachMode) (target : Fields) (payload : Value) :
    Refuses (Blames P) (mode.check target payload) := by
  unfold AttachMode.check
  split
  · exact refuses_error trivial
  · split
    · exact refuses_error trivial
    · exact refuses_ok _

theorem refuses_land (attach : Attach) (target : Fields) (payload : Value) :
    Refuses (Blames P) (attach.land target payload) := by
  intro e h
  have hcheck := attach.check_eq_land target payload
  rw [h] at hcheck
  exact refuses_check _ _ _ e hcheck

theorem refuses_listItems (result : StepResult) (list : String) :
    Refuses (Blames P) (Interpreter.listItems result list) := by
  unfold Interpreter.listItems
  split <;> first | exact refuses_ok _ | exact refuses_error trivial

end blames

namespace Interpreter

variable {interpreter : Interpreter} {host : Host} {args : List Value} {P : String → Prop}

/-- Whatever a reference of a step fails in, an unbounded shift is due to its own
duration. -/
theorem fails_resolve (state : State) {reference : Reference}
    (h : ∀ text, reference.minus = some text → Unanswerable text → P text) :
    (resolve host state args reference).Fails (Blames P) := by
  have hcontainer : (container host state args reference.container).Fails (Blames P) := by
    refine (Run.fails_callHook fun _ => trivial).bind fun supplied => ?_
    split
    · exact Run.fails_pure _
    · exact Run.fails_pure _
    · exact Run.fails_throw trivial
  have hread : ∀ found, Refuses (Blames P) (readAttribute reference found) := by
    intro found
    unfold readAttribute
    split
    · exact refuses_ok _
    · exact refuses_error trivial
  have hadjust : ∀ value, Refuses (Blames P) (adjust reference.minus value) := by
    intro value
    unfold adjust
    split
    · exact refuses_ok _
    · rename_i text hminus
      split
      · exact refuses_error trivial
      · rename_i d hd
        split
        · exact refuses_ok _
        · rename_i hnone
          obtain ⟨time, t, _, hat, hunanswered⟩ := (d.subtractFrom?_eq_none_iff value).mp hnone
          exact refuses_error (h text hminus ⟨d, time, t, hd, hat, hunanswered⟩)
  refine hcontainer.bind fun found => ?_
  refine (Run.fails_ofExcept (hread found)).bind fun value => ?_
  exact Run.fails_ofExcept (hadjust value)

theorem fails_resolveFields (state : State) {fields : Fields}
    (h : ∀ name value reference text, (name, value) ∈ fields → isStructural name = false →
      Reference.ofValue value = .ok (some reference) → reference.minus = some text →
      Unanswerable text → P text) :
    (resolveFields host state args fields).Fails (Blames P) := by
  induction fields with
  | nil => exact Run.fails_pure _
  | cons field rest ih =>
    obtain ⟨name, value⟩ := field
    have hfield : (resolveField host state args name value).Fails (Blames P) := by
      unfold resolveField
      split
      · exact Run.fails_pure _
      · rename_i hstructural
        split
        · exact Run.fails_throw trivial
        · exact Run.fails_pure _
        · rename_i reference href
          exact fails_resolve state fun text hminus =>
            h name value reference text (by simp) (by simpa using hstructural) href hminus
    refine hfield.bind fun resolved => ?_
    refine (ih ?_).bind fun others => Run.fails_pure _
    intro name value reference text hmem
    exact h name value reference text (by simp [hmem])

theorem fails_prepare (plan : Plan) (state : State)
    (h : ∀ text, plan.Subtracts text → Unanswerable text → P text) :
    (prepare host plan state args).Fails (Blames P) := by
  refine (fails_resolveFields state ?_).bind fun fields => Run.fails_callHook fun _ => trivial
  intro name value reference text hmem hstructural href hminus
  exact h text ⟨reference, ⟨name, value, hmem, hstructural, href⟩, hminus⟩

theorem fails_integrate (attach : Attach) (target : Fields) (source : StepResult) :
    (integrate host attach target source).Fails (Blames P) := by
  unfold integrate
  split
  · exact Run.fails_pure _
  · refine (Run.fails_ofExcept (refuses_payload _ _)).bind fun payload => ?_
    refine (Run.fails_ofExcept (refuses_check _ _ _)).bind fun _ => ?_
    refine (Run.fails_callHook fun _ => trivial).bind fun target => ?_
    exact Run.fails_ofExcept (refuses_land _ _ _)

variable {node : Node}

theorem fails_runChild {branch : Branch} (h : ∀ state, (branch.run state).Fails (Blames P))
    (bound : Value) : (runChild node branch bound).Fails (Blames P) := by
  refine (Run.fails_callHook fun _ => trivial).bind fun computed => ?_
  split
  · exact Run.fails_pure _
  · exact h _

theorem fails_foldElements {branch : Branch}
    (h : ∀ state, (branch.run state).Fails (Blames P)) (attach : Attach) (result : StepResult)
    (items : List Value) :
    (foldElements interpreter node branch attach result items).Fails (Blames P) := by
  have helement : ∀ result element,
      (elementResult interpreter node branch result element).Fails (Blames P) := by
    intro result element
    unfold elementResult
    split
    · exact Run.fails_pure _
    · exact (fails_runChild h element).bind fun _ => Run.fails_pure _
  have hintegrate : ∀ element child,
      (integrateElement interpreter.host attach element child).Fails (Blames P) := by
    intro element child
    unfold integrateElement
    split
    · exact (fails_integrate _ _ _).bind fun _ => Run.fails_pure _
    · split
      · exact Run.fails_pure _
      · exact Run.fails_throw trivial
  induction items generalizing result with
  | nil => exact Run.fails_pure _
  | cons element rest ih =>
    refine (helement result element).bind fun answer => ?_
    refine (hintegrate element answer.1).bind fun folded => ?_
    exact (ih answer.2).bind fun _ => Run.fails_pure _

theorem fails_foldChild {branch : Branch} (h : ∀ state, (branch.run state).Fails (Blames P))
    (folding : Folding) (bound : Value) :
    (foldChild interpreter node folding branch bound).Fails (Blames P) := by
  refine (fails_runChild h bound).bind fun child => ?_
  refine (Run.fails_ofExcept (refuses_attachDirective _)).bind fun attach => ?_
  exact (fails_integrate _ _ _).bind fun _ => Run.fails_pure _

theorem fails_direct (folding : Folding) {directive : Scope × Branch}
    (h : ∀ state, (directive.2.run state).Fails (Blames P))
    (hfallback : ∀ branch, node.fallback = some branch →
      ∀ state, (branch.run state).Fails (Blames P)) :
    (direct interpreter node folding directive).Fails (Blames P) := by
  have hitems : ∀ list, (Run.ofExcept (listItems folding.result list)).Fails (Blames P) :=
    fun list => Run.fails_ofExcept (refuses_listItems _ list)
  have hattach : (Run.ofExcept directive.2.plan.attachDirective).Fails (Blames P) :=
    Run.fails_ofExcept (refuses_attachDirective _)
  unfold direct
  cases directive.1 with
  | this =>
    show (directThis interpreter node folding directive.2).Fails (Blames P)
    unfold directThis
    split
    · exact Run.fails_pure _
    · exact fails_foldChild h _ _
  | first list =>
    refine (hitems list).bind fun items => ?_
    cases items with
    | none => exact Run.fails_pure _
    | some items =>
      dsimp only
      split
      · exact fails_foldChild h _ _
      · exact fails_foldChild (hfallback _ ‹_›) _ _
      · exact Run.fails_pure _
      · exact hattach.bind fun attach => (fails_integrate _ _ _).bind fun _ => Run.fails_pure _
  | each list =>
    refine (hitems list).bind fun items => ?_
    cases items with
    | none => exact Run.fails_pure _
    | some items =>
      refine hattach.bind fun attach => ?_
      exact (fails_foldElements h attach _ items).bind fun _ => Run.fails_pure _

theorem fails_fanOut {directives : List (Scope × Branch)}
    (h : ∀ directive ∈ directives, ∀ state, (directive.2.run state).Fails (Blames P))
    (hfallback : ∀ branch, node.fallback = some branch →
      ∀ state, (branch.run state).Fails (Blames P)) :
    (fanOut interpreter node directives).Fails (Blames P) := by
  have hall : ∀ folding, (directAll interpreter node folding directives).Fails (Blames P) := by
    induction directives with
    | nil => exact fun folding => Run.fails_pure _
    | cons directive rest ih =>
      intro folding
      refine (fails_direct folding (h directive (by simp)) hfallback).bind fun folding' => ?_
      exact ih (fun other ho => h other (by simp [ho])) folding'
  exact (hall _).bind fun folding => Run.fails_pure _

theorem fails_runPlan (plan : Plan) :
    (∀ node text, plan.Has node → node.Subtracts text → Unanswerable text → P text) →
      ∀ state, (runPlan interpreter args plan state).Fails (Blames P) := by
  induction plan using Plan.induction with
  | h plan hchildren hfallback =>
    intro h state
    have hstep : (runStep interpreter plan state args).Fails (Blames P) := by
      refine (fails_prepare plan state fun text => h plan text (.self plan)).bind fun step => ?_
      refine (Run.fails_call fun _ => trivial).bind fun raw => ?_
      refine (Run.fails_ofExcept (refuses_checkRules _ _)).bind fun _ => ?_
      exact Run.fails_callHook fun _ => trivial
    rw [runPlan_eq]
    refine (Run.fails_ofExcept (refuses_validate _ _ _)).bind fun binding => ?_
    refine hstep.bind fun own => fails_fanOut ?_ ?_
    · intro directive hdirective
      obtain ⟨child, hchild, hbranch⟩ := mem_branches hdirective
      rw [hbranch]
      exact hchildren child hchild fun node text hnode => h node text (.child hchild hnode)
    · intro branch hbranch
      obtain ⟨other, hplan, rfl⟩ := fallbackBranch_some hbranch
      exact hfallback other hplan fun node text hnode => h node text (.fallback hplan hnode)

/-- Subtraction has no answer exactly for a timestamp and a duration that is boundless
or leads where the clock of the timestamp shows nothing; and when preparing a step or
running a tree ends so, a field of the step or of a node in the tree subtracts such a
duration. -/
theorem runPlan_unboundedShift (plan : Plan) (state : State) (history : History) :
    (∀ d value, Duration.subtractFrom? d value = none ↔
      ∃ time t, value = .string time ∧ Timestamp.ofText? time = some t ∧ d.Unanswered t) ∧
    (∀ text after,
      prepare interpreter.host plan state args history = .error (.unboundedShift text) after →
      plan.Subtracts text ∧ Unanswerable text) ∧
    ∀ text after,
      runPlan interpreter args plan state history = .error (.unboundedShift text) after →
      ∃ node, plan.Has node ∧ node.Subtracts text ∧ Unanswerable text := by
  refine ⟨Duration.subtractFrom?_eq_none_iff, ?_, ?_⟩
  · intro text after h
    exact fails_prepare (P := fun text => plan.Subtracts text ∧ Unanswerable text) plan state
      (fun text hsubtracts hunanswerable => ⟨hsubtracts, hunanswerable⟩) _ _ _ h
  · intro text after h
    exact fails_runPlan (P := fun text => ∃ node, plan.Has node ∧ node.Subtracts text ∧
      Unanswerable text) plan (fun node text hnode hsubtracts hunanswerable =>
        ⟨node, hnode, hsubtracts, hunanswerable⟩) state _ _ _ h

/-- A duration is read and subtracted from a timestamp by a plan in due form, and there
is no answer: the run fails without an error of its own. -/
theorem runPlan_unboundedShift_forward :
    let text := "-PT9223372036854776S"
    let time := "2024-03-01T10:00:00Z"
    let d : Duration :=
      ⟨.finite ⟨true, Duration.boundlessSeconds * Numeric.unitsInOne, by decide +kernel⟩⟩
    let plan := ((Plan.named "poll").attach .detached).field "since"
      (.mapping [("ref", .string "cake.updated_at"), ("minus", .string text)])
    let state := State.empty.bind "cake" (.mapping [("updated_at", .string time)])
    let interpreter : Interpreter := ⟨.scripted [], .standard⟩
    Duration.ofText? text = some d ∧ (Timestamp.ofText? time).isSome = true ∧
      d.subtractFrom? (.string time) = none ∧
      prepare interpreter.host plan state [] [] = .error (.unboundedShift text) [] ∧
      runPlan interpreter [] plan state [] = .error (.unboundedShift text) [] := by
  intro text time d plan state interpreter
  have hduration : Duration.ofText? text = some d := by decide +kernel
  have htime : (Timestamp.ofText? time).isSome = true := by decide +kernel
  have hnone : d.subtractFrom? (.string time) = none := by
    obtain ⟨t, ht⟩ := Option.isSome_iff_exists.mp htime
    exact (d.subtractFrom?_eq_none_iff _).mpr ⟨time, t, rfl, ht, .inl (.inr ⟨_, rfl, le_refl _⟩)⟩
  have hadjust : adjust (some text) (.string time) = .error (.unboundedShift text) := by
    unfold adjust
    simp only [hduration, hnone]
  have hfield : ∀ history, resolveField interpreter.host state [] "since"
      (.mapping [("ref", .string "cake.updated_at"), ("minus", .string text)]) history =
      .error (.unboundedShift text) history := by
    intro history
    show Run.ofExcept (adjust (some text) (.string time)) history = _
    rw [hadjust]
    rfl
  have hplain : ∀ name value history, isStructural name = true →
      resolveField interpreter.host state [] name value history = .ok value history := by
    intro name value history hstructural
    unfold resolveField
    rw [if_pos hstructural]
    rfl
  have hfields : plan.fields = [("as", .string "poll"), ("attach", .bool false), ("since",
      .mapping [("ref", .string "cake.updated_at"), ("minus", .string text)])] := rfl
  have hprepare : prepare interpreter.host plan state [] [] = .error (.unboundedShift text) [] := by
    unfold prepare
    simp only [hfields, resolveFields, Run.bind_run, hfield, hplain _ _ _ (by decide :
      isStructural "as" = true), hplain _ _ _ (by decide : isStructural "attach" = true)]
  refine ⟨hduration, htime, hnone, hprepare, ?_⟩
  rw [runPlan_eq]
  show ((prepare interpreter.host plan state [] >>= _) >>= _) [] = _
  rw [Run.bind_run, Run.bind_run, hprepare]

end Interpreter

end PlanFold
