import PlanFold.Proofs.StepCalls

/-!
# Checks on the nodes of a run

A node may run its step once its plan is complete, its binding name is new and
its references resolve. It may go on once the answer of the host has passed the
rules of its plan. A node that breaks one of these ends the run with the error
of what it breaks, and everything else the run has entered by then is above it
or was left before.
-/

set_option autoImplicit false

namespace PlanFold

namespace StepResult

def Passes (result : StepResult) (rules : List FailRule) : Prop :=
  ∀ rule ∈ rules, ∃ value,
    result.lookup rule.path = .ok value ∧ rule.predicate.holds value = false

inductive Violates (result : StepResult) (rule : FailRule) : PlanError → Prop
  | absent {e : PlanError} : result.lookup rule.path = .error e → Violates result rule e
  | holds {value : Value} : result.lookup rule.path = .ok value →
      rule.predicate.holds value = true →
      Violates result rule (.validation rule.path value rule.predicate.name)

variable {result : StepResult} {rule : FailRule} {rules : List FailRule} {e : PlanError}

theorem checkRule_of_lookup {value : Value} (h : result.lookup rule.path = .ok value) :
    result.checkRule rule = if rule.predicate.holds value = true then
      .error (.validation rule.path value rule.predicate.name) else .ok () := by
  unfold checkRule
  rw [h]
  rfl

theorem checkRule_of_absent (h : result.lookup rule.path = .error e) :
    result.checkRule rule = .error e := by
  unfold checkRule
  rw [h]
  rfl

theorem checkRule_ok_iff : result.checkRule rule = .ok () ↔
    ∃ value, result.lookup rule.path = .ok value ∧ rule.predicate.holds value = false := by
  cases hlookup : result.lookup rule.path with
  | error e => simp [checkRule_of_absent hlookup]
  | ok value => simp [checkRule_of_lookup hlookup]

theorem checkRule_error_iff : result.checkRule rule = .error e ↔ result.Violates rule e := by
  constructor
  · intro h
    cases hlookup : result.lookup rule.path with
    | error e' =>
      rw [checkRule_of_absent hlookup] at h
      cases h
      exact .absent hlookup
    | ok value =>
      rw [checkRule_of_lookup hlookup] at h
      cases hholds : rule.predicate.holds value with
      | false => simp [hholds] at h
      | true =>
        rw [if_pos hholds] at h
        cases h
        exact .holds hlookup hholds
  · intro h
    cases h with
    | absent hlookup => exact checkRule_of_absent hlookup
    | holds hlookup hholds => rw [checkRule_of_lookup hlookup, if_pos hholds]

theorem Violates.not_passes (h : result.Violates rule e) (hmem : rule ∈ rules) :
    ¬result.Passes rules := by
  intro hpasses
  have hok := checkRule_ok_iff.mpr (hpasses rule hmem)
  rw [checkRule_error_iff.mpr h] at hok
  cases hok

theorem checkRules_ok_iff : result.checkRules rules = .ok () ↔ result.Passes rules := by
  induction rules with
  | nil => simp [checkRules, Passes]
  | cons rule rest ih =>
    unfold checkRules
    cases hrule : result.checkRule rule with
    | error e =>
      have hno : ¬result.Passes (rule :: rest) :=
        (checkRule_error_iff.mp hrule).not_passes (by simp)
      simpa [bind, Except.bind] using hno
    | ok done =>
      have hfirst := checkRule_ok_iff.mp hrule
      simp only [bind, Except.bind, ih]
      simp [Passes, hfirst]

/-- The first broken rule decides. -/
theorem checkRules_error_iff : result.checkRules rules = .error e ↔
    ∃ before rule rest, rules = before ++ rule :: rest ∧ result.Passes before ∧
      result.Violates rule e := by
  constructor
  · intro h
    induction rules with
    | nil => cases h
    | cons rule rest ih =>
      unfold checkRules at h
      cases hrule : result.checkRule rule with
      | error e' =>
        rw [hrule] at h
        cases h
        exact ⟨[], rule, rest, rfl, by simp [Passes], checkRule_error_iff.mp hrule⟩
      | ok done =>
        rw [hrule] at h
        obtain ⟨before, broken, others, rfl, hbefore, hbroken⟩ := ih h
        refine ⟨rule :: before, broken, others, rfl, ?_, hbroken⟩
        intro other hother
        rcases List.mem_cons.mp hother with rfl | hrest
        · exact checkRule_ok_iff.mp hrule
        · exact hbefore other hrest
  · rintro ⟨before, rule, rest, rfl, hbefore, hbroken⟩
    induction before with
    | nil =>
      show (result.checkRule rule >>= fun _ => result.checkRules rest) = _
      rw [checkRule_error_iff.mpr hbroken]
      rfl
    | cons first others ih =>
      show (result.checkRule first >>= fun _ => result.checkRules (others ++ rule :: rest)) = _
      rw [checkRule_ok_iff.mpr (hbefore first (by simp))]
      exact ih fun other hother => hbefore other (by simp [hother])

end StepResult

namespace Plan

variable {plan : Plan} {state : State} {required : List String} {name : String}

def Complete (plan : Plan) (required : List String) : Prop :=
  ∀ field ∈ required, plan.fields.contains field = true

theorem lacking?_eq_none_iff : plan.lacking? required = none ↔ plan.Complete required := by
  simp [lacking?, Complete]

theorem validate_of_complete (h : plan.Complete required) :
    plan.validate state required = plan.binding.bind fun name =>
      if state.contains name = true then .error (.duplicateBinding name) else .ok name := by
  unfold validate
  rw [lacking?_eq_none_iff.mpr h]
  rfl

theorem validate_ok_iff : plan.validate state required = .ok name ↔
    plan.Complete required ∧ plan.get? "as" = some (.string name) ∧
      state.contains name = false := by
  constructor
  · intro h
    obtain ⟨hbinding, hnew⟩ := validate_ok h
    refine ⟨?_, ?_, hnew⟩
    · apply lacking?_eq_none_iff.mp
      unfold validate at h
      split at h
      · cases h
      · assumption
    · unfold binding at hbinding
      split at hbinding
      · cases hbinding
        assumption
      · cases hbinding
      · cases hbinding
  · rintro ⟨hcomplete, hname, hnew⟩
    rw [validate_of_complete hcomplete, binding, hname]
    simp [Except.bind, hnew]

end Plan

namespace Interpreter

variable {host : Host} {state : State} {args : List Value} {history : History}

def ReferenceShaped (name : String) (value : Value) : Prop :=
  isStructural name = false ∧
    ∃ descriptor, value = .mapping descriptor ∧ Fields.contains "ref" descriptor = true

def Resolves (host : Host) (state : State) (args : List Value) (value : Value)
    (history : History) : Prop :=
  ∃ reference found item resolved later,
    Reference.ofValue value = .ok (some reference) ∧
      container host state args reference.container history = .ok found later ∧
      reference.member.bind found.field? = some item ∧
      adjust reference.minus item = .ok resolved

theorem ReferenceShaped.ne_none {name : String} {value : Value} (h : ReferenceShaped name value) :
    Reference.ofValue value ≠ .ok none := by
  obtain ⟨_, descriptor, rfl, hcontains⟩ := h
  obtain ⟨target, htarget⟩ := Option.isSome_iff_exists.mp hcontains
  simp only [Reference.ofValue, htarget]
  cases Reference.ofDescriptor target descriptor <;> simp [Except.map]

theorem resolveField_of_not_shaped {name : String} {value : Value}
    (h : ¬ReferenceShaped name value) : resolveField host state args name value = pure value := by
  unfold resolveField
  cases hstructural : isStructural name with
  | true => rfl
  | false =>
    rw [if_neg Bool.false_ne_true]
    have hnone : Reference.ofValue value = .ok none := by
      unfold Reference.ofValue
      split
      · rename_i descriptor
        cases htarget : Fields.get? "ref" descriptor with
        | none => rfl
        | some target =>
          refine absurd ⟨hstructural, descriptor, rfl, ?_⟩ h
          exact Option.isSome_iff_exists.mpr ⟨target, htarget⟩
      · rfl
    rw [hnone]

theorem shaped_of_error {name : String} {value : Value} {e : PlanError} {after : History}
    (h : resolveField host state args name value history = .error e after) :
    ReferenceShaped name value := by
  by_contra hno
  rw [resolveField_of_not_shaped hno] at h
  cases h

theorem readAttribute_ok_iff {reference : Reference} {found item : Value} :
    readAttribute reference found = .ok item ↔ reference.member.bind found.field? = some item := by
  unfold readAttribute
  cases reference.member.bind found.field? <;> simp

theorem resolveField_of_reference {name : String} {value : Value} {reference : Reference}
    (hfield : isStructural name = false)
    (hreference : Reference.ofValue value = .ok (some reference)) :
    resolveField host state args name value = resolve host state args reference := by
  unfold resolveField
  rw [hfield, if_neg Bool.false_ne_true, hreference]

theorem resolves_iff {name : String} {value : Value} (h : ReferenceShaped name value) :
    Resolves host state args value history ↔
      ∃ resolved later, resolveField host state args name value history = .ok resolved later := by
  constructor
  · rintro ⟨reference, found, item, resolved, later, hreference, hfound, hitem, hresolved⟩
    refine ⟨resolved, later, ?_⟩
    rw [resolveField_of_reference h.1 hreference]
    refine Run.bind_ok_iff.mpr ⟨found, later, hfound, ?_⟩
    refine Run.ofExcept_bind_ok_iff.mpr ⟨item, readAttribute_ok_iff.mpr hitem, ?_⟩
    exact Run.ofExcept_ok_iff.mpr ⟨hresolved, rfl⟩
  · rintro ⟨resolved, later, hresolved⟩
    cases hreference : Reference.ofValue value with
    | error fault =>
      unfold resolveField at hresolved
      rw [h.1, if_neg Bool.false_ne_true, hreference] at hresolved
      cases hresolved
    | ok shape =>
      cases shape with
      | none => exact absurd hreference h.ne_none
      | some reference =>
        rw [resolveField_of_reference h.1 hreference] at hresolved
        obtain ⟨found, between, hfound, hresolved⟩ := Run.bind_ok_iff.mp hresolved
        obtain ⟨item, hitem, hresolved⟩ := Run.ofExcept_bind_ok_iff.mp hresolved
        obtain ⟨hadjusted, _⟩ := Run.ofExcept_ok_iff.mp hresolved
        exact ⟨reference, found, item, resolved, between, hreference, hfound,
          readAttribute_ok_iff.mp hitem, hadjusted⟩

theorem resolveFields_append (host : Host) (state : State) (args : List Value)
    (first second : Fields) : resolveFields host state args (first ++ second) =
      resolveFields host state args first >>= fun resolved =>
        resolveFields host state args second >>= fun others => pure (resolved ++ others) := by
  induction first with
  | nil =>
    show resolveFields host state args second = _ >>= fun others => pure others
    rw [bind_pure]
  | cons field rest ih =>
    simp only [List.cons_append, resolveFields, ih, bind_assoc, pure_bind]

theorem resolveField_of_resolveFields {before rest fields : Fields} {name : String}
    {value : Value} {after : History}
    (h : resolveFields host state args (before ++ (name, value) :: rest) history =
      .ok fields after) :
    ∃ others between resolved later,
      resolveFields host state args before history = .ok others between ∧
        resolveField host state args name value between = .ok resolved later := by
  rw [resolveFields_append] at h
  obtain ⟨others, between, hbefore, h⟩ := Run.bind_ok_iff.mp h
  obtain ⟨_, _, hfield, _⟩ := Run.bind_ok_iff.mp h
  obtain ⟨resolved, later, hresolved, _⟩ := Run.bind_ok_iff.mp hfield
  exact ⟨others, between, resolved, later, hbefore, hresolved⟩

theorem resolveFields_of_error {before rest others : Fields} {name : String} {value : Value}
    {between after : History} {e : PlanError}
    (hbefore : resolveFields host state args before history = .ok others between)
    (hfield : resolveField host state args name value between = .error e after) :
    resolveFields host state args (before ++ (name, value) :: rest) history = .error e after := by
  rw [resolveFields_append, Run.bind_run, hbefore]
  simp only [resolveFields, Run.bind_run, hfield]

theorem exists_unresolved {fields : Fields} {e : PlanError} {after : History}
    (h : resolveFields host state args fields history = .error e after) :
    ∃ before name value rest others between,
      fields = before ++ (name, value) :: rest ∧
        resolveFields host state args before history = .ok others between ∧
        resolveField host state args name value between = .error e after := by
  induction fields generalizing history with
  | nil => cases h
  | cons field rest ih =>
    rw [resolveFields, Run.bind_run] at h
    cases hfirst : resolveField host state args field.1 field.2 history with
    | error e' after' =>
      rw [hfirst] at h
      cases h
      exact ⟨[], field.1, field.2, rest, [], history, rfl, rfl, hfirst⟩
    | ok resolved between =>
      rw [hfirst] at h
      dsimp only at h
      rw [Run.bind_run] at h
      cases hrest : resolveFields host state args rest between with
      | ok others later =>
        rw [hrest] at h
        cases h
      | error e' later =>
        rw [hrest] at h
        cases h
        obtain ⟨before, name, value, more, others, middle, rfl, hbefore, hfield⟩ := ih hrest
        refine ⟨field :: before, name, value, more, (field.1, resolved) :: others, middle,
          rfl, ?_, hfield⟩
        refine Run.bind_ok_iff.mpr ⟨resolved, between, hfirst, ?_⟩
        exact Run.bind_ok_iff.mpr ⟨others, middle, hbefore, rfl⟩

/-- A node may run its step: its plan is complete, its binding is a new name, and each of
its references resolves where it is reached. -/
structure Ready (interpreter : Interpreter) (args : List Value) (entry : Entry) : Prop where
  complete : entry.plan.Complete interpreter.settings.requiredFields
  named : ∃ name, entry.plan.get? "as" = some (.string name) ∧ entry.state.contains name = false
  resolved : ∀ before name value rest, entry.plan.fields = before ++ (name, value) :: rest →
    ReferenceShaped name value → ∃ others between,
      resolveFields interpreter.host entry.state args before entry.history = .ok others between ∧
        Resolves interpreter.host entry.state args value between

/-- A node breaks a check, and this is the error of the first one that it breaks. -/
inductive Breaks (interpreter : Interpreter) (args : List Value) (entry : Entry) :
    PlanError → Prop
  | lacking {before rest : List String} {field : String} :
      interpreter.settings.requiredFields = before ++ field :: rest →
      entry.plan.Complete before → entry.plan.fields.contains field = false →
      Breaks interpreter args entry (.missingField field)
  | unnamed : entry.plan.Complete interpreter.settings.requiredFields →
      entry.plan.get? "as" = none → Breaks interpreter args entry (.missingField "as")
  | misnamed {value : Value} : entry.plan.Complete interpreter.settings.requiredFields →
      entry.plan.get? "as" = some value → (∀ name, value ≠ .string name) →
      Breaks interpreter args entry (.invalidBinding value)
  | bound {name : String} : entry.plan.Complete interpreter.settings.requiredFields →
      entry.plan.get? "as" = some (.string name) → entry.state.contains name = true →
      Breaks interpreter args entry (.duplicateBinding name)
  | unresolved {before rest others : Fields} {name binding : String} {value : Value}
      {between later : History} {e : PlanError} :
      entry.plan.validate entry.state interpreter.settings.requiredFields = .ok binding →
      entry.plan.fields = before ++ (name, value) :: rest → ReferenceShaped name value →
      resolveFields interpreter.host entry.state args before entry.history = .ok others between →
      resolveField interpreter.host entry.state args name value between = .error e later →
      Breaks interpreter args entry e
  | rule {raw : StepResult} {before rest : List FailRule} {rule : FailRule} {later : History}
      {e : PlanError} :
      Ready interpreter args entry →
      execute interpreter entry.plan entry.state args entry.history = .ok raw later →
      entry.plan.failRules = before ++ rule :: rest → raw.Passes before → raw.Violates rule e →
      Breaks interpreter args entry e

variable {interpreter : Interpreter} {entry : Entry}

theorem ready_iff : Ready interpreter args entry ↔ ∃ name fields later,
    entry.plan.validate entry.state interpreter.settings.requiredFields = .ok name ∧
      resolveFields interpreter.host entry.state args entry.plan.fields entry.history =
        .ok fields later := by
  constructor
  · rintro ⟨hcomplete, ⟨name, hname, hnew⟩, hresolved⟩
    have hvalid := Plan.validate_ok_iff.mpr ⟨hcomplete, hname, hnew⟩
    cases hfields : resolveFields interpreter.host entry.state args entry.plan.fields
        entry.history with
    | ok fields later => exact ⟨name, fields, later, hvalid, rfl⟩
    | error e after =>
      obtain ⟨before, field, value, rest, others, between, hsplit, hbefore, hfield⟩ :=
        exists_unresolved hfields
      have hshaped := shaped_of_error hfield
      obtain ⟨others', between', hbefore', hresolves⟩ := hresolved _ _ _ _ hsplit hshaped
      rw [hbefore] at hbefore'
      cases hbefore'
      obtain ⟨resolved, later, hok⟩ := (resolves_iff hshaped).mp hresolves
      rw [hfield] at hok
      cases hok
  · rintro ⟨name, fields, later, hvalid, hfields⟩
    obtain ⟨hcomplete, hname, hnew⟩ := Plan.validate_ok_iff.mp hvalid
    refine ⟨hcomplete, ⟨name, hname, hnew⟩, ?_⟩
    intro before field value rest hsplit hshaped
    rw [hsplit] at hfields
    obtain ⟨others, between, resolved, last, hbefore, hresolved⟩ :=
      resolveField_of_resolveFields hfields
    exact ⟨others, between, hbefore, (resolves_iff hshaped).mpr ⟨resolved, last, hresolved⟩⟩

theorem exists_breaks_of_valid {binding : String}
    (hvalid : entry.plan.validate entry.state interpreter.settings.requiredFields = .ok binding)
    (h : ¬Ready interpreter args entry) : ∃ e, Breaks interpreter args entry e := by
  cases hfields : resolveFields interpreter.host entry.state args entry.plan.fields
      entry.history with
  | ok fields later => exact absurd (ready_iff.mpr ⟨binding, fields, later, hvalid, hfields⟩) h
  | error e after =>
    obtain ⟨before, field, value, rest, others, between, hsplit, hbefore, hfield⟩ :=
      exists_unresolved hfields
    exact ⟨e, .unresolved hvalid hsplit (shaped_of_error hfield) hbefore hfield⟩

theorem exists_breaks_of_not_ready (h : ¬Ready interpreter args entry) :
    ∃ e, Breaks interpreter args entry e := by
  cases hlacking : entry.plan.lacking? interpreter.settings.requiredFields with
  | some field =>
    obtain ⟨hfield, before, rest, hsplit, hbefore⟩ := List.find?_eq_some_iff_append.mp hlacking
    refine ⟨_, .lacking hsplit ?_ (by simpa using hfield)⟩
    intro earlier hearlier
    simpa using hbefore earlier hearlier
  | none =>
    have hcomplete := Plan.lacking?_eq_none_iff.mp hlacking
    cases hname : entry.plan.get? "as" with
    | none => exact ⟨_, .unnamed hcomplete hname⟩
    | some value =>
      by_cases htext : ∃ name, value = .string name
      · obtain ⟨name, rfl⟩ := htext
        cases hnew : entry.state.contains name with
        | true => exact ⟨_, .bound hcomplete hname hnew⟩
        | false =>
          exact exists_breaks_of_valid (Plan.validate_ok_iff.mpr ⟨hcomplete, hname, hnew⟩) h
      · exact ⟨_, .misnamed hcomplete hname fun name heq => htext ⟨name, heq⟩⟩

theorem exists_breaks_of_not_passes {raw : StepResult} {later : History}
    (hready : Ready interpreter args entry)
    (hraw : execute interpreter entry.plan entry.state args entry.history = .ok raw later)
    (h : ¬raw.Passes entry.plan.failRules) : ∃ e, Breaks interpreter args entry e := by
  cases hrules : raw.checkRules entry.plan.failRules with
  | ok done => exact absurd (StepResult.checkRules_ok_iff.mp hrules) h
  | error e =>
    obtain ⟨before, rule, rest, hsplit, hbefore, hrule⟩ :=
      StepResult.checkRules_error_iff.mp hrules
    exact ⟨e, .rule hready hraw hsplit hbefore hrule⟩

theorem exists_rest (args : List Value) {binding : String}
    (h : entry.plan.validate entry.state interpreter.settings.requiredFields = .ok binding) :
    ∃ rest : Step → StepResult → Run StepResult, (∀ step raw, (rest step raw).Grows) ∧
      entry.run interpreter args =
        prepare interpreter.host entry.plan entry.state args >>= fun step =>
          Run.call (.run step args) (fun earlier => interpreter.host.run earlier step args) >>=
            fun raw => Run.ofExcept (raw.checkRules entry.plan.failRules) >>= fun _ =>
              rest step raw := by
  refine ⟨fun step raw =>
    Run.callHook interpreter.host.post (.post step (overridePageCount step raw))
      (fun post earlier => post earlier step (overridePageCount step raw))
      (overridePageCount step raw) >>= fun own =>
    fanOut interpreter (nodeOf interpreter args entry.plan entry.state binding own)
      (branches interpreter args entry.plan.children), ?_, ?_⟩
  · intro step raw
    apply Run.Grows.bind
    · exact Run.grows_of_says fun history => ⟨_, Run.says_callHook _ _ _ _ history⟩
    · intro own
      apply (grows_directAll (fun _ => spoken_branches) (fun _ => spoken_fallback) _).bind
      intro folding
      exact Run.grows_pure _
  · unfold Entry.run
    rw [runPlan_eq, runNode, h]
    simp only [Run.ofExcept, runStep, bind_assoc, pure_bind]
    rfl

theorem run_of_invalid {e : PlanError}
    (h : entry.plan.validate entry.state interpreter.settings.requiredFields = .error e) :
    entry.run interpreter args entry.history = .error e entry.history := by
  unfold Entry.run
  rw [runPlan_eq, runNode, h]
  rfl

/-- A node that breaks a check ends with its error. -/
theorem Breaks.run {e : PlanError} (h : Breaks interpreter args entry e) :
    ∃ after, entry.run interpreter args entry.history = .error e after := by
  cases h with
  | @lacking before rest field hsplit hbefore hlacks =>
    refine ⟨_, run_of_invalid ?_⟩
    have hfirst : entry.plan.lacking? interpreter.settings.requiredFields = some field := by
      refine List.find?_eq_some_iff_append.mpr ⟨by simp [hlacks], before, rest, hsplit, ?_⟩
      intro earlier hearlier
      simp [hbefore earlier hearlier]
    unfold Plan.validate
    rw [hfirst]
  | unnamed hcomplete hname =>
    refine ⟨_, run_of_invalid ?_⟩
    rw [Plan.validate_of_complete hcomplete, Plan.binding, hname]
    rfl
  | @misnamed value hcomplete hname hvalue =>
    refine ⟨_, run_of_invalid ?_⟩
    rw [Plan.validate_of_complete hcomplete, Plan.binding, hname]
    cases value with
    | string name => exact absurd rfl (hvalue name)
    | _ => rfl
  | bound hcomplete hname hbound =>
    refine ⟨_, run_of_invalid ?_⟩
    rw [Plan.validate_of_complete hcomplete, Plan.binding, hname]
    simp [Except.bind, hbound]
  | @unresolved before rest others name binding value between later _ hvalid hsplit _ hbefore
      hfield =>
    obtain ⟨more, _, hrun⟩ := exists_rest args hvalid
    have hfields : resolveFields interpreter.host entry.state args entry.plan.fields
        entry.history = .error e later := by
      rw [hsplit]
      exact resolveFields_of_error hbefore hfield
    refine ⟨later, ?_⟩
    rw [hrun, Run.bind_run, prepare, Run.bind_run, hfields]
  | @rule _ _ _ _ later _ hready hraw hsplit hbefore hrule =>
    obtain ⟨name, _, _, hvalid, _⟩ := ready_iff.mp hready
    obtain ⟨more, _, hrun⟩ := exists_rest args hvalid
    obtain ⟨step, between, hstep, hcall⟩ := Run.bind_ok_iff.mp hraw
    have hrules := StepResult.checkRules_error_iff.mpr ⟨_, _, _, hsplit, hbefore, hrule⟩
    refine ⟨later, ?_⟩
    rw [hrun, Run.bind_run, hstep]
    dsimp only
    rw [Run.bind_run, hcall]
    dsimp only
    rw [hrules]
    rfl

inductive Course (interpreter : Interpreter) (args : List Value) (entry : Entry) : Prop
  | refused {e : PlanError} {asked : History} :
      entry.run interpreter args entry.history = .error e (entry.history ++ asked) →
      Preparatory asked → Course interpreter args entry
  | stopped {e : PlanError} {asked : History} {step : Step} :
      Ready interpreter args entry →
      prepare interpreter.host entry.plan entry.state args entry.history =
        .ok step (entry.history ++ asked) →
      Preparatory asked →
      entry.run interpreter args entry.history =
        .error e (entry.history ++ asked ++ [.run step args]) →
      Course interpreter args entry
  | passed {asked later : History} {step : Step} {raw : StepResult} :
      Ready interpreter args entry →
      prepare interpreter.host entry.plan entry.state args entry.history =
        .ok step (entry.history ++ asked) →
      Preparatory asked →
      interpreter.host.run (entry.history ++ asked) step args = .ok raw →
      raw.Passes entry.plan.failRules →
      (entry.run interpreter args).calls entry.history =
        entry.history ++ asked ++ .run step args :: later →
      Course interpreter args entry

theorem course_of_prepared {binding : String} {step : Step} {asked : History}
    (hvalid : entry.plan.validate entry.state interpreter.settings.requiredFields = .ok binding)
    (hstep : prepare interpreter.host entry.plan entry.state args entry.history =
      .ok step (entry.history ++ asked)) (hasked : Preparatory asked) :
    Course interpreter args entry := by
  obtain ⟨rest, hrest, hrun⟩ := exists_rest args hvalid
  obtain ⟨fields, later, hfields, _⟩ := Run.bind_ok_iff.mp hstep
  have hready := ready_iff.mpr ⟨binding, fields, later, hvalid, hfields⟩
  have hcalled : entry.run interpreter args entry.history = (Run.call (.run step args)
      (fun earlier => interpreter.host.run earlier step args) >>= fun raw =>
        Run.ofExcept (raw.checkRules entry.plan.failRules) >>= fun _ => rest step raw)
      (entry.history ++ asked) := by
    rw [hrun, Run.bind_run, hstep]
  cases hanswer : interpreter.host.run (entry.history ++ asked) step args with
  | error text =>
    rw [Run.bind_run, Run.call_of_error hanswer] at hcalled
    exact .stopped hready hstep hasked hcalled
  | ok raw =>
    rw [Run.bind_run, Run.call_of_ok hanswer] at hcalled
    dsimp only at hcalled
    cases hrules : raw.checkRules entry.plan.failRules with
    | error e =>
      rw [hrules] at hcalled
      exact .stopped hready hstep hasked hcalled
    | ok done =>
      rw [hrules] at hcalled
      have hsame : (entry.run interpreter args).calls entry.history =
          (rest step raw).calls (entry.history ++ asked ++ [.run step args]) := by
        unfold Run.calls
        rw [hcalled]
        rfl
      obtain ⟨more, hmore⟩ := hrest step raw (entry.history ++ asked ++ [.run step args])
      rw [← hsame, List.append_assoc, List.singleton_append] at hmore
      exact .passed hready hstep hasked hanswer (StepResult.checkRules_ok_iff.mp hrules) hmore.symm

theorem course (interpreter : Interpreter) (args : List Value) (entry : Entry) :
    Course interpreter args entry := by
  cases hvalid : entry.plan.validate entry.state interpreter.settings.requiredFields with
  | error e =>
    have hfailed : entry.run interpreter args entry.history =
        .error e (entry.history ++ []) := by
      rw [List.append_nil]
      exact run_of_invalid hvalid
    exact .refused hfailed (by simp [Preparatory])
  | ok binding =>
    obtain ⟨rest, _, hrun⟩ := exists_rest args hvalid
    obtain ⟨asked, hasked, hcalls⟩ :=
      preparatory_prepare interpreter.host entry.plan entry.state args entry.history
    cases hstep : prepare interpreter.host entry.plan entry.state args entry.history with
    | error e between =>
      obtain rfl := (Run.calls_of_error hstep).symm.trans hcalls
      have hfailed : entry.run interpreter args entry.history =
          .error e (entry.history ++ asked) := by
        rw [hrun, Run.bind_run, hstep]
      exact .refused hfailed hasked
    | ok step between =>
      obtain rfl := (Run.calls_of_ok hstep).symm.trans hcalls
      exact course_of_prepared hvalid hstep hasked

structure Sound (interpreter : Interpreter) (args : List Value) (entry : Entry) : Prop where
  ready : Ready interpreter args entry
  passes : ∀ raw later,
    execute interpreter entry.plan entry.state args entry.history = .ok raw later →
      raw.Passes entry.plan.failRules

theorem Breaks.not_sound {e : PlanError} (h : Breaks interpreter args entry e) :
    ¬Sound interpreter args entry := by
  rintro ⟨hready, hpasses⟩
  obtain ⟨name, hname, hnew⟩ := hready.named
  cases h with
  | @lacking before rest field hsplit _ hlacks =>
    have hfield := hready.complete field (by rw [hsplit]; simp)
    rw [hlacks] at hfield
    cases hfield
  | unnamed _ habsent =>
    rw [hname] at habsent
    cases habsent
  | misnamed _ hvalue hother =>
    rw [hname] at hvalue
    exact hother name (Option.some.inj hvalue).symm
  | bound _ hvalue hbound =>
    rw [hname] at hvalue
    cases hvalue
    rw [hnew] at hbound
    cases hbound
  | unresolved _ hsplit _ hbefore hfield =>
    obtain ⟨_, fields, later, _, hfields⟩ := ready_iff.mp hready
    rw [hsplit, resolveFields_of_error hbefore hfield] at hfields
    cases hfields
  | @rule raw _ _ rule _ _ _ hraw hsplit _ hrule =>
    exact hrule.not_passes (by rw [hsplit]; simp) (hpasses _ _ hraw)

theorem exists_breaks (h : ¬Sound interpreter args entry) :
    ∃ e, Breaks interpreter args entry e := by
  by_cases hready : Ready interpreter args entry
  · by_contra hnone
    apply h
    refine ⟨hready, fun raw later hraw => ?_⟩
    by_contra hpasses
    exact hnone (exists_breaks_of_not_passes hready hraw hpasses)
  · exact exists_breaks_of_not_ready hready

theorem sound_of_step {binding : String} {own : StepResult} {stepped : History}
    (hvalid : entry.plan.validate entry.state interpreter.settings.requiredFields = .ok binding)
    (hstep : runStep interpreter entry.plan entry.state args entry.history = .ok own stepped) :
    Sound interpreter args entry ∧ ∃ raw later,
      execute interpreter entry.plan entry.state args entry.history = .ok raw later := by
  obtain ⟨step, between, hprepared, hstep⟩ := Run.bind_ok_iff.mp hstep
  obtain ⟨raw, later, hcall, hstep⟩ := Run.bind_ok_iff.mp hstep
  obtain ⟨_, hrules, _⟩ := Run.ofExcept_bind_ok_iff.mp hstep
  obtain ⟨fields, _, hfields, _⟩ := Run.bind_ok_iff.mp hprepared
  have hexecuted : execute interpreter entry.plan entry.state args entry.history = .ok raw later :=
    Run.bind_ok_iff.mpr ⟨step, between, hprepared, hcall⟩
  refine ⟨⟨ready_iff.mpr ⟨binding, fields, _, hvalid, hfields⟩, ?_⟩, raw, later, hexecuted⟩
  intro raw' later' hraw'
  rw [hexecuted] at hraw'
  cases hraw'
  exact StepResult.checkRules_ok_iff.mp hrules

theorem sound_of_ok {result : StepResult} {after : History}
    (h : entry.run interpreter args entry.history = .ok result after) :
    Sound interpreter args entry ∧ ∃ raw later,
      execute interpreter entry.plan entry.state args entry.history = .ok raw later := by
  obtain ⟨binding, own, stepped, _, hvalid, hstep, _⟩ := stages_of_ok h
  exact sound_of_step hvalid hstep

variable {root : Entry} {address : List (Nat × Nat)}

theorem Located.sound_of_precedes {entry' : Entry} {address' : List (Nat × Nat)}
    (h : Located interpreter args root address entry)
    (h' : Located interpreter args root address' entry') (hlt : Precedes address address') :
    Sound interpreter args entry := by
  rcases h.above_or_left h' hlt with ⟨more, rfl⟩ | ⟨result, last, hrun, _⟩
  · cases more with
    | nil =>
      rw [List.append_nil] at hlt
      exact absurd hlt (irrefl_of (List.Lex (Prod.Lex (· < ·) (· < ·))) address)
    | cons place rest =>
      obtain ⟨binding, own, stepped, hvalid, hstep⟩ := h.stepped h'
      exact (sound_of_step hvalid hstep).1
  · exact (sound_of_ok hrun).1

/-- Of the nodes that a run enters, one that breaks a check is the last. -/
theorem Breaks.last {entry' : Entry} {address' : List (Nat × Nat)} {e : PlanError}
    (h : Breaks interpreter args entry e) (hentry : Located interpreter args root address entry)
    (hentry' : Located interpreter args root address' entry') (hne : address' ≠ address) :
    Precedes address' address ∧ Sound interpreter args entry' := by
  rcases trichotomous_of (List.Lex (Prod.Lex (· < ·) (· < ·))) address' address with hlt | heq | hlt
  · exact ⟨hlt, hentry'.sound_of_precedes hentry hlt⟩
  · exact absurd heq hne
  · exact absurd (hentry.sound_of_precedes hentry' hlt) h.not_sound

theorem run_eq (interpreter : Interpreter) (plan : Plan) (seed : State) (args : List Value)
    (history : History) : (interpreter.run plan seed args history).2 =
      (runPlan interpreter args plan seed).calls history := by
  unfold run Run.calls
  cases runPlan interpreter args plan seed history <;> rfl

/-- No check is bypassed. Each step that is run is that of a node that is ready, nothing
follows a step unless its answer passes the rules, and a run succeeds only if all nodes
that it enters keep their checks. A node that breaks one is the last in depth-first order,
and the run ends with its error and by its calls. -/
theorem run_checked (interpreter : Interpreter) (plan : Plan) (seed : State) (args : List Value)
    (history : History) :
    (∀ trail entry, Path interpreter args ⟨plan, seed, history⟩ trail entry →
      ∃ address, Located interpreter args ⟨plan, seed, history⟩ address entry) ∧
    (∀ asked step given later,
      (interpreter.run plan seed args history).2 =
        history ++ asked ++ .run step given :: later →
      ∃ address entry, Located interpreter args ⟨plan, seed, history⟩ address entry ∧
        Ready interpreter args entry ∧
        prepare interpreter.host entry.plan entry.state args entry.history =
          .ok step (history ++ asked) ∧ given = args) ∧
    (∀ address entry, Located interpreter args ⟨plan, seed, history⟩ address entry →
      Course interpreter args entry) ∧
    (∀ result, (interpreter.run plan seed args history).1 = .ok result →
      ∀ address entry, Located interpreter args ⟨plan, seed, history⟩ address entry →
        Sound interpreter args entry ∧ ∃ raw later,
          execute interpreter entry.plan entry.state args entry.history = .ok raw later) ∧
    ∀ address entry, Located interpreter args ⟨plan, seed, history⟩ address entry →
      ¬Sound interpreter args entry →
      ∃ e, Breaks interpreter args entry e ∧
        (interpreter.run plan seed args history).1 = .error e ∧
        (interpreter.run plan seed args history).2 =
          (entry.run interpreter args).calls entry.history ∧
        ∀ address' entry', Located interpreter args ⟨plan, seed, history⟩ address' entry' →
          address' ≠ address → Precedes address' address ∧ Sound interpreter args entry' := by
  refine ⟨fun trail entry hpath => hpath.located, ?_, fun address entry _ => course _ _ _, ?_, ?_⟩
  · intro asked step given later hcalls
    rw [run_eq] at hcalls
    have hin : history ++ asked ++ [Call.run step given] <+:
        (runPlan interpreter args plan seed).calls history := ⟨later, by rw [hcalls]; simp⟩
    obtain ⟨address, entry, binding, hentry, hvalid, hstep, hgiven⟩ :=
      (eachStep_runPlan interpreter args plan seed history).2 _ _ _ (List.prefix_append _ _) hin
    obtain ⟨fields, between, hfields, _⟩ := Run.bind_ok_iff.mp hstep
    exact ⟨address, entry, hentry, ready_iff.mpr ⟨binding, fields, between, hvalid, hfields⟩,
      hstep, hgiven⟩
  · intro result hresult address entry hentry
    unfold run at hresult
    cases hrun : runPlan interpreter args plan seed history with
    | error e after =>
      rw [hrun] at hresult
      cases hresult
    | ok final after =>
      obtain ⟨_, _, hok, _⟩ := hentry.enters.ok hrun
      exact sound_of_ok hok
  · intro address entry hentry hbroken
    obtain ⟨e, hbreaks⟩ := exists_breaks hbroken
    obtain ⟨after, hfailed⟩ := hbreaks.run
    have hrun : runPlan interpreter args plan seed history = .error e after :=
      hentry.enters.error hfailed
    refine ⟨e, hbreaks, ?_, ?_, fun address' entry' hentry' hne => hbreaks.last hentry hentry' hne⟩
    · unfold run
      rw [hrun]
    · rw [run_eq, Run.calls_of_error hrun, Run.calls_of_error hfailed]

/-- The answer for a child holds errors, which its rule forbids: the whole run fails. -/
theorem run_checked_child :
    let order : StepResult := .ofContent (.mapping [("id", .null)])
    let line : StepResult := .ofContent (.mapping [("errors", .list [.bool true])])
    let child := ((Plan.named "line").attach .detached).failIf "content.errors" .nonEmpty
    let plan := ((Plan.named "order").attach .detached).fanOut .this child
    let interpreter : Interpreter := ⟨.byName [("order", order), ("line", line)], .standard⟩
    let first : History := [.run ⟨plan.fields⟩ []]
    let entry : Entry := ⟨child, State.empty.bind "order" order.content, first⟩
    let e := PlanError.validation "content.errors" (.list [.bool true]) "non_empty"
    Located interpreter [] ⟨plan, .empty, []⟩ [(0, 0)] entry ∧ ¬Sound interpreter [] entry ∧
      Breaks interpreter [] entry e ∧
      interpreter.run plan .empty [] [] = (.error e, first ++ [.run ⟨child.fields⟩ []]) := by
  intro order line child plan interpreter first entry e
  have hentry : Located interpreter [] ⟨plan, .empty, []⟩ [(0, 0)] entry := by
    have hin : StartedIn interpreter (nodeOf interpreter [] plan .empty "order" order)
        ⟨order, false⟩ (.this, ⟨child, runPlan interpreter [] child⟩) first 0 _ order.content
        first := .once (.this rfl rfl) rfl
    have hbefore : directAll interpreter (nodeOf interpreter [] plan .empty "order" order)
        ⟨order, false⟩ [] first = .ok ⟨order, false⟩ first := rfl
    exact .child rfl rfl (.mk rfl hbefore hin) (.root _)
  have hviolated : line.Violates ⟨"content.errors", .nonEmpty⟩ e := .holds rfl rfl
  have hbroken : ¬Sound interpreter [] entry := by
    rintro ⟨_, hpasses⟩
    exact hviolated.not_passes (List.mem_singleton.mpr rfl) (hpasses line _ rfl)
  have hrun : interpreter.run plan .empty [] [] =
      (.error e, first ++ [.run ⟨child.fields⟩ []]) := rfl
  obtain ⟨_, _, _, _, hbreaking⟩ := run_checked interpreter plan .empty [] []
  obtain ⟨found, hbreaks, hfound, _⟩ := hbreaking _ entry hentry hbroken
  rw [hrun] at hfound
  rw [← Except.error.inj hfound] at hbreaks
  exact ⟨hentry, hbroken, hbreaks, hrun⟩

end Interpreter

end PlanFold
