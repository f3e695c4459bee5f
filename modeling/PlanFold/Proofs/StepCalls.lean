import PlanFold.Proofs.EntryOrder

/-!
# Whose steps a run has run

The host is asked for a step by the nodes of the run and by nothing else: what
it is asked for is at each point the prepared step of a node that was entered
and found valid.
-/

set_option autoImplicit false

namespace PlanFold

def Quiet (calls : History) : Prop := ∀ c ∈ calls, c.isRun = false

def Preparatory (calls : History) : Prop :=
  ∀ c ∈ calls, (∃ name given, c = .unpack name given) ∨
    ∃ step state given, c = .interpolate step state given

theorem Preparatory.quiet {calls : History} (h : Preparatory calls) : Quiet calls := by
  intro c hc
  rcases h c hc with ⟨_, _, rfl⟩ | ⟨_, _, _, rfl⟩ <;> rfl

theorem eq_of_mem_ofHook {α β : Type} {hook : Option β} {c other : Call}
    {answer : β → History → Except String α}
    (h : other ∈ callsOf (Prompt.ofHook hook c answer)) : other = c := by
  cases hook with
  | none => cases h
  | some f => exact List.mem_singleton.mp h

theorem quiet_ofHook {α β : Type} (hook : Option β) {c : Call} (h : c.isRun = false)
    (answer : β → History → Except String α) : Quiet (callsOf (Prompt.ofHook hook c answer)) := by
  intro other hother
  rw [eq_of_mem_ofHook hother]
  exact h

namespace Run

variable {α β γ : Type} {history between : History}
  {P Q : History → Step → List Value → Prop}

def EachStep (P : History → Step → List Value → Prop) (x : Run α) (history : History) : Prop :=
  history <+: x.calls history ∧ ∀ earlier step given, history <+: earlier →
    earlier ++ [.run step given] <+: x.calls history → P earlier step given

theorem EachStep.mono {x : Run α} (h : x.EachStep P history)
    (hPQ : ∀ earlier step given, P earlier step given → Q earlier step given) :
    x.EachStep Q history :=
  ⟨h.1, fun earlier step given hfrom hin => hPQ _ _ _ (h.2 earlier step given hfrom hin)⟩

theorem Says.eachStep {x : Run α} {word : List Prompt} (h : x.Says history word)
    (hquiet : Quiet (callsOf word)) : x.EachStep P history := by
  obtain ⟨done, hdone, hcalls⟩ := h.calls
  rw [EachStep, hcalls]
  refine ⟨List.prefix_append _ _, ?_⟩
  rintro earlier step given ⟨more, rfl⟩ hin
  rw [List.append_assoc, List.prefix_append_right_inj] at hin
  have hasked : Call.run step given ∈ callsOf done := hin.subset (by simp)
  exact absurd (hquiet _ ((hdone.map Prompt.call).subset hasked)) (by simp [Call.isRun])

theorem EachStep.bind {x : Run α} {f : α → Run β} (hx : x.EachStep P history)
    (hf : ∀ a between, x history = .ok a between → (f a).EachStep P between) :
    (x >>= f).EachStep P history := by
  unfold EachStep
  cases hrun : x history with
  | error e between =>
    rw [calls_bind_of_error hrun, ← calls_of_error hrun]
    exact hx
  | ok a between =>
    rw [calls_bind_of_ok hrun]
    obtain ⟨hfirst, hsteps⟩ := hx
    obtain ⟨hrest, hmore⟩ := hf a between hrun
    rw [calls_of_ok hrun] at hfirst hsteps
    refine ⟨hfirst.trans hrest, ?_⟩
    intro earlier step given hfrom hin
    by_cases hlength : (earlier ++ [Call.run step given]).length ≤ between.length
    · exact hsteps _ _ _ hfrom (List.prefix_of_prefix_length_le hin hrest hlength)
    · apply hmore _ _ _ ?_ hin
      apply List.prefix_of_prefix_length_le hrest ((List.prefix_append _ _).trans hin)
      simp at hlength
      omega

theorem eachStep_call {step : Step} {given : List Value} (answer : History → Except String α)
    (h : P history step given) : (call (.run step given) answer).EachStep P history := by
  have hcalls : (call (.run step given) answer).calls history = history ++ [.run step given] := by
    cases hanswer : answer history with
    | ok a => exact calls_of_ok (call_of_ok hanswer)
    | error text => exact calls_of_error (call_of_error hanswer)
  rw [EachStep, hcalls]
  refine ⟨List.prefix_append _ _, ?_⟩
  rintro earlier step' given' ⟨more, rfl⟩ hin
  rw [List.append_assoc, List.prefix_append_right_inj] at hin
  cases more with
  | nil =>
    obtain ⟨rfl, rfl⟩ : step' = step ∧ given' = given := by simpa using hin
    simpa using h
  | cons first rest => simp [List.cons_prefix_cons] at hin

theorem eachStep_pure (a : α) (history : History) : (pure a : Run α).EachStep P history :=
  (says_pure a history).eachStep (by simp [Quiet, callsOf])

theorem eachStep_ofExcept (x : Except PlanError α) (history : History) :
    (ofExcept x).EachStep P history :=
  (says_ofExcept x history).eachStep (by simp [Quiet, callsOf])

end Run

namespace Interpreter

variable {interpreter : Interpreter} {args : List Value} {node : Node} {branch : Branch}
  {folding : Folding} {history : History} {P : History → Step → List Value → Prop}

theorem preparatory_prepareWord (host : Host) (state : State) (args : List Value)
    (fields : Fields) (step : Step) : Preparatory (callsOf (referenceWord host args fields ++
      changeWord host state args step)) := by
  rw [callsOf_append]
  intro c hc
  rcases List.mem_append.mp hc with hreference | hchange
  · obtain ⟨prompt, hprompt, rfl⟩ := List.mem_map.mp hreference
    obtain ⟨name, _, hname⟩ := List.mem_flatMap.mp hprompt
    exact .inl ⟨name, args, eq_of_mem_ofHook (List.mem_map_of_mem hname)⟩
  · exact .inr ⟨step, state, args, eq_of_mem_ofHook hchange⟩

theorem preparatory_prepare (host : Host) (plan : Plan) (state : State) (args : List Value)
    (history : History) : ∃ asked, Preparatory asked ∧
      (prepare host plan state args).calls history = history ++ asked := by
  obtain ⟨fields, hfields⟩ :=
    Run.exists_gives (resolveFields host state args plan.fields) history []
  obtain ⟨done, hdone, hcalls⟩ := (says_prepare plan hfields).calls
  refine ⟨callsOf done, ?_, hcalls⟩
  intro c hc
  exact preparatory_prepareWord host state args _ _ c ((hdone.map Prompt.call).subset hc)

theorem quiet_foldWord (host : Host) (attach : Attach) (target : Fields) (source : StepResult) :
    Quiet (callsOf (foldWord host attach target source)) := by
  unfold foldWord
  split
  · simp [Quiet, callsOf]
  · exact quiet_ofHook host.mergeDown rfl _

theorem eachStep_integrate (attach : Attach) (target : Fields) (source : StepResult) :
    (integrate interpreter.host attach target source).EachStep P history :=
  (says_integrate attach target source history).eachStep (quiet_foldWord _ _ _ _)

theorem eachStep_integrateElement (attach : Attach) (element : Value) (source : StepResult) :
    (integrateElement interpreter.host attach element source).EachStep P history :=
  (says_integrateElement attach element source history).eachStep (quiet_foldWord _ _ _ _)

theorem eachStep_runChild {bound : Value}
    (h : ∀ later, askDefault node branch bound history = .ok none later →
      (branch.run (node.state.bind node.binding bound)).EachStep P later) :
    (runChild node branch bound).EachStep P history := by
  have hask : (askDefault node branch bound).EachStep P history :=
    (Run.says_callHook _ _ _ _ history).eachStep (quiet_ofHook branch.plan.defaultWith rfl _)
  rw [runChild_eq]
  apply hask.bind
  intro computed later hcomputed
  cases computed with
  | some result => exact Run.eachStep_pure result later
  | none => exact h later hcomputed

theorem eachStep_foldChild {bound : Value}
    (h : ∀ later, askDefault node branch bound history = .ok none later →
      (branch.run (node.state.bind node.binding bound)).EachStep P later) :
    (foldChild interpreter node folding branch bound).EachStep P history := by
  unfold foldChild
  apply (eachStep_runChild h).bind
  intro child between _
  apply (Run.eachStep_ofExcept _ between).bind
  intro attach _ _
  apply (eachStep_integrate attach _ child).bind
  intro fields after _
  exact Run.eachStep_pure _ after

theorem eachStep_foldElements {attach : Attach} {items : List Value} {result : StepResult}
    (h : ∀ passed element others result' folded middle,
      items = passed ++ element :: others →
      foldElements interpreter node branch attach result passed history =
        .ok (result', folded) middle →
      defaultFor? branch.plan element = none →
      ∀ later, askDefault node branch element middle = .ok none later →
        (branch.run (node.state.bind node.binding element)).EachStep P later) :
    (foldElements interpreter node branch attach result items).EachStep P history := by
  induction items generalizing result history with
  | nil => exact Run.eachStep_pure _ history
  | cons element rest ih =>
    have hfirst : (elementResult interpreter node branch result element).EachStep P history := by
      unfold elementResult
      cases hdefault : defaultFor? branch.plan element with
      | some content => exact Run.eachStep_pure _ history
      | none =>
        apply (eachStep_runChild (h [] element rest result [] history rfl rfl hdefault)).bind
        intro child between _
        exact Run.eachStep_pure _ between
    apply hfirst.bind
    rintro ⟨child, result'⟩ between hchild
    apply (eachStep_integrateElement attach element child).bind
    intro folded later hfolded
    have hrest : (foldElements interpreter node branch attach result' rest).EachStep P later := by
      apply ih
      intro passed next others result'' tail middle hsplit htail
      apply h (element :: passed) next others result'' (folded :: tail) middle
      · rw [hsplit, List.cons_append]
      · refine Run.bind_ok_iff.mpr ⟨(child, result'), between, hchild, ?_⟩
        refine Run.bind_ok_iff.mpr ⟨folded, later, hfolded, ?_⟩
        exact Run.bind_ok_iff.mpr ⟨(result'', tail), middle, htail, rfl⟩
    apply hrest.bind
    intro out after _
    exact Run.eachStep_pure _ after

theorem eachStep_direct {directive : Scope × Branch}
    (h : ∀ index branch bound later,
      StartedIn interpreter node folding directive history index branch bound later →
        (branch.run (node.state.bind node.binding bound)).EachStep P later) :
    (direct interpreter node folding directive).EachStep P history := by
  rw [direct_eq]
  apply (Run.eachStep_ofExcept _ history).bind
  intro choice between hchosen
  obtain ⟨hchoice, rfl⟩ := Run.ofExcept_ok_iff.mp hchosen
  cases choice with
  | passOver => exact Run.eachStep_pure _ history
  | once branch bound =>
    apply eachStep_foldChild
    intro later hask
    exact h 0 branch bound later (.once (runsOnce_of_choose hchoice) hask)
  | nothing =>
    apply (Run.eachStep_ofExcept _ history).bind
    intro attach between _
    apply (eachStep_integrate attach _ _).bind
    intro fields after _
    exact Run.eachStep_pure _ after
  | each list items =>
    obtain ⟨hscope, hfield⟩ := each_of_choose hchoice
    apply (Run.eachStep_ofExcept _ history).bind
    intro attach between hfound
    obtain ⟨hattach, rfl⟩ := Run.ofExcept_ok_iff.mp hfound
    have hitems : (foldElements interpreter node directive.2 attach
        (folding.descend interpreter.settings.pageCountFields).result items).EachStep P
          history := by
      apply eachStep_foldElements
      intro passed element others result folded middle hsplit hpassed hdefault later hask
      rw [hsplit] at hfield
      exact h _ _ _ later (.each hscope hfield hattach hpassed hdefault hask)
    apply hitems.bind
    intro out after _
    exact Run.eachStep_pure _ after

theorem eachStep_directAll {directives : List (Scope × Branch)}
    (h : ∀ before directive rest folding' between,
      directives = before ++ directive :: rest →
      directAll interpreter node folding before history = .ok folding' between →
      (direct interpreter node folding' directive).EachStep P between) :
    (directAll interpreter node folding directives).EachStep P history := by
  induction directives generalizing folding history with
  | nil => exact Run.eachStep_pure _ history
  | cons directive rest ih =>
    apply (h [] directive rest folding history rfl rfl).bind
    intro folding' between hdirective
    apply ih
    intro before next others folding'' later hrest hbefore
    apply h (directive :: before) next others folding'' later
    · rw [hrest, List.cons_append]
    · exact Run.bind_ok_iff.mpr ⟨_, _, hdirective, hbefore⟩

def Due (interpreter : Interpreter) (args : List Value) (root : Entry) (earlier : History)
    (step : Step) (given : List Value) : Prop :=
  ∃ address entry binding, Located interpreter args root address entry ∧
    entry.plan.validate entry.state interpreter.settings.requiredFields = .ok binding ∧
    prepare interpreter.host entry.plan entry.state args entry.history = .ok step earlier ∧
    given = args

theorem eachStep_runStep {plan : Plan} {state : State}
    (h : ∀ step later, prepare interpreter.host plan state args history = .ok step later →
      P later step args) : (runStep interpreter plan state args).EachStep P history := by
  obtain ⟨fields, hfields⟩ :=
    Run.exists_gives (resolveFields interpreter.host state args plan.fields) history []
  have hprepare : (prepare interpreter.host plan state args).EachStep P history :=
    (says_prepare plan hfields).eachStep (preparatory_prepareWord _ _ _ _ _).quiet
  apply hprepare.bind
  intro step between hstep
  apply (Run.eachStep_call _ (h step between hstep)).bind
  intro raw later _
  apply (Run.eachStep_ofExcept _ later).bind
  intro _ after _
  exact (Run.says_callHook _ _ _ _ after).eachStep (quiet_ofHook interpreter.host.post rfl _)

theorem Due.of_started {plan : Plan} {state : State} {stepped later earlier : History}
    {binding : String} {own : StepResult} {place : Nat × Nat} {bound : Value} {step : Step}
    {given : List Value}
    (hvalid : plan.validate state interpreter.settings.requiredFields = .ok binding)
    (hstep : runStep interpreter plan state args history = .ok own stepped)
    (hstarted : StartedAt interpreter (nodeOf interpreter args plan state binding own)
      (branches interpreter args plan.children) stepped place branch bound later)
    (h : Due interpreter args ⟨branch.plan, state.bind binding bound, later⟩ earlier step given) :
    Due interpreter args ⟨plan, state, history⟩ earlier step given := by
  obtain ⟨address, entry, name, hentry, hdue⟩ := h
  exact ⟨place :: address, entry, name, .child hvalid hstep hstarted hentry, hdue⟩

/-- Each step that a run has run is that of a node it entered. -/
theorem eachStep_runPlan (interpreter : Interpreter) (args : List Value) (plan : Plan) :
    ∀ state history, (runPlan interpreter args plan state).EachStep
      (Due interpreter args ⟨plan, state, history⟩) history := by
  induction plan using Plan.induction with
  | h plan hchildren hfallback =>
    intro state history
    rw [runPlan_eq]
    apply (Run.eachStep_ofExcept _ history).bind
    intro binding between hfound
    obtain ⟨hvalid, rfl⟩ := Run.ofExcept_ok_iff.mp hfound
    have hown : (runStep interpreter plan state args).EachStep
        (Due interpreter args ⟨plan, state, history⟩) history := by
      apply eachStep_runStep
      intro step later hstep
      exact ⟨[], _, binding, .root _, hvalid, hstep, rfl⟩
    apply hown.bind
    intro own stepped hstep
    have hall : (directAll interpreter (nodeOf interpreter args plan state binding own)
        (nodeOf interpreter args plan state binding own).start
        (branches interpreter args plan.children)).EachStep
          (Due interpreter args ⟨plan, state, history⟩) stepped := by
      apply eachStep_directAll
      intro before directive rest folding between hsplit hbefore
      apply eachStep_direct
      intro index branch bound later hin
      have hstarted : StartedAt interpreter (nodeOf interpreter args plan state binding own)
          (branches interpreter args plan.children) stepped _ branch bound later :=
        .mk hsplit hbefore hin
      -- the branch runs a plan below this one, where the induction applies
      obtain ⟨heq, ⟨child, hchild, hbelow⟩ | hbelow⟩ := hstarted.started.below
      · rw [heq, ← hbelow]
        apply (hchildren child hchild _ later).mono
        rw [hbelow]
        intro earlier step given hdue
        exact hdue.of_started hvalid hstep hstarted
      · rw [heq]
        apply (hfallback branch.plan hbelow _ later).mono
        intro earlier step given hdue
        exact hdue.of_started hvalid hstep hstarted
    apply hall.bind
    intro folding after _
    exact Run.eachStep_pure _ after

end Interpreter

end PlanFold
