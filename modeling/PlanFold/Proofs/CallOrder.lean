import PlanFold.Proofs.IntegrationAlgebra
import PlanFold.Proofs.Prompts
import PlanFold.Proofs.Starts

/-!
# The order of calls

The calls of a run are a word of a grammar. A node first asks for the containers
of its references, has its step changed, run and shown, and then says the words
of its directives in order. Where the grammar depends on data, they are those
the run has come to; past the point where a run fails they may be any.

Every hook is asked only where it is installed, and nothing is said for a
directive that is passed over.
-/

set_option autoImplicit false

namespace PlanFold

def containersOf (fields : Fields) : List String :=
  fields.filterMap fun field =>
    if isStructural field.1 then none
    else
      match Reference.ofValue field.2 with
      | .ok (some reference) => some reference.container
      | _ => none

namespace Interpreter

variable (interpreter : Interpreter) (args : List Value)

def containerWord (host : Host) (args : List Value) (name : String) : List Prompt :=
  Prompt.ofHook host.unpack (.unpack name args) fun unpack earlier => unpack earlier name args

def referenceWord (host : Host) (args : List Value) (fields : Fields) : List Prompt :=
  (containersOf fields).flatMap (containerWord host args)

def changeWord (host : Host) (state : State) (args : List Value) (step : Step) : List Prompt :=
  Prompt.ofHook host.interpolate (.interpolate step state args)
    fun interpolate earlier => interpolate earlier step state args

def runPrompt (host : Host) (args : List Value) (step : Step) : Prompt :=
  .of (.run step args) fun earlier => host.run earlier step args

def showWord (host : Host) (step : Step) (result : StepResult) : List Prompt :=
  Prompt.ofHook host.post (.post step result) fun post earlier => post earlier step result

def foldWord (host : Host) (attach : Attach) (target : Fields) (source : StepResult) :
    List Prompt :=
  if attach.mode = .detached then []
  else Prompt.ofHook host.mergeDown (.mergeDown (keepNewest target source) source)
    fun mergeDown earlier => mergeDown earlier (keepNewest target source) source

def defaultWord (node : Node) (branch : Branch) (bound : Value) : List Prompt :=
  Prompt.ofHook branch.plan.defaultWith (.defaultWith (branch.plan.get? "as") bound node.args)
    fun hook earlier => hook earlier bound node.args

def execute (interpreter : Interpreter) (plan : Plan) (state : State) (args : List Value) :
    Run StepResult := do
  let step ← prepare interpreter.host plan state args
  Run.call (.run step args) fun earlier => interpreter.host.run earlier step args

inductive StepWord (plan : Plan) (state : State) (history : History) : List Prompt → Prop
  | step {fields : Fields} {step : Step} {raw : StepResult} :
      (resolveFields interpreter.host state args plan.fields).Gives history fields →
      (prepare interpreter.host plan state args).Gives history step →
      (execute interpreter plan state args).Gives history raw →
      StepWord plan state history
        (referenceWord interpreter.host args plan.fields ++
          (changeWord interpreter.host state args ⟨fields⟩ ++
            (runPrompt interpreter.host args step ::
              showWord interpreter.host step (overridePageCount step raw))))

mutual

/-- The words of a node: its own step, then its directives in order. -/
inductive NodeWord : Plan → State → History → List Prompt → Prop
  | node {plan : Plan} {state : State} {history : History} {binding : String}
      {own : StepResult} {first rest : List Prompt} :
      (Run.ofExcept (plan.validate state interpreter.settings.requiredFields)).Gives history
        binding →
      StepWord interpreter args plan state history first →
      (runStep interpreter plan state args).Gives history own →
      DirectivesWord (nodeOf interpreter args plan state binding own)
        (nodeOf interpreter args plan state binding own).start
        (branches interpreter args plan.children) (history ++ callsOf first) rest →
      NodeWord plan state history (first ++ rest)

inductive DirectivesWord : Node → Folding → List (Scope × Branch) → History → List Prompt → Prop
  | nil {node : Node} {folding : Folding} {history : History} :
      DirectivesWord node folding [] history []
  | cons {node : Node} {folding next : Folding} {directive : Scope × Branch}
      {directives : List (Scope × Branch)} {history : History} {first rest : List Prompt} :
      DirectiveWord node folding directive history first →
      (direct interpreter node folding directive).Gives history next →
      DirectivesWord node next directives (history ++ callsOf first) rest →
      DirectivesWord node folding (directive :: directives) history (first ++ rest)

inductive DirectiveWord : Node → Folding → Scope × Branch → History → List Prompt → Prop
  | passOver {node : Node} {folding : Folding} {directive : Scope × Branch}
      {history : History} :
      choose node folding.result directive = .ok .passOver →
      DirectiveWord node folding directive history []
  | once {node : Node} {folding : Folding} {directive : Scope × Branch} {branch : Branch}
      {bound : Value} {child : StepResult} {attach : Attach} {history : History}
      {word : List Prompt} :
      choose node folding.result directive = .ok (.once branch bound) →
      ChildWord node branch bound history word →
      (runChild node branch bound).Gives history child →
      (Run.ofExcept branch.plan.attachDirective).Gives history attach →
      DirectiveWord node folding directive history
        (word ++ foldWord interpreter.host attach
          ((folding.descend interpreter.settings.pageCountFields).result.addEffort child
            interpreter.settings.effortCounters).fields child)
  | nothing {node : Node} {folding : Folding} {directive : Scope × Branch} {attach : Attach}
      {history : History} :
      choose node folding.result directive = .ok .nothing →
      (Run.ofExcept directive.2.plan.attachDirective).Gives history attach →
      DirectiveWord node folding directive history
        (foldWord interpreter.host attach folding.result.fields .empty)
  | each {node : Node} {folding : Folding} {directive : Scope × Branch} {list : String}
      {items : List Value} {attach : Attach} {history : History} {word : List Prompt} :
      choose node folding.result directive = .ok (.each list items) →
      (Run.ofExcept directive.2.plan.attachDirective).Gives history attach →
      ElementsWord node directive.2 attach items history word →
      DirectiveWord node folding directive history word
  | noList {node : Node} {folding : Folding} {directive : Scope × Branch} {e : PlanError}
      {history : History} :
      choose node folding.result directive = .error e →
      DirectiveWord node folding directive history []

inductive ElementsWord : Node → Branch → Attach → List Value → History → List Prompt → Prop
  | nil {node : Node} {branch : Branch} {attach : Attach} {history : History} :
      ElementsWord node branch attach [] history []
  | default {node : Node} {branch : Branch} {attach : Attach} {element content : Value}
      {items : List Value} {history : History} {rest : List Prompt} :
      defaultFor? branch.plan element = some content →
      ElementsWord node branch attach items (history ++ callsOf
        (foldWord interpreter.host attach element.entries (.ofContent content))) rest →
      ElementsWord node branch attach (element :: items) history
        (foldWord interpreter.host attach element.entries (.ofContent content) ++ rest)
  | child {node : Node} {branch : Branch} {attach : Attach} {element : Value}
      {items : List Value} {child : StepResult} {history : History}
      {word rest : List Prompt} :
      defaultFor? branch.plan element = none →
      ChildWord node branch element history word →
      (runChild node branch element).Gives history child →
      ElementsWord node branch attach items (history ++ callsOf word ++ callsOf
        (foldWord interpreter.host attach element.entries child)) rest →
      ElementsWord node branch attach (element :: items) history
        (word ++ (foldWord interpreter.host attach element.entries child ++ rest))

inductive ChildWord : Node → Branch → Value → History → List Prompt → Prop
  | computed {node : Node} {branch : Branch} {bound : Value} {result : StepResult}
      {history : History} :
      (askDefault node branch bound).Gives history (some result) →
      ChildWord node branch bound history (defaultWord node branch bound)
  | node {node : Node} {branch : Branch} {bound : Value} {history : History}
      {word : List Prompt} :
      (askDefault node branch bound).Gives history none →
      NodeWord branch.plan (node.state.bind node.binding bound)
        (history ++ callsOf (defaultWord node branch bound)) word →
      ChildWord node branch bound history (defaultWord node branch bound ++ word)

end

variable {interpreter : Interpreter} {args : List Value} {host : Host} {history : History}

theorem says_resolve (state : State) (reference : Reference) (history : History) :
    (resolve host state args reference).Says history
      (containerWord host args reference.container) := by
  have hcontainer : (container host state args reference.container).Says history
      (containerWord host args reference.container) := by
    have hasked := Run.says_callHook host.unpack (.unpack reference.container args)
      (fun unpack earlier => unpack earlier reference.container args) none history
    apply hasked.bind_silent
    intro supplied later
    split
    · exact Run.says_pure _ later
    · exact Run.says_pure _ later
    · exact Run.says_throw _ later []
  apply hcontainer.bind_silent
  intro found later
  exact (Run.says_ofExcept _ later).bind_silent fun value later => Run.says_ofExcept _ later

theorem referenceWord_cons (field : String × Value) (rest : Fields) :
    referenceWord host args (field :: rest) =
      referenceWord host args [field] ++ referenceWord host args rest := by
  have happend : containersOf (field :: rest) = containersOf [field] ++ containersOf rest :=
    List.filterMap_append (l := [field])
  unfold referenceWord
  rw [happend, List.flatMap_append]

theorem says_resolveField (state : State) (name : String) (value : Value) (history : History) :
    (resolveField host state args name value).Says history
      (referenceWord host args [(name, value)]) := by
  unfold resolveField
  cases hstructural : isStructural name with
  | true =>
    have hword : referenceWord host args [(name, value)] = [] := by
      simp [referenceWord, containersOf, hstructural]
    rw [hword, if_pos rfl]
    exact Run.says_pure value history
  | false =>
    rw [if_neg Bool.false_ne_true]
    cases hvalue : Reference.ofValue value with
    | error fault => exact Run.says_throw _ history _
    | ok shape =>
      cases shape with
      | none =>
        have hword : referenceWord host args [(name, value)] = [] := by
          simp [referenceWord, containersOf, hvalue]
        rw [hword]
        exact Run.says_pure value history
      | some reference =>
        have hword : referenceWord host args [(name, value)] =
            containerWord host args reference.container := by
          simp [referenceWord, containersOf, hstructural, hvalue]
        rw [hword]
        exact says_resolve state reference history

theorem says_resolveFields (state : State) (fields : Fields) (history : History) :
    (resolveFields host state args fields).Says history (referenceWord host args fields) := by
  induction fields generalizing history with
  | nil => exact Run.says_pure [] history
  | cons field rest ih =>
    rw [referenceWord_cons]
    apply (says_resolveField state field.1 field.2 history).bind
    intro resolved _
    exact (ih _).bind_silent fun others later => Run.says_pure _ later

theorem says_prepare (plan : Plan) {state : State} {fields : Fields}
    (hfields : (resolveFields host state args plan.fields).Gives history fields) :
    (prepare host plan state args).Says history
      (referenceWord host args plan.fields ++ changeWord host state args ⟨fields⟩) :=
  (says_resolveFields state plan.fields history).bind_gives hfields (Run.says_callHook _ _ _ _ _)

theorem says_runStep (interpreter : Interpreter) (args : List Value) (plan : Plan)
    (state : State) (history : History) :
    ∃ word, StepWord interpreter args plan state history word ∧
      (runStep interpreter plan state args).Says history word := by
  obtain ⟨fields, hfields⟩ :=
    Run.exists_gives (resolveFields interpreter.host state args plan.fields) history []
  obtain ⟨step, hstep⟩ :=
    Run.exists_gives (prepare interpreter.host plan state args) history ⟨[]⟩
  obtain ⟨raw, hraw⟩ := Run.exists_gives (execute interpreter plan state args) history .empty
  refine ⟨_, .step hfields hstep hraw, ?_⟩
  rw [← List.append_assoc, ← List.singleton_append]
  apply (says_prepare plan hfields).bind
  intro step' hstep'
  obtain rfl := hstep step' _ hstep'
  have hcall := Run.says_call (.run step' args)
    (fun earlier => interpreter.host.run earlier step' args)
    (history ++ callsOf (referenceWord interpreter.host args plan.fields ++
      changeWord interpreter.host state args ⟨fields⟩))
  apply hcall.bind
  intro raw' hraw'
  have hexecuted : execute interpreter plan state args history = .ok raw' _ :=
    Run.bind_ok_iff.mpr ⟨step', _, hstep', hraw'⟩
  obtain rfl := hraw raw' _ hexecuted
  apply Run.says_ofExcept_bind
  intro _ _
  exact Run.says_callHook _ _ _ _ _

theorem says_integrate (attach : Attach) (target : Fields) (source : StepResult)
    (history : History) :
    (integrate host attach target source).Says history (foldWord host attach target source) := by
  unfold integrate foldWord
  split
  · exact Run.says_pure target history
  · apply Run.says_ofExcept_bind
    intro payload _
    apply Run.says_ofExcept_bind
    intro _ _
    exact (Run.says_callHook _ _ _ _ _).bind_silent fun target later => Run.says_ofExcept _ later

theorem says_integrateElement (attach : Attach) (element : Value) (source : StepResult)
    (history : History) :
    (integrateElement host attach element source).Says history
      (foldWord host attach element.entries source) := by
  unfold integrateElement
  split
  · rename_i fields
    exact (says_integrate attach fields source history).bind_silent
      fun out later => Run.says_pure _ later
  · split
    · rename_i hmode
      unfold foldWord
      rw [if_pos hmode]
      exact Run.says_pure _ history
    · exact Run.says_throw _ history _

def Spoken (interpreter : Interpreter) (args : List Value) (node : Node) (branch : Branch) :
    Prop :=
  ∀ bound history, ∃ word,
    NodeWord interpreter args branch.plan (node.state.bind node.binding bound) history word ∧
      (branch.run (node.state.bind node.binding bound)).Says history word

variable {node : Node} {branch : Branch} {directive : Scope × Branch} {folding : Folding}

theorem says_runChild (h : Spoken interpreter args node branch) (bound : Value)
    (history : History) :
    ∃ word, ChildWord interpreter args node branch bound history word ∧
      (runChild node branch bound).Says history word := by
  have hasked : (askDefault node branch bound).Says history (defaultWord node branch bound) :=
    Run.says_callHook _ _ _ _ history
  obtain ⟨computed, hcomputed⟩ := Run.exists_gives (askDefault node branch bound) history none
  rw [runChild_eq]
  cases computed with
  | some result =>
    refine ⟨_, .computed hcomputed, ?_⟩
    rw [← List.append_nil (defaultWord node branch bound)]
    exact hasked.bind_gives hcomputed (Run.says_pure result _)
  | none =>
    obtain ⟨word, hword, hsaid⟩ := h bound (history ++ callsOf (defaultWord node branch bound))
    exact ⟨_, .node hcomputed hword, hasked.bind_gives hcomputed hsaid⟩

theorem says_foldChild (h : Spoken interpreter args node branch) {bound : Value}
    (hchoice : choose node folding.result directive = .ok (.once branch bound))
    (history : History) :
    ∃ word, DirectiveWord interpreter args node folding directive history word ∧
      (foldChild interpreter node folding branch bound).Says history word := by
  obtain ⟨word, hword, hsaid⟩ := says_runChild h bound history
  obtain ⟨child, hchild⟩ := Run.exists_gives (runChild node branch bound) history .empty
  obtain ⟨attach, hattach⟩ :=
    Run.exists_gives (Run.ofExcept branch.plan.attachDirective) history .detached
  refine ⟨_, .once hchoice hword hchild hattach, ?_⟩
  apply hsaid.bind_gives hchild
  apply Run.says_ofExcept_bind
  intro found hfound
  obtain rfl := hattach found history (Run.ofExcept_ok_iff.mpr ⟨hfound, rfl⟩)
  exact (says_integrate _ _ _ _).bind_silent fun fields later => Run.says_pure _ later

theorem says_foldNothing
    (hchoice : choose node folding.result directive = .ok .nothing) (history : History) :
    ∃ word, DirectiveWord interpreter args node folding directive history word ∧
      (foldNothing interpreter folding directive.2).Says history word := by
  obtain ⟨attach, hattach⟩ :=
    Run.exists_gives (Run.ofExcept directive.2.plan.attachDirective) history .detached
  refine ⟨_, .nothing hchoice hattach, ?_⟩
  apply Run.says_ofExcept_bind
  intro found hfound
  obtain rfl := hattach found history (Run.ofExcept_ok_iff.mpr ⟨hfound, rfl⟩)
  exact (says_integrate _ _ _ _).bind_silent fun fields later => Run.says_pure _ later

theorem says_foldElements (h : Spoken interpreter args node branch) (attach : Attach)
    (result : StepResult) (items : List Value) (history : History) :
    ∃ word, ElementsWord interpreter args node branch attach items history word ∧
      (foldElements interpreter node branch attach result items).Says history word := by
  induction items generalizing result history with
  | nil => exact ⟨[], .nil, Run.says_pure _ history⟩
  | cons element rest ih =>
    unfold foldElements elementResult
    cases hdefault : defaultFor? branch.plan element with
    | some content =>
      obtain ⟨words, hwords, hsaid⟩ := ih result (history ++ callsOf
        (foldWord interpreter.host attach element.entries (.ofContent content)))
      refine ⟨_, .default hdefault hwords, ?_⟩
      show (integrateElement interpreter.host attach element (.ofContent content) >>= _).Says _ _
      apply (says_integrateElement attach element _ history).bind
      intro folded _
      exact hsaid.bind_silent fun out later => Run.says_pure _ later
    | none =>
      obtain ⟨word, hword, hchild⟩ := says_runChild h element history
      obtain ⟨child, hgives⟩ := Run.exists_gives (runChild node branch element) history .empty
      obtain ⟨words, hwords, hsaid⟩ :=
        ih (result.addEffort child interpreter.settings.effortCounters)
          (history ++ callsOf word ++ callsOf
            (foldWord interpreter.host attach element.entries child))
      refine ⟨_, .child hdefault hword hgives hwords, ?_⟩
      dsimp only
      rw [bind_assoc]
      apply hchild.bind_gives hgives
      apply (says_integrateElement attach element child _).bind
      intro folded _
      exact hsaid.bind_silent fun out later => Run.says_pure _ later

theorem says_direct (h : Spoken interpreter args node directive.2)
    (hfallback : ∀ branch, node.fallback = some branch → Spoken interpreter args node branch)
    (folding : Folding) (history : History) :
    ∃ word, DirectiveWord interpreter args node folding directive history word ∧
      (direct interpreter node folding directive).Says history word := by
  rw [direct_eq]
  cases hchoice : choose node folding.result directive with
  | error e => exact ⟨[], .noList hchoice, Run.says_throw e history []⟩
  | ok choice =>
    show ∃ word, DirectiveWord interpreter args node folding directive history word ∧
      (act interpreter node folding directive.2 choice).Says history word
    cases choice with
    | passOver => exact ⟨[], .passOver hchoice, Run.says_pure _ history⟩
    | once branch bound =>
      have hbranch : Spoken interpreter args node branch := by
        rcases (runsOnce_of_choose hchoice).mem with rfl | hplan
        · exact h
        · exact hfallback branch hplan
      exact says_foldChild hbranch hchoice history
    | nothing => exact says_foldNothing hchoice history
    | each list items =>
      obtain ⟨attach, hattach⟩ :=
        Run.exists_gives (Run.ofExcept directive.2.plan.attachDirective) history .detached
      obtain ⟨word, hword, hsaid⟩ := says_foldElements h attach
        (folding.descend interpreter.settings.pageCountFields).result items history
      refine ⟨word, .each hchoice hattach hword, ?_⟩
      apply Run.says_ofExcept_bind
      intro found hfound
      obtain rfl := hattach found history (Run.ofExcept_ok_iff.mpr ⟨hfound, rfl⟩)
      exact hsaid.bind_silent fun out later => Run.says_pure _ later

theorem says_directAll {directives : List (Scope × Branch)}
    (h : ∀ directive ∈ directives, Spoken interpreter args node directive.2)
    (hfallback : ∀ branch, node.fallback = some branch → Spoken interpreter args node branch)
    (folding : Folding) (history : History) :
    ∃ word, DirectivesWord interpreter args node folding directives history word ∧
      (directAll interpreter node folding directives).Says history word := by
  induction directives generalizing folding history with
  | nil => exact ⟨[], .nil, Run.says_pure folding history⟩
  | cons directive rest ih =>
    obtain ⟨first, hfirst, hdirected⟩ :=
      says_direct (h directive (by simp)) hfallback folding history
    obtain ⟨next, hnext⟩ :=
      Run.exists_gives (direct interpreter node folding directive) history folding
    obtain ⟨others, hothers, hsaid⟩ :=
      ih (fun other hother => h other (by simp [hother])) next (history ++ callsOf first)
    exact ⟨first ++ others, .cons hfirst hnext hothers, hdirected.bind_gives hnext hsaid⟩

/-- A run says a word of its plan. -/
theorem says_runPlan (interpreter : Interpreter) (args : List Value) (plan : Plan) :
    ∀ state history, ∃ word,
    NodeWord interpreter args plan state history word ∧
      (runPlan interpreter args plan state).Says history word := by
  induction plan using Plan.induction with
  | h plan hchildren hfallback =>
    intro state history
    obtain ⟨binding, hbinding⟩ := Run.exists_gives
      (Run.ofExcept (plan.validate state interpreter.settings.requiredFields)) history ""
    obtain ⟨first, hfirst, hstepped⟩ := says_runStep interpreter args plan state history
    obtain ⟨own, hown⟩ :=
      Run.exists_gives (runStep interpreter plan state args) history .empty
    let node := nodeOf interpreter args plan state binding own
    have hbranches : ∀ directive ∈ branches interpreter args plan.children,
        Spoken interpreter args node directive.2 := by
      intro directive hdirective bound history
      obtain ⟨child, hchild, hbranch⟩ := mem_branches hdirective
      rw [hbranch]
      exact hchildren child hchild _ history
    have hother : ∀ branch, node.fallback = some branch →
        Spoken interpreter args node branch := by
      intro branch hbranch bound history
      obtain ⟨fallback, hplan, rfl⟩ := fallbackBranch_some hbranch
      exact hfallback fallback hplan _ history
    obtain ⟨rest, hrest, hsaid⟩ :=
      says_directAll hbranches hother node.start (history ++ callsOf first)
    refine ⟨first ++ rest, .node hbinding hfirst hown hrest, ?_⟩
    rw [runPlan_eq]
    apply Run.says_ofExcept_bind
    intro found hfound
    obtain rfl := hbinding found history (Run.ofExcept_ok_iff.mpr ⟨hfound, rfl⟩)
    apply hstepped.bind_gives hown
    exact hsaid.bind_silent fun folding later => Run.says_pure _ later

/-- The calls of a run are a word of its plan, or the first part of one if it fails; and
a call that is refused is the last one, and its text is the error of the run. -/
theorem run_callOrder (interpreter : Interpreter) (plan : Plan) (seed : State)
    (args : List Value) (history : History) :
    ∃ word done, NodeWord interpreter args plan seed history word ∧ done <+: word ∧
      (interpreter.run plan seed args history).2 = history ++ callsOf done ∧
      (∀ result, (interpreter.run plan seed args history).1 = .ok result → done = word) ∧
      ∀ asked prompt later text, done = asked ++ prompt :: later →
        prompt.refusal (history ++ callsOf asked) = some text →
        later = [] ∧ (interpreter.run plan seed args history).1 = .error (.host text) := by
  obtain ⟨word, hword, hsaid⟩ := says_runPlan interpreter args plan seed history
  unfold run
  cases hrun : runPlan interpreter args plan seed history with
  | ok result after =>
    obtain ⟨hanswered, hafter⟩ := hsaid.of_ok hrun
    refine ⟨word, word, hword, List.prefix_refl _, hafter, fun _ _ => rfl, ?_⟩
    rintro asked prompt later text rfl hrefused
    rw [((answered_append _ _ _).mp hanswered).2.1] at hrefused
    cases hrefused
  | error e after =>
    obtain ⟨done, rest, rfl, hbreaks, hafter⟩ := hsaid.of_error hrun
    refine ⟨_, done, hword, List.prefix_append _ _, hafter, ?_, ?_⟩
    · intro result hresult
      cases hresult
    · rintro asked prompt later text rfl hrefused
      obtain ⟨hlast, rfl⟩ := hbreaks.last hrefused
      exact ⟨hlast, rfl⟩

end Interpreter

end PlanFold
