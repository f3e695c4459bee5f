import Mathlib.Data.List.Forall2
import PlanFold.Proofs.Pairings

/-!
# Runs side by side

Two runs that go through the same nodes are compared by a pairing. Where no
plan tells them apart, one run succeeds where the other does, with a related
result; and in the strict sense it fails where the other does, with the same
error. That is shown for each part of fan-out, and for whole runs by induction
on the tree.
-/

set_option autoImplicit false

namespace PlanFold

section walk

variable {host : Host} {settings settings' : Settings} {pair : Pairing host settings settings'}
  {args : List Value}

namespace Interpreter

theorem container_sim {state state' : State} {name : String}
    (h : state.get? name = state'.get? name) :
    pair.Sim Eq (container host state args name) (container host state' args name) := by
  refine (pair.sim_callHook fun f hf _ _ hlogs =>
    pair.steady.unpack f hf hlogs name args).bind_eq fun supplied => ?_
  rw [← h]
  split
  · exact Run.sim_pure rfl
  · exact Run.sim_pure rfl
  · exact Run.sim_ofExcept (.error (.unknownContainer name))

theorem resolveFields_sim {state state' : State} {fields : Fields}
    (h : ∀ name value reference, (name, value) ∈ fields → isStructural name = false →
      Reference.ofValue value = .ok (some reference) →
      state.get? reference.container = state'.get? reference.container) :
    pair.Sim Eq (resolveFields host state args fields) (resolveFields host state' args fields) := by
  induction fields with
  | nil => exact Run.sim_pure rfl
  | cons field rest ih =>
    obtain ⟨name, value⟩ := field
    have hfield : pair.Sim Eq (resolveField host state args name value)
        (resolveField host state' args name value) := by
      unfold resolveField
      split
      · exact Run.sim_pure rfl
      · rename_i hstructural
        split
        · exact Run.sim_ofExcept (.error (.invalidReference name _))
        · exact Run.sim_pure rfl
        · rename_i reference href
          have hsame := h name value reference (by simp) (by simpa using hstructural) href
          refine (container_sim hsame).bind_eq fun found => ?_
          refine (Run.sim_ofExcept_self _).bind_eq fun resolved => ?_
          exact Run.sim_ofExcept_self _
    refine hfield.bind_eq fun resolved => ?_
    have hrest := ih fun name value reference hmem => h name value reference (by simp [hmem])
    refine hrest.bind_eq fun others => ?_
    exact Run.sim_pure rfl

theorem prepare_sim {plan plan' : Plan} (htrunk : plan.SameTrunk plan') (hsuits : pair.Suits plan)
    {state state' : State} (hstates : pair.states state state') :
    pair.Sim Eq (prepare host plan state args) (prepare host plan' state' args) := by
  obtain ⟨children, fallback, rfl⟩ := htrunk
  have hresolved : pair.Sim Eq (resolveFields host state args plan.fields)
      (resolveFields host state' args plan.fields) :=
    resolveFields_sim fun name value reference hmem hstructural href =>
      hsuits.reads reference ⟨name, value, hmem, hstructural, href⟩ hstates
  refine hresolved.bind_eq fun fields => ?_
  cases hhook : host.interpolate with
  | none => exact Run.sim_pure rfl
  | some f =>
    -- the hook is shown the state, so the two are the same
    obtain rfl := pair.sameStates (by simp [hhook]) hstates
    exact pair.sim_call fun hlogs => pair.steady.interpolate f hhook hlogs _ _ _

theorem validate_eq {plan plan' : Plan} (htrunk : plan.SameTrunk plan') (hsuits : pair.Suits plan)
    {state state' : State} (hstates : pair.states state state') :
    plan.validate state settings.requiredFields =
      plan'.validate state' settings'.requiredFields := by
  obtain ⟨children, fallback, rfl⟩ := htrunk
  have hbinding : Plan.binding { plan with children := children, fallback := fallback } =
      plan.binding := rfl
  have hlacking : Plan.lacking? { plan with children := children, fallback := fallback } =
      plan.lacking? := rfl
  unfold Plan.validate
  rw [← pair.respect.required, hbinding, hlacking]
  cases plan.lacking? settings.requiredFields with
  | some field => rfl
  | none =>
    cases hname : plan.binding with
    | error e => rfl
    | ok name => simp only [bind, Except.bind, hsuits.fresh name hname hstates]

theorem integrate_self_sim (attach : Attach) (target : Fields) (source : StepResult) :
    pair.Sim Eq (integrate host attach target source) (integrate host attach target source) := by
  unfold integrate
  split
  · exact Run.sim_pure rfl
  · refine (Run.sim_ofExcept_self _).bind_eq fun payload => ?_
    refine (Run.sim_ofExcept_self _).bind_eq fun _ => ?_
    refine (pair.sim_callHook fun f hf _ _ hlogs =>
      pair.steady.mergeDown f hf hlogs _ _).bind_eq fun changed => ?_
    exact Run.sim_ofExcept_self _

theorem integrate_source (pair : Pairing host settings settings') {source source' : StepResult}
    (h : pair.Results source source') (attach : Attach) (target : Fields) :
    integrate host attach target source = integrate host attach target source' := by
  by_cases hhook : host.mergeDown = none
  · exact integrate_source_congr hhook h.content (pair.respect.newest_eq h) attach target
  · have hmetadata := pair.sameResults hhook
    rw [Pairing.Results, hmetadata] at h
    rw [h.eq]

theorem integrate_sim (attach : Attach) {target target' : Fields} {source source' : StepResult}
    (htarget : pair.Results ⟨target⟩ ⟨target'⟩) (hsource : pair.Results source source')
    (hcontent : target.contains "content" = true) :
    pair.Sim (fun out out' => pair.Results ⟨out⟩ ⟨out'⟩)
      (integrate host attach target source) (integrate host attach target' source') := by
  rw [← integrate_source pair hsource]
  by_cases hhook : host.mergeDown = none
  · rw [integrate_eq hhook, integrate_eq hhook]
    split
    · exact Run.sim_pure htarget
    · exact Run.sim_ofExcept (pair.respect.foldInto_outcome ‹_› htarget hcontent source)
  · have hmetadata := pair.sameResults hhook
    rw [Pairing.Results, hmetadata] at htarget
    cases htarget.eq
    rw [← bind_pure (integrate host attach target source)]
    refine (integrate_self_sim attach target source).bind_eq fun out => ?_
    exact Run.sim_pure (.refl _)

theorem integrateElement_sim (attach : Attach) (element : Value) {source source' : StepResult}
    (hsource : pair.Results source source') :
    pair.Sim Eq (integrateElement host attach element source)
      (integrateElement host attach element source') := by
  unfold integrateElement
  split
  · rw [← integrate_source pair hsource]
    refine (integrate_self_sim attach _ source).bind_eq fun out => ?_
    exact Run.sim_pure rfl
  · split
    · exact Run.sim_pure rfl
    · exact Run.sim_ofExcept (.error (.incompatibleTarget attach.mode.name _))

end Interpreter

open Interpreter

structure BranchSim (pair : Pairing host settings settings') (branch branch' : Branch) : Prop where
  trunk : branch.plan.SameTrunk branch'.plan
  steady : pair.Steady branch.plan
  run : ∀ {state state'}, pair.states state state' →
    pair.Sim pair.Results (branch.run state) (branch'.run state')

def DirectiveSim (pair : Pairing host settings settings') (directive directive' : Scope × Branch) :
    Prop :=
  directive.1 = directive'.1 ∧ BranchSim pair directive.2 directive'.2

structure BindingSim (pair : Pairing host settings settings') (node node' : Node) : Prop where
  binding : node.binding = node'.binding
  states : pair.states node.state node'.state
  args : node.args = node'.args

structure NodeSim (pair : Pairing host settings settings') (node node' : Node) : Prop
    extends BindingSim pair node node' where
  trunk : node.plan.SameTrunk node'.plan
  own : node.own = node'.own
  fallback : Option.Rel (BranchSim pair) node.fallback node'.fallback

structure FoldingSim (pair : Pairing host settings settings') (folding folding' : Folding) :
    Prop where
  result : pair.Results folding.result folding'.result
  descend : pair.Results (folding.descend settings.pageCountFields).result
    (folding'.descend settings'.pageCountFields).result

inductive ChoiceSim (pair : Pairing host settings settings') : Choice → Choice → Prop
  | passOver : ChoiceSim pair .passOver .passOver
  | once {branch branch' : Branch} (bound : Value) :
      BranchSim pair branch branch' → ChoiceSim pair (.once branch bound) (.once branch' bound)
  | nothing : ChoiceSim pair .nothing .nothing
  | each (list : String) (items : List Value) :
      ChoiceSim pair (.each list items) (.each list items)

variable {node node' : Node} {folding folding' : Folding} {branch branch' : Branch}
  {directive directive' : Scope × Branch} {result result' : StepResult}

theorem FoldingSim.settled (h : pair.Results result result') (pending : Bool) :
    FoldingSim pair ⟨result, pending⟩ ⟨result', pending⟩ := by
  refine ⟨h, ?_⟩
  unfold Folding.descend
  split
  · exact pair.respect.zeroPageCounts h
  · exact h

theorem chooseFirst_sim (hnode : NodeSim pair node node') (h : BranchSim pair branch branch')
    (items : List Value) :
    ChoiceSim pair (chooseFirst node branch items) (chooseFirst node' branch' items) := by
  have hpartition : node.plan.partition = node'.plan.partition := by
    obtain ⟨children, fallback, hplan⟩ := hnode.trunk
    rw [hplan]
  unfold chooseFirst
  rw [← hpartition]
  cases items.find? (Selection.isPrimary node.plan.partition) with
  | some element => exact .once element h
  | none =>
    cases items with
    | nil => exact .nothing
    | cons item rest =>
      rw [← hnode.own]
      generalize hfallback : node.fallback = fallback, hfallback' : node'.fallback = fallback'
      have hrel := hnode.fallback
      rw [hfallback, hfallback'] at hrel
      cases hrel with
      | none => exact .nothing
      | some hbranch => exact .once _ hbranch

theorem choose_sim (hnode : NodeSim pair node node') (hresult : pair.Results result result')
    (h : DirectiveSim pair directive directive') :
    SameOutcome (ChoiceSim pair) (choose node result directive)
      (choose node' result' directive') := by
  obtain ⟨scope, branch⟩ := directive
  obtain ⟨scope', branch'⟩ := directive'
  obtain ⟨rfl, hbranch⟩ : scope = scope' ∧ BranchSim pair branch branch' := h
  have hlist : ∀ (list : String) {f f' : List Value → Choice},
      (∀ items, ChoiceSim pair (f items) (f' items)) → SameOutcome (ChoiceSim pair)
        ((listItems result list).map fun items => items.elim .passOver f)
        ((listItems result' list).map fun items => items.elim .passOver f') := by
    intro list f f' hf
    unfold listItems
    rw [← hresult.content]
    split
    · exact .ok .passOver
    · exact .ok .passOver
    · exact .ok (hf _)
    · exact .error _
  unfold choose
  cases scope with
  | this =>
    rw [← hresult.content]
    refine .ok ?_
    split
    · exact .passOver
    · exact .once _ hbranch
  | first list => exact hlist list (chooseFirst_sim hnode hbranch)
  | each list => exact hlist list (.each list)

theorem attachDirective_eq (h : branch.plan.SameTrunk branch'.plan) :
    branch.plan.attachDirective = branch'.plan.attachDirective := by
  obtain ⟨children, fallback, hplan⟩ := h
  rw [hplan]
  rfl

theorem runChild_sim (hnode : BindingSim pair node node') (h : BranchSim pair branch branch')
    (bound : Value) :
    pair.Sim pair.Results (runChild node branch bound) (runChild node' branch' bound) := by
  have hasked : pair.Sim Eq (askDefault node branch bound) (askDefault node' branch' bound) := by
    obtain ⟨children, fallback, hplan⟩ := h.trunk
    unfold askDefault
    rw [hplan, ← hnode.args]
    exact pair.sim_callHook fun hook hhook _ _ hlogs => h.steady hook hhook hlogs bound node.args
  rw [runChild_eq, runChild_eq]
  refine hasked.bind_eq fun computed => ?_
  cases computed with
  | some result => exact Run.sim_pure (.refl result)
  | none =>
    rw [← hnode.binding]
    exact h.run (pair.bound _ _ hnode.states)

theorem foldChild_sim (hnode : NodeSim pair node node') (h : BranchSim pair branch branch')
    (hfolding : FoldingSim pair folding folding') (bound : Value)
    (hcontent : folding.result.fields.contains "content" = true) :
    pair.Sim (FoldingSim pair) (foldChild ⟨host, settings⟩ node folding branch bound)
      (foldChild ⟨host, settings'⟩ node' folding' branch' bound) := by
  refine (runChild_sim hnode.toBindingSim h bound).bind fun child child' hchild => ?_
  rw [← attachDirective_eq h.trunk]
  refine (Run.sim_ofExcept_self _).bind_eq fun attach => ?_
  have hwrapped : ((folding.descend settings.pageCountFields).result.addEffort child
      settings.effortCounters).fields.contains "content" = true := by
    rw [← hcontent]
    exact contains_received folding _ _ [child] "content"
  refine (integrate_sim attach (pair.respect.addEffort hfolding.descend hchild) hchild
    hwrapped).bind fun out out' hout => ?_
  rw [skipPending_descend, skipPending_descend]
  exact Run.sim_pure (.settled hout false)

theorem foldElements_sim (hnode : NodeSim pair node node') (h : BranchSim pair branch branch')
    (attach : Attach) (hresult : pair.Results result result') (items : List Value) :
    pair.Sim (fun out out' => pair.Results out.1 out'.1 ∧ out.2 = out'.2)
      (foldElements ⟨host, settings⟩ node branch attach result items)
      (foldElements ⟨host, settings'⟩ node' branch' attach result' items) := by
  induction items generalizing result result' with
  | nil => exact Run.sim_pure ⟨hresult, rfl⟩
  | cons element rest ih =>
    have helement : pair.Sim
        (fun out out' => pair.Results out.1 out'.1 ∧ pair.Results out.2 out'.2)
        (elementResult ⟨host, settings⟩ node branch result element)
        (elementResult ⟨host, settings'⟩ node' branch' result' element) := by
      have hdefault : defaultFor? branch.plan element = defaultFor? branch'.plan element := by
        obtain ⟨children, fallback, hplan⟩ := h.trunk
        rw [hplan]
        rfl
      unfold elementResult
      rw [← hdefault]
      split
      · exact Run.sim_pure ⟨.refl _, hresult⟩
      · refine (runChild_sim hnode.toBindingSim h element).bind fun child child' hchild => ?_
        exact Run.sim_pure ⟨hchild, pair.respect.addEffort hresult hchild⟩
    unfold foldElements
    refine helement.bind fun answer answer' hanswer => ?_
    refine (integrateElement_sim attach element hanswer.1).bind_eq fun folded => ?_
    refine (ih hanswer.2).bind fun out out' hout => ?_
    exact Run.sim_pure ⟨hout.1, by rw [hout.2]⟩

/-- A directive goes the same way in both runs. -/
theorem direct_sim (hnode : NodeSim pair node node') (h : DirectiveSim pair directive directive')
    (hfolding : FoldingSim pair folding folding') :
    pair.Sim (FoldingSim pair) (direct ⟨host, settings⟩ node folding directive)
      (direct ⟨host, settings'⟩ node' folding' directive') := by
  rw [direct_eq, direct_eq]
  generalize hchoice : choose node folding.result directive = chosen,
    hchoice' : choose node' folding'.result directive' = chosen'
  have hchosen := choose_sim hnode hfolding.result h
  rw [hchoice, hchoice'] at hchosen
  cases hchosen with
  | error e => exact Run.sim_ofExcept (.error e)
  | ok hsim =>
    cases hsim with
    | passOver => exact Run.sim_pure (.settled hfolding.result false)
    | once bound hbranch =>
      exact foldChild_sim hnode hbranch hfolding bound (contains_of_choose hchoice (by simp))
    | nothing =>
      show pair.Sim _ (foldNothing ⟨host, settings⟩ folding directive.2)
        (foldNothing ⟨host, settings'⟩ folding' directive'.2)
      unfold foldNothing
      rw [← attachDirective_eq h.2.trunk]
      refine (Run.sim_ofExcept_self _).bind_eq fun attach => ?_
      refine (integrate_sim attach hfolding.result (.refl .empty)
        (contains_of_choose hchoice (by simp))).bind fun out out' hout => ?_
      exact Run.sim_pure (.settled hout false)
    | each list items =>
      show pair.Sim _ (foldEach ⟨host, settings⟩ node folding directive.2 list items)
        (foldEach ⟨host, settings'⟩ node' folding' directive'.2 list items)
      unfold foldEach
      rw [← attachDirective_eq h.2.trunk]
      refine (Run.sim_ofExcept_self _).bind_eq fun attach => ?_
      refine (foldElements_sim hnode h.2 attach hfolding.descend items).bind ?_
      rintro ⟨result, others⟩ ⟨result', _⟩ ⟨hresult, rfl⟩
      dsimp only
      rw [skipPending_descend, skipPending_descend]
      exact Run.sim_pure (.settled (hresult.setList list others) false)

theorem directAll_sim (hnode : NodeSim pair node node')
    {directives directives' : List (Scope × Branch)}
    (h : List.Forall₂ (DirectiveSim pair) directives directives')
    (hfolding : FoldingSim pair folding folding') :
    pair.Sim (FoldingSim pair) (directAll ⟨host, settings⟩ node folding directives)
      (directAll ⟨host, settings'⟩ node' folding' directives') := by
  induction h generalizing folding folding' with
  | nil => exact Run.sim_pure hfolding
  | cons hdirective _ ih =>
    exact (direct_sim hnode hdirective hfolding).bind fun _ _ hnext => ih hnext

theorem start_sim (hnode : NodeSim pair node node') :
    FoldingSim pair node.start node'.start := by
  obtain ⟨children, fallback, hplan⟩ := hnode.trunk
  unfold Node.start
  rw [hplan, ← hnode.own]
  exact .settled (.refl _) _

variable {plan plan' : Plan} {state state' : State}

theorem runStep_sim (htrunk : plan.SameTrunk plan') (hsuits : pair.Suits plan)
    (hstates : pair.states state state') :
    pair.Sim Eq (runStep ⟨host, settings⟩ plan state args)
      (runStep ⟨host, settings'⟩ plan' state' args) := by
  have hrules : plan.failRules = plan'.failRules := by
    obtain ⟨children, fallback, rfl⟩ := htrunk
    rfl
  unfold runStep
  refine (prepare_sim htrunk hsuits hstates).bind_eq fun step => ?_
  refine (pair.sim_call fun hlogs => pair.steady.run hlogs step args).bind_eq fun raw => ?_
  rw [← hrules]
  refine (Run.sim_ofExcept_self _).bind_eq fun _ => ?_
  exact pair.sim_callHook fun f hf _ _ hlogs => pair.steady.post f hf hlogs _ _

theorem stages_sim (htrunk : plan.SameTrunk plan') (hsuits : pair.Suits plan)
    (hstates : pair.states state state') {rest rest' : String → StepResult → Run Folding}
    (h : ∀ binding own, pair.Sim (FoldingSim pair) (rest binding own) (rest' binding own)) :
    pair.Sim pair.Results
      (do
        let binding ← Run.ofExcept (plan.validate state settings.requiredFields)
        let own ← runStep ⟨host, settings⟩ plan state args
        let folding ← rest binding own
        pure (folding.close ⟨host, settings⟩))
      (do
        let binding ← Run.ofExcept (plan'.validate state' settings'.requiredFields)
        let own ← runStep ⟨host, settings'⟩ plan' state' args
        let folding ← rest' binding own
        pure (folding.close ⟨host, settings'⟩)) := by
  rw [← validate_eq htrunk hsuits hstates]
  refine (Run.sim_ofExcept_self _).bind_eq fun binding => ?_
  refine (runStep_sim htrunk hsuits hstates).bind_eq fun own => ?_
  exact (h binding own).bind fun _ _ hfolding => Run.sim_pure hfolding.descend

theorem runNode_sim (htrunk : plan.SameTrunk plan') (hsuits : pair.Suits plan)
    (hstates : pair.states state state') {directives directives' : List (Scope × Branch)}
    (h : List.Forall₂ (DirectiveSim pair) directives directives')
    {fallback fallback' : Option Branch}
    (hfallback : Option.Rel (BranchSim pair) fallback fallback') :
    pair.Sim pair.Results (runNode ⟨host, settings⟩ args plan directives fallback state)
      (runNode ⟨host, settings'⟩ args plan' directives' fallback' state') := by
  refine stages_sim htrunk hsuits hstates fun binding own => ?_
  have hnode : NodeSim pair ⟨plan, binding, state, args, own, fallback⟩
      ⟨plan', binding, state', args, own, fallback'⟩ :=
    ⟨⟨rfl, hstates, rfl⟩, htrunk, rfl, hfallback⟩
  exact directAll_sim hnode h (start_sim hnode)

/-- Nodes that go on alike below them are branches that go on alike. -/
theorem runNode_branchSim (htrunk : plan.SameTrunk plan') (hsuits : pair.Suits plan)
    {directives directives' : List (Scope × Branch)}
    (h : List.Forall₂ (DirectiveSim pair) directives directives')
    {fallback fallback' : Option Branch}
    (hfallback : Option.Rel (BranchSim pair) fallback fallback') :
    BranchSim pair ⟨plan, runNode ⟨host, settings⟩ args plan directives fallback⟩
      ⟨plan', runNode ⟨host, settings'⟩ args plan' directives' fallback'⟩ where
  trunk := htrunk
  steady := hsuits.steady
  run hstates := runNode_sim htrunk hsuits hstates h hfallback

theorem branches_sim {children : List (Scope × Plan)}
    (h : ∀ child ∈ children, BranchSim pair ⟨child.2, runPlan ⟨host, settings⟩ args child.2⟩
      ⟨child.2, runPlan ⟨host, settings'⟩ args child.2⟩) :
    List.Forall₂ (DirectiveSim pair) (branches ⟨host, settings⟩ args children)
      (branches ⟨host, settings'⟩ args children) := by
  rw [branches_eq, branches_eq, List.forall₂_map_left_iff, List.forall₂_map_right_iff]
  exact List.forall₂_same.mpr fun child hchild => ⟨rfl, h child hchild⟩

theorem fallback_sim {fallback : Option Plan}
    (h : ∀ other, fallback = some other → BranchSim pair
      ⟨other, runPlan ⟨host, settings⟩ args other⟩
      ⟨other, runPlan ⟨host, settings'⟩ args other⟩) :
    Option.Rel (BranchSim pair) (fallbackBranch ⟨host, settings⟩ args fallback)
      (fallbackBranch ⟨host, settings'⟩ args fallback) := by
  cases fallback with
  | none => exact .none
  | some other => exact .some (h other rfl)

/-- A tree in which no plan tells the runs apart goes on alike in related states. -/
theorem runPlan_sim (plan : Plan) (h : ∀ node, plan.Has node → pair.Suits node) :
    BranchSim pair ⟨plan, runPlan ⟨host, settings⟩ args plan⟩
      ⟨plan, runPlan ⟨host, settings'⟩ args plan⟩ := by
  induction plan using Plan.induction with
  | h plan hchildren hfallback =>
    rw [runPlan_branch, runPlan_branch]
    refine runNode_branchSim (.refl plan) (h plan (.self plan)) (branches_sim ?_)
      (fallback_sim ?_)
    · exact fun child hchild => hchildren child hchild fun node hnode =>
        h node (.child hchild hnode)
    · exact fun other hplan => hfallback other hplan fun node hnode =>
        h node (.fallback hplan hnode)

theorem children_sim (h : ∀ node, plan.Has node → pair.Suits node) :
    List.Forall₂ (DirectiveSim pair) (branches ⟨host, settings⟩ args plan.children)
      (branches ⟨host, settings'⟩ args plan.children) :=
  branches_sim fun child hchild =>
    runPlan_sim child.2 fun node hnode => h node (.child hchild hnode)

theorem ownFallback_sim (h : ∀ node, plan.Has node → pair.Suits node) :
    Option.Rel (BranchSim pair) (fallbackBranch ⟨host, settings⟩ args plan.fallback)
      (fallbackBranch ⟨host, settings'⟩ args plan.fallback) :=
  fallback_sim fun other hplan =>
    runPlan_sim other fun node hnode => h node (.fallback hplan hnode)

/-- Where histories are compared by equality, a strict comparison is one of whole runs. -/
theorem run_sim (hlogs : pair.logs = Eq) (hstrict : pair.strict) {plan : Plan}
    (h : ∀ node, plan.Has node → pair.Suits node) (hstates : pair.states state state')
    (history : History) :
    (run ⟨host, settings⟩ plan state args history).2 =
        (run ⟨host, settings'⟩ plan state' args history).2 ∧
      SameOutcome pair.Results (run ⟨host, settings⟩ plan state args history).1
        (run ⟨host, settings'⟩ plan state' args history).1 := by
  have hsim : pair.Sim pair.Results (runPlan ⟨host, settings⟩ args plan state)
      (runPlan ⟨host, settings'⟩ args plan state') := (runPlan_sim plan h).run hstates
  have hrefl : pair.logs history history := by rw [hlogs]
  unfold run
  cases hrun : runPlan ⟨host, settings⟩ args plan state history with
  | ok result after =>
    obtain ⟨result', after', hrun', hrel, honward⟩ := hsim.ok hrefl hrun
    have hafter := honward.logs
    rw [hlogs] at hafter
    rw [hrun', hafter]
    exact ⟨rfl, .ok hrel⟩
  | error e after =>
    obtain ⟨after', hrun', honward⟩ := hsim.error hstrict hrefl hrun
    have hafter := honward.logs
    rw [hlogs] at hafter
    rw [hrun', hafter]
    exact ⟨rfl, .error e⟩

end walk

end PlanFold
