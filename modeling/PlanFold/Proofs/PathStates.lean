import PlanFold.Proofs.FieldMaps
import PlanFold.Proofs.Starts

/-!
# States along a path

A run enters a node with a plan, a state and the calls made until then. `Path`
lists the entries of a run with the ancestors on the way to each, and `Placed`
says what the state of an entry is: the seed with one binding for each
ancestor, and nothing else.

That `Path` leaves no entry out is said by a run that is watched: wherever it
enters a node off every path it may do anything instead, and is still the same
run.
-/

set_option autoImplicit false

namespace PlanFold

theorem State.bindings_bind {state : State} {name : String} (h : state.contains name = false)
    (value : Value) : (state.bind name value).bindings = state.bindings ++ [(name, value)] := by
  apply Fields.insert_of_notMem
  intro hmem
  have hbound : state.contains name = true :=
    (Fields.contains_iff_mem_keys name state.bindings).mpr hmem
  rw [h] at hbound
  cases hbound

theorem Plan.validate_ok {plan : Plan} {state : State} {required : List String} {name : String}
    (h : plan.validate state required = .ok name) :
    plan.binding = .ok name ∧ state.contains name = false := by
  unfold validate at h
  split at h
  · cases h
  · cases hbinding : plan.binding with
    | error e =>
      rw [hbinding] at h
      cases h
    | ok own =>
      rw [hbinding] at h
      cases hbound : state.contains own with
      | true =>
        simp only [bind, Except.bind, hbound] at h
        cases h
      | false =>
        simp only [bind, Except.bind, hbound] at h
        cases h
        exact ⟨rfl, hbound⟩

namespace Interpreter

structure Entry where
  plan : Plan
  state : State
  history : History

structure Ancestor where
  entry : Entry
  binding : String
  bound : Value

inductive Path (interpreter : Interpreter) (args : List Value) (root : Entry) :
    List Ancestor → Entry → Prop
  | root : Path interpreter args root [] root
  | child {trail : List Ancestor} {entry : Entry} {binding : String} {own : StepResult}
      {stepped later : History} {branch : Branch} {bound : Value} :
      Path interpreter args root trail entry →
      entry.plan.validate entry.state interpreter.settings.requiredFields = .ok binding →
      runStep interpreter entry.plan entry.state args entry.history = .ok own stepped →
      Started interpreter (nodeOf interpreter args entry.plan entry.state binding own)
        (branches interpreter args entry.plan.children) stepped branch bound later →
      Path interpreter args root (trail ++ [⟨entry, binding, bound⟩])
        ⟨branch.plan, entry.state.bind binding bound, later⟩

def bindingsOf (trail : List Ancestor) : Fields :=
  trail.map fun ancestor => (ancestor.binding, ancestor.bound)

/-- The state of an entry is the seed with the bindings of its ancestors. -/
structure Placed (interpreter : Interpreter) (args : List Value) (seed : State)
    (trail : List Ancestor) (entry : Entry) : Prop where
  bindings : entry.state.bindings = seed.bindings ++ bindingsOf trail
  names : ∀ ancestor ∈ trail, ancestor.entry.plan.binding = .ok ancestor.binding
  distinct : (trail.map Ancestor.binding).Nodup
  fresh : ∀ ancestor ∈ trail, seed.contains ancestor.binding = false
  size : entry.state.size = seed.size + trail.length
  seedKept : ∀ name value, seed.get? name = some value → entry.state.get? name = some value
  kept : ∀ ancestor ∈ trail, entry.state.get? ancestor.binding = some ancestor.bound
  only : ∀ name, entry.state.contains name = true →
    seed.contains name = true ∨ ∃ ancestor ∈ trail, ancestor.binding = name
  ancestors : ∀ before ancestor after, trail = before ++ ancestor :: after →
    ancestor.entry.state.bindings = seed.bindings ++ bindingsOf before
  own : ∀ name, entry.plan.validate entry.state interpreter.settings.requiredFields = .ok name →
    entry.plan.binding = .ok name ∧ entry.state.contains name = false
  refused : ∀ name, entry.plan.lacking? interpreter.settings.requiredFields = none →
    entry.plan.binding = .ok name → entry.state.contains name = true →
    runPlan interpreter args entry.plan entry.state entry.history =
      .error (.duplicateBinding name) entry.history

variable {interpreter : Interpreter} {args : List Value} {root entry : Entry}
  {trail : List Ancestor}

/-- The one fact that a step down the tree has to preserve. -/
theorem Path.bindings (h : Path interpreter args root trail entry) :
    entry.state.bindings = root.state.bindings ++ bindingsOf trail ∧
      (∀ ancestor ∈ trail, ancestor.entry.plan.binding = .ok ancestor.binding) ∧
      ∀ before ancestor after, trail = before ++ ancestor :: after →
        ancestor.entry.state.bindings = root.state.bindings ++ bindingsOf before := by
  induction h with
  | root =>
    refine ⟨(List.append_nil _).symm, by simp, ?_⟩
    intro before ancestor after htrail
    simp at htrail
  | @child trail entry binding own stepped later branch bound _ hvalid _ _ ih =>
    obtain ⟨hbindings, hnames, hbefore⟩ := ih
    obtain ⟨hname, hnew⟩ := Plan.validate_ok hvalid
    refine ⟨?_, ?_, ?_⟩
    · show (entry.state.bind binding bound).bindings = _
      rw [State.bindings_bind hnew, hbindings, bindingsOf, bindingsOf, List.map_append,
        List.append_assoc]
      rfl
    · intro ancestor hancestor
      rcases List.mem_append.mp hancestor with ha | ha
      · exact hnames ancestor ha
      · rw [List.mem_singleton.mp ha]
        exact hname
    · intro before ancestor after htrail
      rcases List.eq_nil_or_concat after with rfl | ⟨others, last, rfl⟩
      · obtain ⟨rfl, hlast⟩ := List.append_inj' htrail rfl
        cases hlast
        exact hbindings
      · have hsplit : trail ++ [⟨entry, binding, bound⟩] =
            (before ++ ancestor :: others) ++ [last] := by
          rw [htrail]
          simp
        obtain ⟨hfront, _⟩ := List.append_inj' hsplit rfl
        exact hbefore before ancestor others hfront

theorem keys_bindingsOf (trail : List Ancestor) :
    (bindingsOf trail).keys = trail.map Ancestor.binding := by
  simp [bindingsOf, Fields.keys]

theorem refused_of_bound {plan : Plan} {state : State} {history : History} {name : String}
    (hlacking : plan.lacking? interpreter.settings.requiredFields = none)
    (hname : plan.binding = .ok name) (hbound : state.contains name = true) :
    runPlan interpreter args plan state history = .error (.duplicateBinding name) history := by
  have hvalid : plan.validate state interpreter.settings.requiredFields =
      .error (.duplicateBinding name) := by
    unfold Plan.validate
    rw [hlacking, hname]
    simp only [bind, Except.bind, hbound]
    rfl
  rw [runPlan_eq]
  unfold runNode
  rw [hvalid, Run.bind_run]
  rfl

theorem Path.placed (h : Path interpreter args root trail entry) :
    Placed interpreter args root.state trail entry := by
  obtain ⟨hbindings, hnames, hbefore⟩ := h.bindings
  have hkeys : entry.state.bindings.keys =
      root.state.bindings.keys ++ trail.map Ancestor.binding := by
    rw [hbindings, ← keys_bindingsOf]
    exact List.map_append
  have hdistinct : (root.state.bindings.keys ++ trail.map Ancestor.binding).Nodup := by
    rw [← hkeys]
    exact entry.state.distinct
  have hdisjoint := List.nodup_append.mp hdistinct
  exact {
    bindings := hbindings
    names := hnames
    distinct := hdisjoint.2.1
    fresh := by
      intro ancestor hancestor
      cases hseed : root.state.contains ancestor.binding with
      | false => rfl
      | true =>
        have hin := (Fields.contains_iff_mem_keys _ _).mp hseed
        have hbound := List.mem_map_of_mem (f := Ancestor.binding) hancestor
        exact absurd rfl (hdisjoint.2.2 _ hin _ hbound)
    size := by
      show entry.state.bindings.length = root.state.bindings.length + trail.length
      rw [hbindings, List.length_append, bindingsOf, List.length_map]
    seedKept := by
      intro name value hseed
      show entry.state.bindings.get? name = some value
      have hin : root.state.bindings.get? name = some value := hseed
      rw [hbindings, Fields.get?_append, hin]
      rfl
    kept := by
      intro ancestor hancestor
      apply entry.state.distinct.get?_of_mem
      rw [hbindings]
      exact List.mem_append_right _ (List.mem_map.mpr ⟨ancestor, hancestor, rfl⟩)
    only := by
      intro name hcontains
      have hin := (Fields.contains_iff_mem_keys _ _).mp hcontains
      rw [hkeys] at hin
      rcases List.mem_append.mp hin with hs | ht
      · exact .inl ((Fields.contains_iff_mem_keys _ _).mpr hs)
      · exact .inr (List.mem_map.mp ht)
    ancestors := hbefore
    own := by
      intro name hvalid
      exact Plan.validate_ok hvalid
    refused := by
      intro name hlacking hname hbound
      exact refused_of_bound hlacking hname hbound }

theorem Started.below {plan : Plan} {state : State} {binding : String} {own : StepResult}
    {stepped later : History} {branch : Branch} {bound : Value}
    (h : Started interpreter (nodeOf interpreter args plan state binding own)
      (branches interpreter args plan.children) stepped branch bound later) :
    branch.run = runPlan interpreter args branch.plan ∧
      ((∃ child ∈ plan.children, child.2 = branch.plan) ∨ plan.fallback = some branch.plan) := by
  rcases h.mem with ⟨directive, hdirective, rfl⟩ | hfall
  · obtain ⟨child, hchild, heq⟩ := mem_branches hdirective
    rw [heq]
    exact ⟨rfl, .inl ⟨child, hchild, rfl⟩⟩
  · obtain ⟨fallback, hplan, rfl⟩ := fallbackBranch_some hfall
    exact ⟨rfl, .inr hplan⟩

theorem Path.succeeds (h : Path interpreter args root trail entry) {final : StepResult}
    {after : History}
    (hrun : runPlan interpreter args root.plan root.state root.history = .ok final after) :
    ∃ result last,
      runPlan interpreter args entry.plan entry.state entry.history = .ok result last := by
  induction h with
  | root => exact ⟨final, after, hrun⟩
  | child _ hvalid hstep hstarted ih =>
    obtain ⟨result, last, hresult⟩ := ih
    rw [runPlan_eq] at hresult
    obtain ⟨binding', hvalid', hresult⟩ := Run.ofExcept_bind_ok_iff.mp hresult
    rw [hvalid] at hvalid'
    cases hvalid'
    obtain ⟨own', stepped', hstep', hresult⟩ := Run.bind_ok_iff.mp hresult
    rw [hstep] at hstep'
    cases hstep'
    obtain ⟨folding, _, hall, _⟩ := Run.bind_ok_iff.mp hresult
    rw [← hstarted.below.1]
    exact hstarted.succeeds hall

open Classical in
noncomputable def guarded (test : Entry → Prop) (stray : Entry → Run StepResult) (plan : Plan)
    (run : State → Run StepResult) (state : State) : Run StepResult := fun history =>
  if test ⟨plan, state, history⟩ then run state history
  else stray ⟨plan, state, history⟩ history

mutual

noncomputable def watchPlan (interpreter : Interpreter) (args : List Value)
    (test : Entry → Prop) (stray : Entry → Run StepResult) : Plan → State → Run StepResult
  | plan@⟨_, children, _, fallback, _, _, _, _⟩, state =>
    guarded test stray plan (runNode interpreter args plan
      (watchBranches interpreter args test stray children)
      (watchFallback interpreter args test stray fallback)) state

noncomputable def watchBranches (interpreter : Interpreter) (args : List Value)
    (test : Entry → Prop) (stray : Entry → Run StepResult) :
    List (Scope × Plan) → List (Scope × Branch)
  | [] => []
  | (scope, child) :: rest =>
    (scope, ⟨child, fun state => watchPlan interpreter args test stray child state⟩) ::
      watchBranches interpreter args test stray rest

noncomputable def watchFallback (interpreter : Interpreter) (args : List Value)
    (test : Entry → Prop) (stray : Entry → Run StepResult) : Option Plan → Option Branch
  | none => none
  | some plan => some ⟨plan, fun state => watchPlan interpreter args test stray plan state⟩

end

section watch

variable {test : Entry → Prop} {stray : Entry → Run StepResult}

theorem watchBranches_eq (children : List (Scope × Plan)) :
    watchBranches interpreter args test stray children =
      (branches interpreter args children).map
        (retie (watchPlan interpreter args test stray)) := by
  induction children with
  | nil => rfl
  | cons child rest ih =>
    show (child.1, _) :: watchBranches interpreter args test stray rest = _
    rw [ih]
    rfl

theorem watchFallback_eq (fallback : Option Plan) :
    watchFallback interpreter args test stray fallback =
      (fallbackBranch interpreter args fallback).map
        (Branch.retie (watchPlan interpreter args test stray)) := by
  cases fallback <;> rfl

theorem watchPlan_eq (plan : Plan) (state : State) :
    watchPlan interpreter args test stray plan state =
      guarded test stray plan (runNode interpreter args plan
        ((branches interpreter args plan.children).map
          (retie (watchPlan interpreter args test stray)))
        ((fallbackBranch interpreter args plan.fallback).map
          (Branch.retie (watchPlan interpreter args test stray)))) state := by
  cases plan
  rw [watchPlan, watchBranches_eq, watchFallback_eq]

/-- A node whose branches are watched runs as it does unwatched, if every branch
it starts does. -/
theorem runNode_watched {plan : Plan} {state : State} {history : History}
    (h : ∀ binding own stepped branch bound later,
      plan.validate state interpreter.settings.requiredFields = .ok binding →
      runStep interpreter plan state args history = .ok own stepped →
      Started interpreter (nodeOf interpreter args plan state binding own)
        (branches interpreter args plan.children) stepped branch bound later →
      watchPlan interpreter args test stray branch.plan (state.bind binding bound) later =
        branch.run (state.bind binding bound) later) :
    runNode interpreter args plan
        ((branches interpreter args plan.children).map
          (retie (watchPlan interpreter args test stray)))
        ((fallbackBranch interpreter args plan.fallback).map
          (Branch.retie (watchPlan interpreter args test stray))) state history =
      runPlan interpreter args plan state history := by
  rw [runPlan_eq]
  unfold runNode
  refine Run.bind_congr rfl ?_
  intro binding between hbinding
  obtain ⟨hvalid, rfl⟩ := Run.ofExcept_ok_iff.mp hbinding
  refine Run.bind_congr rfl ?_
  intro own stepped hstep
  exact fanOut_retie fun branch bound later hstarted =>
    h binding own stepped branch bound later hvalid hstep hstarted

end watch

/-- A watched run is the run: it enters no node that is not on a path. -/
theorem watchPlan_paths (root : Entry) (stray : Entry → Run StepResult) (plan : Plan) :
    ∀ trail state history, Path interpreter args root trail ⟨plan, state, history⟩ →
      watchPlan interpreter args (fun entry => ∃ trail, Path interpreter args root trail entry)
        stray plan state history = runPlan interpreter args plan state history := by
  induction plan using Plan.induction with
  | h plan hchildren hfallback =>
    intro trail state history hpath
    rw [watchPlan_eq, guarded, if_pos ⟨trail, hpath⟩]
    apply runNode_watched
    intro binding own stepped branch bound later hvalid hstep hstarted
    have hnext := Path.child hpath hvalid hstep hstarted
    -- the started branch runs a plan below this one, where the induction applies
    obtain ⟨heq, ⟨child, hchild, hbelow⟩ | hbelow⟩ := hstarted.below
    · rw [heq]
      rw [← hbelow] at hnext ⊢
      exact hchildren child hchild _ _ _ hnext
    · rw [heq]
      exact hfallback branch.plan hbelow _ _ _ hnext

/-- Every entry on a path has the seed and the bindings of its ancestors for a
state, and a run enters nodes on paths only: whatever else is done elsewhere,
the run is the same. -/
theorem runPlan_on_paths (interpreter : Interpreter) (args : List Value) (plan : Plan)
    (seed : State) (history : History) :
    (∀ trail entry, Path interpreter args ⟨plan, seed, history⟩ trail entry →
      Placed interpreter args seed trail entry) ∧
    ∀ stray, watchPlan interpreter args
        (fun entry => ∃ trail, Path interpreter args ⟨plan, seed, history⟩ trail entry)
        stray plan seed history =
      runPlan interpreter args plan seed history := by
  constructor
  · intro trail entry hpath
    exact hpath.placed
  · intro stray
    exact watchPlan_paths ⟨plan, seed, history⟩ stray plan [] seed history .root

end Interpreter

end PlanFold
