import PlanFold.Proofs.HiddenCounters
import PlanFold.Proofs.Simulation

/-!
# Detached children

A child whose directive is detached leaves nothing behind but counts. The run
of a tree is compared with the run of the tree from which one such directive is
deleted: the second run makes the calls of the first but those under the
directive, and the results are alike apart from effort and page counters.

Which calls are made under a directive is said by a run that edits them: it is
the run itself, except that at one place of the tree the calls made since the
directive was begun are exchanged for others on record.
-/

set_option autoImplicit false

namespace PlanFold

/-- Where a directive stands in a tree: at the root, below the child of one of its
directives, or below its fallback. -/
inductive Place where
  | here (index : Nat)
  | child (index : Nat) (below : Place)
  | fallback (below : Place)

namespace Plan

def site? : Place → Plan → Option (Plan × Scope × Plan)
  | .here index, plan => plan.children[index]?.map fun directive => (plan, directive)
  | .child index below, plan => plan.children[index]?.bind fun directive => site? below directive.2
  | .fallback below, plan => plan.fallback.bind (site? below)

def delete : Place → Plan → Plan
  | .here index, plan => { plan with children := plan.children.eraseIdx index }
  | .child index below, plan =>
    { plan with children := plan.children.modify index fun directive =>
      (directive.1, delete below directive.2) }
  | .fallback below, plan => { plan with fallback := plan.fallback.map (delete below) }

def Detached (plan : Plan) : Prop :=
  ∃ attach, plan.attachDirective = .ok attach ∧ attach.mode = .detached

end Plan

def Run.edited {α : Type} (edit : History → History) (x : Run α) : Run α := fun history =>
  match x history with
  | .ok a after => .ok a (history ++ edit (after.drop history.length))
  | .error e after => .error e (history ++ edit (after.drop history.length))

theorem Run.Sim.edited {α β : Type} {strict : Prop} {logs : History → History → Prop}
    {R : α → β → Prop} {x : Run α} {y : Run β} {edit : History → History}
    (hedit : ∀ history history' made made', logs history history' →
      logs (history ++ made) (history' ++ made') →
      logs (history ++ made) (history' ++ edit made'))
    (h : Run.Sim strict logs R x y) : Run.Sim strict logs R x (Run.edited edit y) where
  ok {history history' a after} hlogs hrun := by
    obtain ⟨b, after', hb, hab, hafter, ⟨made, rfl⟩, made', rfl⟩ := h.ok hlogs hrun
    refine ⟨b, history' ++ edit made', ?_, hab, .append (hedit _ _ _ _ hlogs hafter)⟩
    unfold Run.edited
    rw [hb]
    simp only [List.drop_left]
  error hstrict {history history' e after} hlogs hrun := by
    obtain ⟨_, he, hafter, ⟨made, rfl⟩, made', rfl⟩ := h.error hstrict hlogs hrun
    refine ⟨history' ++ edit made', ?_, .append (hedit _ _ _ _ hlogs hafter)⟩
    unfold Run.edited
    rw [he]
    simp only [List.drop_left]

namespace Interpreter

def directEdited (interpreter : Interpreter) (edit : History → History) (node : Node)
    (index : Nat) (folding : Folding) (directives : List (Scope × Branch)) : Run Folding := do
  let folding ← directAll interpreter node folding (directives.take index)
  let folding ← Run.edited edit (directAll interpreter node folding directives[index]?.toList)
  directAll interpreter node folding (directives.drop (index + 1))

/-- Run a tree, the calls made under the directive at a place being edited. -/
def runEdited (interpreter : Interpreter) (args : List Value) (edit : History → History) :
    Place → Plan → State → Run StepResult
  | .here index, plan, state => do
    let binding ← Run.ofExcept (plan.validate state interpreter.settings.requiredFields)
    let own ← runStep interpreter plan state args
    let node := nodeOf interpreter args plan state binding own
    let folding ← directEdited interpreter edit node index node.start
      (branches interpreter args plan.children)
    pure (folding.close interpreter)
  | .child index below, plan, state =>
    runNode interpreter args plan
      ((branches interpreter args plan.children).modify index
        (retie (runEdited interpreter args edit below)))
      (fallbackBranch interpreter args plan.fallback) state
  | .fallback below, plan, state =>
    runNode interpreter args plan (branches interpreter args plan.children)
      ((fallbackBranch interpreter args plan.fallback).map
        (Branch.retie (runEdited interpreter args edit below))) state

variable {interpreter : Interpreter} {args : List Value} {node : Node}

theorem folded_detached {branch : Branch} {attach : Attach} (hmode : attach.mode = .detached)
    {items others : List Value} {result result' : StepResult} {received : List StepResult}
    {history after : History}
    (h : Folded interpreter node branch attach result items history received result' others
      after) : others = items := by
  have helement : ∀ {element folded : Value} {child : StepResult} {history after : History},
      integrateElement interpreter.host attach element child history = .ok folded after →
      folded = element := by
    intro element folded child history after h
    unfold integrateElement integrate at h
    simp only [hmode, if_true] at h
    split at h
    · obtain ⟨fields, _, hfields, h⟩ := Run.bind_ok_iff.mp h
      obtain ⟨rfl, _⟩ := Run.pure_ok_iff.mp hfields
      exact (Run.pure_ok_iff.mp h).1.symm
    · exact (Run.pure_ok_iff.mp h).1.symm
  induction h with
  | nil => rfl
  | default _ hfolded _ ih => rw [helement hfolded, ih]
  | child _ _ hfolded _ ih => rw [helement hfolded, ih]

theorem setList_self {result : StepResult} {list : String} {items : List Value}
    (h : result.content.field? list = some (.list items)) :
    setList result list items = result := by
  unfold setList
  cases hcontent : result.content with
  | mapping content =>
    rw [hcontent] at h
    show result.setContent (.mapping (Fields.insert list (.list items) content)) = result
    rw [Fields.insert_get? h]
    unfold StepResult.setContent
    rw [Fields.insert_get? (StepResult.get?_of_content hcontent)]
  | _ => rfl

/-- A detached child, and a detached fallback of a first scope, change nothing but
counters. -/
theorem direct_detached {hidden : List String} (hhook : interpreter.host.mergeDown = none)
    (heffort : ∀ counter ∈ interpreter.settings.effortCounters, counter ∈ hidden)
    (hpages : ∀ counter ∈ interpreter.settings.pageCountFields, counter ∈ hidden)
    {directive : Scope × Branch} (hdetached : directive.2.plan.Detached)
    (hfallback : ∀ list, directive.1 = .first list →
      ∀ branch, node.fallback = some branch → branch.plan.Detached)
    {folding folding' : Folding} {history after : History}
    (h : direct interpreter node folding directive history = .ok folding' after) :
    Alike hidden folding'.result folding.result := by
  obtain ⟨received, hcarried⟩ := carried_of_ok h
  have hkept : ∀ {attach : Attach} {target out : Fields} {source : StepResult}
      {history after : History}, attach.mode = .detached →
      integrate interpreter.host attach target source history = .ok out after → out = target := by
    intro attach target out source history after hmode hout
    rw [integrate_eq hhook, if_pos hmode] at hout
    exact (Run.pure_ok_iff.mp hout).1.symm
  have hattached : ∀ {plan : Plan} {attach : Attach}, plan.Detached →
      plan.attachDirective = .ok attach → attach.mode = .detached := by
    rintro plan attach ⟨other, hother, hmode⟩ hattach
    cases hother.symm.trans hattach
    exact hmode
  cases hcarried with
  | passOver => exact .refl _
  | @once branch bound child attach fields between after hchoice _ hattach hfields =>
    have hbranch : branch.plan.Detached := by
      cases runsOnce_of_choose hchoice with
      | this => exact hdetached
      | first => exact hdetached
      | fallback hscope _ _ _ hsome => exact hfallback _ hscope _ hsome
    cases hkept (hattached hbranch hattach) hfields
    exact (Alike.of_addEffort heffort _ child).trans (Alike.of_descend hpages folding)
  | nothing _ hattach hfields =>
    cases hkept (hattached hdetached hattach) hfields
    exact .refl _
  | @each list items others attach _ result _ hchoice hattach hfolded =>
    rw [folded_detached (hattached hdetached hattach) hfolded]
    have hresult : Alike hidden result folding.result := by
      rw [folded_result hfolded]
      exact (Alike.of_addEfforts heffort _ received).trans (Alike.of_descend hpages folding)
    have hwritten := hresult.setList list items
    rwa [setList_self (each_of_choose hchoice).2] at hwritten

theorem forall₂_modify {α β : Type} {R : α → β → Prop} {f : α → α} {g : β → β} {index : Nat}
    {first : List α} {second : List β} (h : List.Forall₂ R first second)
    (hindex : ∀ a b, first[index]? = some a → second[index]? = some b → R (f a) (g b)) :
    List.Forall₂ R (first.modify index f) (second.modify index g) := by
  induction h generalizing index with
  | nil => cases index <;> exact .nil
  | cons hab hrest ih =>
    cases index with
    | zero => exact .cons (hindex _ _ rfl rfl) hrest
    | succ index => exact .cons hab (ih hindex)

theorem branches_modify (children : List (Scope × Plan)) (index : Nat) (change : Plan → Plan) :
    branches interpreter args
        (children.modify index fun directive => (directive.1, change directive.2)) =
      (branches interpreter args children).modify index fun directive => (directive.1,
        ⟨change directive.2.plan, runPlan interpreter args (change directive.2.plan)⟩) := by
  induction children generalizing index with
  | nil => cases index <;> rfl
  | cons directive rest ih =>
    cases index with
    | zero => rfl
    | succ index => exact congrArg (List.cons _) (ih index)

theorem branches_eraseIdx (children : List (Scope × Plan)) (index : Nat) :
    branches interpreter args (children.eraseIdx index) =
      (branches interpreter args children).eraseIdx index := by
  induction children generalizing index with
  | nil => cases index <;> rfl
  | cons directive rest ih =>
    cases index with
    | zero => rfl
    | succ index => exact congrArg (List.cons _) (ih index)

theorem getElem?_branches {children : List (Scope × Plan)} {index : Nat}
    {directive : Scope × Branch}
    (h : (branches interpreter args children)[index]? = some directive) :
    ∃ child, children[index]? = some child ∧
      directive = (child.1, ⟨child.2, runPlan interpreter args child.2⟩) := by
  rw [branches_eq, List.getElem?_map] at h
  obtain ⟨child, hchild, rfl⟩ := Option.map_eq_some_iff.mp h
  exact ⟨child, hchild, rfl⟩

variable {pair : Pairing interpreter.host interpreter.settings interpreter.settings}

theorem branches_modify_sim {plan : Plan} (h : ∀ node, plan.Has node → pair.Suits node)
    {index : Nat} {f g : Branch → Branch}
    (hchild : ∀ directive, plan.children[index]? = some directive →
      BranchSim pair (f ⟨directive.2, runPlan interpreter args directive.2⟩)
        (g ⟨directive.2, runPlan interpreter args directive.2⟩)) :
    List.Forall₂ (DirectiveSim pair)
      ((branches interpreter args plan.children).modify index fun directive =>
        (directive.1, f directive.2))
      ((branches interpreter args plan.children).modify index fun directive =>
        (directive.1, g directive.2)) := by
  refine forall₂_modify (children_sim h) ?_
  intro directive directive' hdirective hdirective'
  cases hdirective.symm.trans hdirective'
  obtain ⟨child, hsome, rfl⟩ := getElem?_branches hdirective
  exact ⟨rfl, hchild child hsome⟩

theorem fallback_map_sim {fallback : Option Plan} {f g : Branch → Branch}
    (h : ∀ other, fallback = some other →
      BranchSim pair (f ⟨other, runPlan interpreter args other⟩)
        (g ⟨other, runPlan interpreter args other⟩)) :
    Option.Rel (BranchSim pair) ((fallbackBranch interpreter args fallback).map f)
      ((fallbackBranch interpreter args fallback).map g) := by
  cases fallback with
  | none => exact .none
  | some other => exact .some (h other rfl)

variable {edit : History → History}

theorem take_getElem?_drop {α : Type} (items : List α) (index : Nat) :
    items.take index ++ (items[index]?.toList ++ items.drop (index + 1)) = items := by
  rcases Nat.lt_or_ge index items.length with h | h
  · rw [List.getElem?_eq_getElem h]
    show items.take index ++ items[index] :: items.drop (index + 1) = items
    rw [List.getElem_cons_drop, List.take_append_drop]
  · rw [List.getElem?_eq_none h, List.take_of_length_le h, List.drop_of_length_le (by omega)]
    simp

theorem forall₂_part {α β : Type} {R : α → β → Prop} {first : List α} {second : List β}
    (h : List.Forall₂ R first second) (index : Nat) :
    List.Forall₂ R first[index]?.toList second[index]?.toList := by
  induction h generalizing index with
  | nil => exact .nil
  | cons hab _ ih =>
    cases index with
    | zero => exact .cons hab .nil
    | succ index => exact ih index

theorem directEdited_sim {node node' : Node} (hnode : NodeSim pair node node')
    (hedit : ∀ history history' made made', pair.logs history history' →
      pair.logs (history ++ made) (history' ++ made') →
      pair.logs (history ++ made) (history' ++ edit made'))
    {directives directives' : List (Scope × Branch)}
    (h : List.Forall₂ (DirectiveSim pair) directives directives') (index : Nat)
    {folding folding' : Folding}
    (hfolding : FoldingSim pair folding folding') :
    pair.Sim (FoldingSim pair) (directAll interpreter node folding directives)
      (directEdited interpreter edit node' index folding' directives') := by
  rw [← take_getElem?_drop directives index, directAll_append]
  unfold directEdited
  refine (directAll_sim hnode (List.forall₂_take index h) hfolding).bind
    fun first first' hfirst => ?_
  rw [directAll_append]
  refine ((directAll_sim hnode (forall₂_part h index) hfirst).edited hedit).bind
    fun second second' hsecond => ?_
  exact directAll_sim hnode (List.forall₂_drop (index + 1) h) hsecond

/-- A run and the same run with calls edited, where the histories stay related. -/
theorem runPlan_edited (place : Place)
    (hedit : ∀ history history' made made', pair.logs history history' →
      pair.logs (history ++ made) (history' ++ made') →
      pair.logs (history ++ made) (history' ++ edit made'))
    (plan : Plan) (h : ∀ node, plan.Has node → pair.Suits node) :
    BranchSim pair ⟨plan, runPlan interpreter args plan⟩
      ⟨plan, runEdited interpreter args edit place plan⟩ := by
  induction place generalizing plan with
  | here index =>
    have hself := h plan (.self plan)
    refine ⟨.refl plan, hself.steady, fun {state state'} hstates => ?_⟩
    show pair.Sim _ (runPlan interpreter args plan state) _
    rw [runPlan_eq]
    refine stages_sim (.refl plan) hself hstates fun binding own => ?_
    have hnode : NodeSim pair (nodeOf interpreter args plan state binding own)
        (nodeOf interpreter args plan state' binding own) :=
      ⟨⟨rfl, hstates, rfl⟩, .refl plan, rfl, ownFallback_sim h⟩
    exact directEdited_sim hnode hedit (children_sim h) index (start_sim hnode)
  | child index below ih =>
    have hdirectives : List.Forall₂ (DirectiveSim pair)
        ((branches interpreter args plan.children).modify index id)
        ((branches interpreter args plan.children).modify index
          (retie (runEdited interpreter args edit below))) :=
      branches_modify_sim (f := id) h fun child hchild =>
        ih child.2 fun node hnode => h node (.child (List.mem_of_getElem? hchild) hnode)
    rw [List.modify_id] at hdirectives
    rw [runPlan_branch]
    exact runNode_branchSim (.refl plan) (h plan (.self plan)) hdirectives (ownFallback_sim h)
  | fallback below ih =>
    have hfallback : Option.Rel (BranchSim pair)
        ((fallbackBranch interpreter args plan.fallback).map id)
        ((fallbackBranch interpreter args plan.fallback).map
          (Branch.retie (runEdited interpreter args edit below))) :=
      fallback_map_sim fun other hother =>
        ih other fun node hnode => h node (.fallback hother hnode)
    rw [Option.map_id_fun] at hfallback
    rw [runPlan_branch]
    exact runNode_branchSim (.refl plan) (h plan (.self plan)) (children_sim h) hfallback

structure Hides (pair : Pairing interpreter.host interpreter.settings interpreter.settings)
    (hidden : List String) : Prop where
  hook : interpreter.host.mergeDown = none
  lenient : ¬pair.strict
  results : ∀ {first second}, pair.Results first second ↔ Alike hidden first second
  effort : ∀ counter ∈ interpreter.settings.effortCounters, counter ∈ hidden
  pages : ∀ counter ∈ interpreter.settings.pageCountFields, counter ∈ hidden

theorem directDropped_sim {hidden : List String} (hhides : Hides pair hidden) {node node' : Node}
    (hnode : NodeSim pair node node') {directives directives' : List (Scope × Branch)}
    (h : List.Forall₂ (DirectiveSim pair) directives directives') {index : Nat}
    {directive : Scope × Branch} (hdirective : directives[index]? = some directive)
    (hdetached : directive.2.plan.Detached)
    (hfallback : ∀ list, directive.1 = .first list →
      ∀ branch, node.fallback = some branch → branch.plan.Detached)
    {folding folding' : Folding} (hfolding : FoldingSim pair folding folding') :
    pair.Sim (FoldingSim pair)
      (directEdited interpreter (fun _ => []) node index folding directives)
      (directAll interpreter node' folding' (directives'.eraseIdx index)) := by
  rw [List.eraseIdx_eq_take_drop_succ, directAll_append]
  unfold directEdited
  refine (directAll_sim hnode (List.forall₂_take index h) hfolding).bind
    fun first first' hfirst => ?_
  have hdropped : pair.Sim (FoldingSim pair)
      (Run.edited (fun _ => [])
        (directAll interpreter node first directives[index]?.toList)) (pure first') := by
    rw [hdirective]
    refine ⟨fun {history history' second after} hlogs hrun => ?_,
      fun hstrict => absurd hstrict hhides.lenient⟩
    unfold Run.edited at hrun
    cases hone : directAll interpreter node first (some directive).toList history with
    | error e between =>
      rw [hone] at hrun
      cases hrun
    | ok done between =>
      rw [hone] at hrun
      obtain ⟨rfl, rfl⟩ : done = second ∧ history ++ [] = after := by simpa using hrun
      obtain ⟨_, _, hdone, hlast⟩ := Run.bind_ok_iff.mp hone
      obtain ⟨rfl, _⟩ := Run.pure_ok_iff.mp hlast
      have halike := (direct_detached hhides.hook hhides.effort hhides.pages hdetached hfallback
        hdone).trans (hhides.results.mp hfirst.result)
      have hzeroed := ((Alike.of_descend hhides.pages _).trans halike).trans
        (Alike.of_descend hhides.pages first').symm
      rw [List.append_nil]
      exact ⟨first', history', rfl, ⟨hhides.results.mpr halike, hhides.results.mpr hzeroed⟩,
        .refl hlogs⟩
  rw [← pure_bind first' fun folding =>
    directAll interpreter node' folding (directives'.drop (index + 1))]
  exact hdropped.bind fun second second' hsecond =>
    directAll_sim hnode (List.forall₂_drop (index + 1) h) hsecond

/-- The tree without a detached directive, and the tree with the calls under it
dropped. -/
theorem runDropped_sim {hidden : List String} (hhides : Hides pair hidden) (place : Place)
    {node : Plan} {directive : Scope × Plan} (hdetached : directive.2.Detached)
    (hfallback : ∀ list, directive.1 = .first list →
      ∀ other, node.fallback = some other → other.Detached)
    (plan : Plan) (hsite : plan.site? place = some (node, directive))
    (h : ∀ node, plan.Has node → pair.Suits node) :
    BranchSim pair ⟨plan, runEdited interpreter args (fun _ => []) place plan⟩
      ⟨plan.delete place, runPlan interpreter args (plan.delete place)⟩ := by
  induction place generalizing plan with
  | here index =>
    obtain ⟨child, hchild, hfound⟩ := Option.map_eq_some_iff.mp hsite
    obtain ⟨hplan, hsame⟩ := Prod.mk.inj hfound
    subst hplan hsame
    have hself := h plan (.self plan)
    have htrunk : plan.SameTrunk (plan.delete (.here index)) := ⟨_, plan.fallback, rfl⟩
    refine ⟨htrunk, hself.steady, fun {state state'} hstates => ?_⟩
    show pair.Sim _ _ (runPlan interpreter args (plan.delete (.here index)) state')
    rw [runPlan_eq]
    refine stages_sim htrunk hself hstates fun binding own => ?_
    have hnode : NodeSim pair (nodeOf interpreter args plan state binding own)
        (nodeOf interpreter args (plan.delete (.here index)) state' binding own) :=
      ⟨⟨rfl, hstates, rfl⟩, htrunk, rfl, ownFallback_sim h⟩
    have hbranch : (branches interpreter args plan.children)[index]? =
        some (child.1, ⟨child.2, runPlan interpreter args child.2⟩) := by
      rw [branches_eq, List.getElem?_map, hchild]
      rfl
    have hothers : branches interpreter args (plan.delete (.here index)).children =
        (branches interpreter args plan.children).eraseIdx index := branches_eraseIdx _ _
    rw [hothers]
    refine directDropped_sim hhides hnode (children_sim h) hbranch hdetached ?_
      (start_sim hnode)
    intro list hscope branch hbranch
    obtain ⟨other, hother, rfl⟩ := fallbackBranch_some hbranch
    exact hfallback list hscope other hother
  | child index below ih =>
    obtain ⟨child, hchild, hbelow⟩ := Option.bind_eq_some_iff.mp hsite
    have htrunk : plan.SameTrunk (plan.delete (.child index below)) := ⟨_, plan.fallback, rfl⟩
    have hdirectives : List.Forall₂ (DirectiveSim pair)
        ((branches interpreter args plan.children).modify index
          (retie (runEdited interpreter args (fun _ => []) below)))
        (branches interpreter args (plan.delete (.child index below)).children) := by
      show List.Forall₂ _ _ (branches interpreter args (plan.children.modify index
        fun directive => (directive.1, directive.2.delete below)))
      rw [branches_modify plan.children index (Plan.delete below)]
      refine branches_modify_sim (g := fun branch => ⟨branch.plan.delete below,
        runPlan interpreter args (branch.plan.delete below)⟩) h fun other hother => ?_
      cases hchild.symm.trans hother
      exact ih child.2 hbelow fun node hnode => h node (.child (List.mem_of_getElem? hchild) hnode)
    rw [runPlan_branch interpreter args (plan.delete (.child index below))]
    exact runNode_branchSim htrunk (h plan (.self plan)) hdirectives (ownFallback_sim h)
  | fallback below ih =>
    obtain ⟨other, hother, hbelow⟩ := Option.bind_eq_some_iff.mp hsite
    have htrunk : plan.SameTrunk (plan.delete (.fallback below)) := ⟨plan.children, _, rfl⟩
    have hfallen : Option.Rel (BranchSim pair)
        ((fallbackBranch interpreter args plan.fallback).map
          (Branch.retie (runEdited interpreter args (fun _ => []) below)))
        (fallbackBranch interpreter args (plan.delete (.fallback below)).fallback) := by
      show Option.Rel _ _ (fallbackBranch interpreter args (plan.fallback.map (Plan.delete below)))
      rw [hother]
      exact .some (ih other hbelow fun node hnode => h node (.fallback hother hnode))
    rw [runPlan_branch interpreter args (plan.delete (.fallback below))]
    exact runNode_branchSim htrunk (h plan (.self plan)) (children_sim h) hfallen

/-- A detached directive does not interfere: without it the run of the tree succeeds
too, makes the calls of the run but those under the directive, and returns the same
result apart from effort and page counters. -/
theorem runPlan_detached {plan node : Plan} {place : Place} {directive : Scope × Plan}
    {state : State} {history after : History} {final : StepResult}
    (hhost : interpreter.host.Memoryless) (hdefaults : plan.Memoryless)
    (hhook : interpreter.host.mergeDown = none)
    (hstamp : "updated_at" ∉
      interpreter.settings.effortCounters ++ interpreter.settings.pageCountFields)
    (hsite : plan.site? place = some (node, directive)) (hdetached : directive.2.Detached)
    (hfallback : ∀ list, directive.1 = .first list →
      ∀ other, node.fallback = some other → other.Detached)
    (hrun : runPlan interpreter args plan state history = .ok final after) :
    runEdited interpreter args id place plan state history = .ok final after ∧
    ∃ kept remaining,
      runEdited interpreter args (fun _ => []) place plan state history = .ok final kept ∧
      kept.Sublist after ∧
      runPlan interpreter args (plan.delete place) state history = .ok remaining kept ∧
      Alike (interpreter.settings.effortCounters ++ interpreter.settings.pageCountFields)
        final remaining := by
  have heffort : ∀ counter ∈ interpreter.settings.effortCounters,
      counter ∈ interpreter.settings.effortCounters ++ interpreter.settings.pageCountFields :=
    fun counter h => List.mem_append_left _ h
  have hpages : ∀ counter ∈ interpreter.settings.pageCountFields,
      counter ∈ interpreter.settings.effortCounters ++ interpreter.settings.pageCountFields :=
    fun counter h => List.mem_append_right _ h
  let same : Pairing interpreter.host interpreter.settings interpreter.settings :=
    .identical False interpreter.settings.respect_eq fun _ => rfl
  let thinned : Pairing interpreter.host interpreter.settings interpreter.settings :=
    .forgetful (hhost.forgetful hhook) (fun history history' => history'.Sublist history)
      (fun c h => h.append (List.Sublist.refl [c])) _
  let counted : Pairing interpreter.host interpreter.settings interpreter.settings :=
    .identical False (interpreter.settings.respect_hide hstamp) (absurd hhook)
  have hid : BranchSim same ⟨plan, runPlan interpreter args plan⟩
      ⟨plan, runEdited interpreter args id place plan⟩ :=
    runPlan_edited place (fun _ _ _ _ _ h => h) plan fun other _ => Pairing.suits_identical other
  have hdropped : BranchSim thinned ⟨plan, runPlan interpreter args plan⟩
      ⟨plan, runEdited interpreter args (fun _ => []) place plan⟩ :=
    runPlan_edited place
      (fun _ _ made _ (h : List.Sublist _ _) _ => h.append (List.nil_sublist made)) plan
      fun other hother => Pairing.suits_forgetful hdefaults hother
  have hdeleted : BranchSim counted ⟨plan, runEdited interpreter args (fun _ => []) place plan⟩
      ⟨plan.delete place, runPlan interpreter args (plan.delete place)⟩ :=
    runDropped_sim ⟨hhook, id, Alike.iff_related.symm, heffort, hpages⟩ place hdetached hfallback
      plan hsite fun other _ => Pairing.suits_identical other
  obtain ⟨_, _, hidRun, hidFinal, rfl, _⟩ := (hid.run rfl).ok rfl hrun
  obtain ⟨_, kept, hkept, hkeptFinal, hsublist, _⟩ :=
    (hdropped.run rfl).ok (List.Sublist.refl history) hrun
  rw [← hidFinal.eq] at hidRun
  rw [← hkeptFinal.eq] at hkept
  obtain ⟨remaining, _, hremaining, halike, rfl, _⟩ := (hdeleted.run rfl).ok rfl hkept
  exact ⟨hidRun, kept, remaining, hkept, hsublist, hremaining, Alike.iff_related.mpr halike⟩

/-- An order has a detached child: without it one call is gone, and its count. -/
theorem runPlan_detached_only :
    let order : StepResult := ⟨[("content", .mapping [("id", .null)]),
      ("metadata", .mapping [("request_count", .ofWhole 1)])]⟩
    let audit : StepResult := ⟨[("content", .bool true),
      ("metadata", .mapping [("request_count", .ofWhole 2)])]⟩
    let child := (Plan.named "audit").attach .detached
    let root := (Plan.named "order").attach .detached
    let plan := root.fanOut .this child
    let interpreter : Interpreter := ⟨.byName [("order", order), ("audit", audit)], .standard⟩
    let after : History := [.run ⟨root.fields⟩ [], .run ⟨child.fields⟩ []]
    let kept : History := [.run ⟨root.fields⟩ []]
    let final : StepResult := ⟨[("content", .mapping [("id", .null)]),
      ("metadata", .mapping [("request_count", .ofWhole 3)])]⟩
    interpreter.host.Memoryless ∧ plan.Memoryless ∧ interpreter.host.mergeDown = none ∧
      plan.site? (.here 0) = some (plan, .this, child) ∧ child.Detached ∧
      plan.delete (.here 0) = root ∧
      runPlan interpreter [] plan .empty [] = .ok final after ∧
      runEdited interpreter [] (fun _ => []) (.here 0) plan .empty [] = .ok final kept ∧
      runPlan interpreter [] root .empty [] = .ok order kept ∧
      Alike (Settings.standard.effortCounters ++ Settings.standard.pageCountFields)
        final order := by
  intro order audit child root plan interpreter after kept final
  have hhost : interpreter.host.Memoryless := Host.memoryless_byName _
  have hchild : child.Memoryless := .intro rfl (fun _ h => by cases h) (fun _ h => by cases h)
  have hchildren : plan.children = [(.this, child)] := rfl
  have hdefaults : plan.Memoryless := by
    refine .intro rfl ?_ (fun _ h => by cases h)
    rw [hchildren]
    intro directive hdirective
    rw [List.mem_singleton.mp hdirective]
    exact hchild
  have hsite : plan.site? (.here 0) = some (plan, .this, child) := rfl
  have hdetached : child.Detached := ⟨.detached, rfl, rfl⟩
  have hdelete : plan.delete (.here 0) = root := rfl
  have hrun : runPlan interpreter [] plan .empty [] = .ok final after := rfl
  have hroot : runPlan interpreter [] root .empty [] = .ok order kept := rfl
  obtain ⟨_, _, _, hdropped, _, hremaining, halike⟩ := runPlan_detached hhost hdefaults rfl
    (by decide) hsite hdetached (fun _ h => by cases h) hrun
  rw [hdelete] at hremaining
  cases hremaining.symm.trans hroot
  exact ⟨hhost, hdefaults, rfl, hsite, hdetached, hdelete, hrun, hdropped, hroot, halike⟩

end Interpreter

end PlanFold
