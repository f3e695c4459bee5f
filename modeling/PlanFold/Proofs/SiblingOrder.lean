import PlanFold.Proofs.FoldingOrder
import PlanFold.Proofs.PathStates
import PlanFold.Proofs.Simulation

/-!
# The order of siblings

Two children that run on the whole content of their parent, are folded in under
different keys and do not read the parent's name can be exchanged. The second
one is bound to content that the first has changed, but does not see it; so each
returns the same result in either order, and the two foldings commute.
-/

set_option autoImplicit false

namespace PlanFold

def Pairing.rebound {host : Host} (hhost : host.Memoryless) (hstep : host.interpolate = none)
    (hhook : host.mergeDown = none) (settings : Settings) (name : String) :
    Pairing host settings settings :=
  .exact False (fun _ _ => True) ((hhost.forgetful hhook).steady fun _ _ => trivial) settings
    (fun state state' => (∀ other, state.contains other = state'.contains other) ∧
      ∀ other, other ≠ name → state.get? other = state'.get? other)
    (fun key value h => by
      refine ⟨fun other => ?_, fun other hne => ?_⟩
      · rw [State.contains_bind, State.contains_bind, h.1 other]
      · rw [State.get?_bind, State.get?_bind, h.2 other hne])
    (absurd hstep)

/-- A child that does not depend on what its parent's name is bound to, and is folded
in under a key. -/
structure Plan.Independent (plan : Plan) (name key : String) : Prop where
  attach : ∃ start, plan.attachDirective = .ok ⟨.relocate key, none, start⟩
  runs : plan.defaultWith = none
  memoryless : plan.Memoryless
  unread : ∀ node, plan.Has node → ∀ reference, node.Refers reference →
    reference.container ≠ name

namespace Interpreter

variable {interpreter : Interpreter} {args : List Value} {node : Node} {branch : Branch}
  {bound : Value} {folding folding' : Folding} {history after : History}

theorem runChild_of_runs (h : branch.plan.defaultWith = none) (bound : Value) :
    runChild node branch bound = branch.run (node.state.bind node.binding bound) := by
  unfold runChild
  rw [h]
  rfl

/-- An independent child returns the same result on other data and after other calls. -/
theorem runChild_rebound (hhost : interpreter.host.Memoryless)
    (hstep : interpreter.host.interpolate = none) (hhook : interpreter.host.mergeDown = none)
    {plan : Plan} {key : String} (hplan : plan.Independent node.binding key)
    {child : StepResult}
    (h : runChild node ⟨plan, runPlan interpreter args plan⟩ bound history = .ok child after)
    (other : Value) (earlier : History) :
    ∃ later, runChild node ⟨plan, runPlan interpreter args plan⟩ other earlier =
      .ok child later := by
  let pair := Pairing.rebound hhost hstep hhook interpreter.settings node.binding
  have hsuits : ∀ below, plan.Has below → pair.Suits below := by
    intro below hbelow
    refine ⟨?_, ?_, ?_⟩
    · exact fun hook hsome _ _ _ bound args =>
        hplan.memoryless below hbelow hook hsome _ _ bound args
    · exact fun reference hrefers _ _ hstates =>
        hstates.2 _ (hplan.unread below hbelow reference hrefers)
    · exact fun other _ _ _ hstates => hstates.1 other
  have hstates : pair.states (node.state.bind node.binding bound)
      (node.state.bind node.binding other) := by
    refine ⟨fun name => ?_, fun name hne => ?_⟩
    · rw [State.contains_bind, State.contains_bind]
    · rw [State.get?_bind, State.get?_bind, if_neg hne.symm, if_neg hne.symm]
  rw [runChild_of_runs hplan.runs] at h ⊢
  obtain ⟨child', later, hrun, hsame, _⟩ := ((runPlan_sim plan hsuits).run hstates).ok trivial h
  rw [← hsame.eq] at hrun
  exact ⟨later, hrun⟩

section relocate

variable {key : String} {start : Option String} {received : List StepResult}

theorem integrate_relocate_iff {host : Host} (hhook : host.mergeDown = none)
    (counters : List String) {base child : StepResult} {out : Fields}
    (hcontent : base.fields.contains "content" = true) :
    integrate host ⟨.relocate key, none, start⟩ (base.addEffort child counters).fields child
        history = .ok out after ↔
      (Attach.Takes ⟨.relocate key, none, start⟩ child ∧ HasSlot base.fields ∧
        base.relocated counters child key
          (Attach.contribution ⟨.relocate key, none, start⟩ child) = ⟨out⟩) ∧
      history = after := by
  rw [integrate_eq hhook, if_neg (by simp), Run.ofExcept_ok_iff,
    foldInto_relocate_iff counters hcontent]

theorem contains_descend (hnull : folding.result.content.isNull = false)
    (counters : List String) :
    (folding.descend counters).result.fields.contains "content" = true := by
  rw [Fields.contains_eq_of_keys_eq (keys_descend _ _), StepResult.contains_of_content hnull]

def Folding.relocated (folding : Folding) (settings : Settings) (key : String)
    (start : Option String) (child : StepResult) : Folding :=
  ⟨(folding.descend settings.pageCountFields).result.relocated settings.effortCounters child key
    (Attach.contribution ⟨.relocate key, none, start⟩ child), false⟩

theorem Folding.isNull_relocated (folding : Folding) (settings : Settings) (key : String)
    (start : Option String) (child : StepResult) :
    (folding.relocated settings key start child).result.content.isNull = false := by
  unfold Folding.relocated
  rw [content_relocated]
  rfl

theorem carried_relocate (hhook : interpreter.host.mergeDown = none)
    (hattach : branch.plan.attachDirective = .ok ⟨.relocate key, none, start⟩)
    (h : Carried interpreter node folding (.this, branch) history received folding' after) :
    (folding.result.content.isNull = true ∧ folding' = folding.passOver) ∨
      folding.result.content.isNull = false ∧ ∃ child, received = [child] ∧
        runChild node branch folding.result.content history = .ok child after ∧
        Attach.Takes ⟨.relocate key, none, start⟩ child ∧
        HasSlot (folding.descend interpreter.settings.pageCountFields).result.fields ∧
        folding' = folding.relocated interpreter.settings key start child := by
  have hchoose : choose node folding.result (.this, branch) =
      .ok (if folding.result.content.isNull then .passOver
        else .once branch folding.result.content) := rfl
  cases hnull : folding.result.content.isNull with
  | true =>
    rw [hnull] at hchoose
    cases h with
    | passOver _ => exact .inl ⟨rfl, rfl⟩
    | once hchoice => cases hchoose.symm.trans hchoice
    | nothing hchoice => cases hchoose.symm.trans hchoice
    | each hchoice => cases hchoose.symm.trans hchoice
  | false =>
    rw [hnull] at hchoose
    cases h with
    | passOver hchoice => cases hchoose.symm.trans hchoice
    | nothing hchoice => cases hchoose.symm.trans hchoice
    | each hchoice => cases hchoose.symm.trans hchoice
    | once hchoice hchild hattach' hfields =>
      cases hchoose.symm.trans hchoice
      cases hattach.symm.trans hattach'
      obtain ⟨⟨htakes, hslot, hresult⟩, rfl⟩ :=
        (integrate_relocate_iff hhook _ (contains_descend hnull _)).mp hfields
      refine .inr ⟨rfl, _, rfl, hchild, htakes, hslot, ?_⟩
      unfold Folding.relocated
      rw [hresult]

theorem direct_passOver (hnull : folding.result.content.isNull = true) :
    direct interpreter node folding (.this, branch) history = .ok folding.passOver history := by
  unfold direct directThis
  simp only [hnull, if_true]
  rfl

theorem direct_relocate {child : StepResult} (hhook : interpreter.host.mergeDown = none)
    (hattach : branch.plan.attachDirective = .ok ⟨.relocate key, none, start⟩)
    (hnull : folding.result.content.isNull = false)
    (hchild : runChild node branch folding.result.content history = .ok child after)
    (htakes : Attach.Takes ⟨.relocate key, none, start⟩ child)
    (hslot : HasSlot (folding.descend interpreter.settings.pageCountFields).result.fields) :
    direct interpreter node folding (.this, branch) history =
      .ok (folding.relocated interpreter.settings key start child) after := by
  unfold direct directThis
  simp only [hnull, Bool.false_eq_true, if_false]
  unfold foldChild
  refine Run.bind_ok_iff.mpr ⟨child, after, hchild, ?_⟩
  rw [hattach]
  refine Run.ofExcept_bind_ok_iff.mpr ⟨_, rfl, ?_⟩
  have hlanded := (integrate_relocate_iff hhook interpreter.settings.effortCounters
    (contains_descend hnull _)).mpr ⟨⟨htakes, hslot, rfl⟩, Eq.refl after⟩
  refine Run.bind_ok_iff.mpr ⟨_, after, hlanded, ?_⟩
  rw [skipPending_descend]
  rfl

end relocate

section counts

variable {counter : String} {received : List StepResult}

theorem counts_zeroCounters (counters : List String) {fields : Fields}
    (h : Counts (fields.get? counter)) :
    Counts ((counters.foldl StepResult.zeroCounter fields).get? counter) := by
  induction counters generalizing fields with
  | nil => exact h
  | cons other rest ih =>
    refine ih ?_
    unfold StepResult.zeroCounter
    split
    · rw [Fields.get?_insert]
      split
      · exact counts_ofWhole (by decide)
      · exact h
    · exact h

theorem counts_mapMetadata {result : StepResult} {change : Fields → Fields}
    (hchange : ∀ fields : Fields, Counts (fields.get? counter) →
      Counts ((change fields).get? counter))
    (h : Counts (result.count? counter)) : Counts ((result.mapMetadata change).count? counter) := by
  unfold StepResult.count? at *
  rw [StepResult.metadata?_mapMetadata]
  cases hmetadata : result.metadata? with
  | none => trivial
  | some metadata =>
    rw [hmetadata] at h
    exact hchange metadata h

theorem counts_descend (h : Counts (folding.result.count? counter)) (counters : List String) :
    Counts ((folding.descend counters).result.count? counter) := by
  unfold Folding.descend
  split
  · exact counts_mapMetadata (fun _ => counts_zeroCounters counters) h
  · exact h

theorem counts_addEfforts (counters : List String) {result : StepResult}
    (h : Counts (result.count? counter))
    (hreceived : ∀ child ∈ received, Counts (child.count? counter)) :
    Counts ((result.addEfforts received counters).count? counter) := by
  induction received generalizing result with
  | nil => exact h
  | cons child rest ih =>
    refine ih (counts_mapMetadata (fun _ hfields => ?_) h)
      fun other hother => hreceived other (by simp [hother])
    exact counts_addCounters counters hfields (hreceived child (by simp))

theorem counts_carriedAll {directives : List (Scope × Branch)}
    (hhook : interpreter.host.mergeDown = none) (hown : Counts (folding.result.count? counter))
    (h : CarriedAll interpreter node folding directives history received folding' after)
    (hreceived : ∀ child ∈ received, Counts (child.count? counter)) :
    Counts (folding'.result.count? counter) := by
  induction h with
  | nil => exact hown
  | cons hone _ ih =>
    obtain ⟨_, start, hstart, hwritten⟩ := carried_result hhook hone
    have hcounts : Counts (start.count? counter) := by
      rcases hstart with rfl | rfl
      · exact hown
      · exact counts_descend hown _
    have hsum := counts_addEfforts interpreter.settings.effortCounters hcounts
      fun child hchild => hreceived child (List.mem_append_left _ hchild)
    refine ih ?_ fun child hchild => hreceived child (List.mem_append_right _ hchild)
    rw [hsum.count?_rewritten hwritten]
    exact hsum

end counts

theorem CarriedAll.append {directives others : List (Scope × Branch)} {folding'' : Folding}
    {received received' : List StepResult} {between : History}
    (h : CarriedAll interpreter node folding directives history received folding' between)
    (h' : CarriedAll interpreter node folding' others between received' folding'' after) :
    CarriedAll interpreter node folding (directives ++ others) history (received ++ received')
      folding'' after := by
  induction h with
  | nil => exact h'
  | cons hone _ ih =>
    rw [List.append_assoc]
    exact .cons hone (ih h')

/-- Of two independent children at the end of a node, the second can come first: from
the same result so far, the other order leads to the same result. -/
theorem direct_exchange (hhost : interpreter.host.Memoryless)
    (hstep : interpreter.host.interpolate = none) (hhook : interpreter.host.mergeDown = none)
    {a b : Plan} {key other : String} (ha : a.Independent node.binding key)
    (hb : b.Independent node.binding other) (hne : key ≠ other)
    {folding₁ folding₂ : Folding} {between : History} {received received' : List StepResult}
    (hfirst : Carried interpreter node folding (.this, ⟨a, runPlan interpreter args a⟩) history
      received folding₁ between)
    (hsecond : Carried interpreter node folding₁ (.this, ⟨b, runPlan interpreter args b⟩) between
      received' folding₂ after)
    {node' : Node} (hrunChild : ∀ branch bound, runChild node' branch bound =
      runChild node branch bound)
    (hresult : folding'.result = folding.result)
    (hbase : (folding'.descend interpreter.settings.pageCountFields).result =
      (folding.descend interpreter.settings.pageCountFields).result)
    {counted : String → Prop} (hcounted : ∀ counter, counted counter →
      Counts (folding.result.count? counter) ∧
      ∀ child ∈ received ++ received', Counts (child.count? counter)) :
    ∃ folding₁' folding₂' between' after',
      direct interpreter node' folding' (.this, ⟨b, runPlan interpreter args b⟩) history =
        .ok folding₁' between' ∧
      direct interpreter node' folding₁' (.this, ⟨a, runPlan interpreter args a⟩) between' =
        .ok folding₂' after' ∧
      EitherOrder counted (folding₂.close interpreter) (folding₂'.close interpreter) := by
  obtain ⟨start, hattach⟩ := ha.attach
  obtain ⟨start', hattach'⟩ := hb.attach
  rcases carried_relocate hhook hattach hfirst with ⟨hnull, rfl⟩ | ⟨hnull, child, rfl, hchild,
    htakes, hslot, rfl⟩
  · rcases carried_relocate hhook hattach' hsecond with ⟨_, rfl⟩ | ⟨hnull', _⟩
    · have hnull' : folding'.result.content.isNull = true := by rw [hresult, hnull]
      refine ⟨folding'.passOver, folding'.passOver, _, _, direct_passOver hnull',
        direct_passOver hnull', ?_⟩
      show EitherOrder counted folding.result folding'.result
      rw [hresult]
      exact .refl counted _
    · cases hnull'.symm.trans hnull
  · rcases carried_relocate hhook hattach' hsecond with ⟨hnull', _⟩ | ⟨_, child', rfl, hchild',
      htakes', _, rfl⟩
    · rw [folding.isNull_relocated] at hnull'
      cases hnull'
    · obtain ⟨between', hchild'⟩ :=
        runChild_rebound hhost hstep hhook hb hchild' folding'.result.content history
      rw [← hrunChild] at hchild'
      have hone := direct_relocate hhook hattach' (by rw [hresult, hnull]) hchild' htakes'
        (by rwa [hbase])
      have hsame : folding'.relocated interpreter.settings other start' child' =
          folding.relocated interpreter.settings other start' child' := by
        unfold Folding.relocated
        rw [hbase]
      rw [hsame] at hone
      obtain ⟨after', hchild⟩ := runChild_rebound hhost hstep hhook ha hchild
        (folding.relocated interpreter.settings other start' child').result.content between'
      rw [← hrunChild] at hchild
      have htwo := direct_relocate hhook hattach (folding.isNull_relocated _ _ _ _) hchild htakes
        (hasSlot_relocated _ _ _ _ _)
      refine ⟨_, _, _, _, hone, htwo, ?_⟩
      refine relocated_swap hne fun counter hcounter => ?_
      obtain ⟨hown, hreceived⟩ := hcounted counter hcounter
      exact ⟨counts_descend hown _, hreceived child (by simp), hreceived child' (by simp)⟩

theorem directAll_last_iff {before : List (Scope × Branch)} {first second : Scope × Branch} :
    directAll interpreter node folding (before ++ [first, second]) history = .ok folding' after ↔
      ∃ folding₁ between folding₂ later,
        directAll interpreter node folding before history = .ok folding₁ between ∧
        direct interpreter node folding₁ first between = .ok folding₂ later ∧
        direct interpreter node folding₂ second later = .ok folding' after := by
  rw [directAll_append]
  constructor
  · intro h
    obtain ⟨folding₁, between, hbefore, h⟩ := Run.bind_ok_iff.mp h
    obtain ⟨folding₂, later, hfirst, h⟩ := Run.bind_ok_iff.mp h
    obtain ⟨folding₃, last, hsecond, h⟩ := Run.bind_ok_iff.mp h
    obtain ⟨rfl, rfl⟩ := Run.pure_ok_iff.mp h
    exact ⟨folding₁, between, folding₂, later, hbefore, hfirst, hsecond⟩
  · rintro ⟨folding₁, between, folding₂, later, hbefore, hfirst, hsecond⟩
    refine Run.bind_ok_iff.mpr ⟨folding₁, between, hbefore, ?_⟩
    refine Run.bind_ok_iff.mpr ⟨folding₂, later, hfirst, ?_⟩
    exact Run.bind_ok_iff.mpr ⟨folding', after, hsecond, rfl⟩

theorem branches_append (args : List Value) (first second : List (Scope × Plan)) :
    branches interpreter args (first ++ second) =
      branches interpreter args first ++ branches interpreter args second := by
  rw [branches_eq, branches_eq, branches_eq, List.map_append]

theorem directAll_retrunk {plan plan' : Plan} (htrunk : plan.SameTrunk plan')
    (hfallback : plan'.fallback = plan.fallback) {state : State} {binding : String}
    {own : StepResult} (before : List (Scope × Plan))
    (h : directAll interpreter (nodeOf interpreter args plan state binding own)
      (nodeOf interpreter args plan state binding own).start
      (branches interpreter args before) history = .ok folding after) :
    ∃ folding', directAll interpreter (nodeOf interpreter args plan' state binding own)
        (nodeOf interpreter args plan' state binding own).start
        (branches interpreter args before) history = .ok folding' after ∧
      folding'.result = folding.result ∧
      (folding'.descend interpreter.settings.pageCountFields).result =
        (folding.descend interpreter.settings.pageCountFields).result := by
  let pair : Pairing interpreter.host interpreter.settings interpreter.settings :=
    .identical False interpreter.settings.respect_eq fun _ => rfl
  have hplan : ∀ other : Plan, BranchSim pair ⟨other, runPlan interpreter args other⟩
      ⟨other, runPlan interpreter args other⟩ :=
    fun other => runPlan_sim other fun node _ => Pairing.suits_identical node
  have hnode : NodeSim pair (nodeOf interpreter args plan state binding own)
      (nodeOf interpreter args plan' state binding own) := by
    refine ⟨⟨rfl, rfl, rfl⟩, htrunk, rfl, ?_⟩
    show Option.Rel _ _ (fallbackBranch interpreter args plan'.fallback)
    rw [hfallback]
    exact fallback_sim fun other _ => hplan other
  obtain ⟨folding', _, hrun, hsame, rfl, _⟩ :=
    (directAll_sim hnode (branches_sim fun child _ => hplan child.2) (start_sim hnode)).ok rfl h
  exact ⟨folding', hrun, hsame.result.eq.symm, hsame.descend.eq.symm⟩

/-- Independent siblings commute: when the last two children of the root are exchanged,
a run that succeeds still does, with a result that differs at most in the order of
keys, in counters that are not counts throughout, and in the text of its timestamp. -/
theorem runPlan_exchange {plan a b : Plan} {before : List (Scope × Plan)}
    {name key other : String} {state : State} {final : StepResult}
    (hhost : interpreter.host.Memoryless) (hstep : interpreter.host.interpolate = none)
    (hhook : interpreter.host.mergeDown = none) (hname : plan.binding = .ok name)
    (hchildren : plan.children = before ++ [(.this, a), (.this, b)])
    (ha : a.Independent name key) (hb : b.Independent name other) (hne : key ≠ other)
    (hrun : runPlan interpreter args plan state history = .ok final after) :
    ∃ own stepped received final' after',
      Ran interpreter args plan state history name own stepped received final after ∧
      runPlan interpreter args { plan with children := before ++ [(.this, b), (.this, a)] } state
        history = .ok final' after' ∧
      EitherOrder (fun counter => Counts (own.count? counter) ∧
        ∀ child ∈ received, Counts (child.count? counter)) final final' := by
  obtain ⟨binding, own, stepped, folding₂, hvalid, hown, hall, rfl⟩ := stages_of_ok hrun
  obtain rfl : binding = name := by
    cases (Plan.validate_ok hvalid).1.symm.trans hname
    rfl
  let exchanged : Plan := { plan with children := before ++ [(.this, b), (.this, a)] }
  have htrunk : plan.SameTrunk exchanged := ⟨_, plan.fallback, rfl⟩
  have hdirected := hall
  rw [hchildren, branches_append] at hdirected
  obtain ⟨folding, between, folding₁, later, hbefore, hfirst, hsecond⟩ :=
    directAll_last_iff.mp hdirected
  obtain ⟨earlier, hearlier⟩ := carriedAll_of_ok hbefore
  obtain ⟨received, hfirst⟩ := carried_of_ok hfirst
  obtain ⟨received', hsecond⟩ := carried_of_ok hsecond
  have hran : Ran interpreter args plan state history binding own stepped
      (earlier ++ (received ++ (received' ++ []))) (folding₂.close interpreter) after := by
    refine ⟨hvalid, hown, folding₂, ?_, rfl⟩
    rw [hchildren, branches_append]
    exact hearlier.append (.cons hfirst (.cons hsecond .nil))
  have hcounted : ∀ counter, (Counts (own.count? counter) ∧
      ∀ child ∈ earlier ++ (received ++ (received' ++ [])), Counts (child.count? counter)) →
      Counts (folding.result.count? counter) ∧
        ∀ child ∈ received ++ received', Counts (child.count? counter) := by
    rintro counter ⟨hcount, hall⟩
    rw [List.append_nil] at hall
    exact ⟨counts_carriedAll hhook hcount hearlier
      fun child hchild => hall child (List.mem_append_left _ hchild),
      fun child hchild => hall child (List.mem_append_right _ hchild)⟩
  obtain ⟨folding', hbefore', hresult, hbase⟩ :=
    directAll_retrunk htrunk rfl before hbefore
  obtain ⟨folding₁', folding₂', between', after', hfirst', hsecond', hsame⟩ :=
    direct_exchange hhost hstep hhook ha hb hne hfirst hsecond (fun _ _ => rfl) hresult hbase
      hcounted
  have hvalid' : exchanged.validate state interpreter.settings.requiredFields = .ok binding :=
    hvalid
  have hown' : runStep interpreter exchanged state args history = .ok own stepped := hown
  refine ⟨own, stepped, _, _, after', hran, ok_of_stages hvalid' hown' ?_, hsame⟩
  show directAll _ _ _ (branches interpreter args (before ++ [(.this, b), (.this, a)])) _ = _
  rw [branches_append]
  exact directAll_last_iff.mpr
    ⟨folding', between, folding₁', between', hbefore', hfirst', hsecond'⟩

/-- An order takes in a price and a stock, with two requests each. -/
theorem runPlan_exchange_two :
    let order : StepResult := ⟨[("content", .mapping [("id", .null)]),
      ("metadata", .mapping [("request_count", .ofWhole 1)])]⟩
    let detail : StepResult := ⟨[("content", .bool true),
      ("metadata", .mapping [("request_count", .ofWhole 2)])]⟩
    let child : String → Plan := fun key =>
      (Plan.named key).attach ⟨.relocate key, none, none⟩
    let root := (Plan.named "order").attach .detached
    let plan : Plan := { root with children := [(.this, child "price"), (.this, child "stock")] }
    let exchanged : Plan :=
      { root with children := [(.this, child "stock"), (.this, child "price")] }
    let host := Host.byName [("order", order), ("price", detail), ("stock", detail)]
    let interpreter : Interpreter :=
      ⟨host, { Settings.standard with effortCounters := ["request_count"] }⟩
    let final : StepResult := ⟨[("content",
        .mapping [("id", .null), ("price", .bool true), ("stock", .bool true)]),
      ("metadata", .mapping [("request_count", .ofWhole 5)])]⟩
    let final' : StepResult := ⟨[("content",
        .mapping [("id", .null), ("stock", .bool true), ("price", .bool true)]),
      ("metadata", .mapping [("request_count", .ofWhole 5)])]⟩
    let after : History := [.run ⟨root.fields⟩ [], .run ⟨(child "price").fields⟩ [],
      .run ⟨(child "stock").fields⟩ []]
    let after' : History := [.run ⟨root.fields⟩ [], .run ⟨(child "stock").fields⟩ [],
      .run ⟨(child "price").fields⟩ []]
    interpreter.host.Memoryless ∧ interpreter.host.interpolate = none ∧
      interpreter.host.mergeDown = none ∧ plan.binding = .ok "order" ∧
      (child "price").Independent "order" "price" ∧ (child "stock").Independent "order" "stock" ∧
      "price" ≠ "stock" ∧ runPlan interpreter [] plan .empty [] = .ok final after ∧
      runPlan interpreter [] exchanged .empty [] = .ok final' after' ∧
      ∃ own stepped received,
        Ran interpreter [] plan .empty [] "order" own stepped received final after ∧
        EitherOrder (fun counter => Counts (own.count? counter) ∧
          ∀ child ∈ received, Counts (child.count? counter)) final final' := by
  intro order detail child root plan exchanged host interpreter final final' after after'
  have hhost : interpreter.host.Memoryless := Host.memoryless_byName _
  have hchild : ∀ key, (child key).Independent "order" key := by
    intro key
    refine ⟨⟨none, rfl⟩, rfl, .intro rfl (fun _ h => by cases h) (fun _ h => by cases h), ?_⟩
    rintro node (_ | hbelow | hbelow) reference ⟨name, value, hmem, hstructural, _⟩
    · have hfields : (child key).fields.keys = ["as", "attach"] := rfl
      have hname : name ∈ ["as", "attach"] := hfields ▸ List.mem_map_of_mem hmem
      have hown : ∀ name ∈ ["as", "attach"], isStructural name = true := by decide
      rw [hown name hname] at hstructural
      cases hstructural
    · cases hbelow
    · cases hbelow
  have hrun : runPlan interpreter [] plan .empty [] = .ok final after := rfl
  have hrun' : runPlan interpreter [] exchanged .empty [] = .ok final' after' := rfl
  have hne : "price" ≠ "stock" := by decide
  have hchildren : plan.children = [] ++ [(.this, child "price"), (.this, child "stock")] := rfl
  obtain ⟨own, stepped, received, _, _, hran, hother, hsame⟩ :=
    runPlan_exchange hhost rfl rfl rfl hchildren (hchild "price") (hchild "stock") hne hrun
  cases hother.symm.trans hrun'
  exact ⟨hhost, rfl, rfl, rfl, hchild "price", hchild "stock", hne, hrun, hrun', own, stepped,
    received, hran, hsame⟩

end Interpreter

end PlanFold
