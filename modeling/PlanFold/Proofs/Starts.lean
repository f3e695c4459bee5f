import PlanFold.Proofs.Nodes

/-!
# Where fan-out starts its branches

`Started` lists the points at which the directives of a node run a branch: the
data it is bound to and the calls made until then. Fan-out uses what a branch
does at these points only: when every branch is exchanged for another one of
the same plan that does the same there, the result of the fan-out is the same,
errors and calls included.
-/

set_option autoImplicit false

namespace PlanFold.Interpreter

def askDefault (node : Node) (branch : Branch) (bound : Value) : Run (Option StepResult) :=
  Run.callHook branch.plan.defaultWith
    (.defaultWith (branch.plan.get? "as") bound node.args)
    (fun hook earlier => hook earlier bound node.args) none

inductive RunsOnce (node : Node) (result : StepResult) (directive : Scope × Branch) :
    Branch → Value → Prop
  | this : directive.1 = .this → result.content.isNull = false →
      RunsOnce node result directive directive.2 result.content
  | first {list : String} {passed rest : List Value} {element : Value} :
      directive.1 = .first list →
      result.content.field? list = some (.list (passed ++ element :: rest)) →
      (∀ item ∈ passed, Selection.isPrimary node.plan.partition item = false) →
      Selection.isPrimary node.plan.partition element = true →
      RunsOnce node result directive directive.2 element
  | fallback {list : String} {items : List Value} {fallback : Branch} :
      directive.1 = .first list → result.content.field? list = some (.list items) →
      items ≠ [] → (∀ item ∈ items, Selection.isPrimary node.plan.partition item = false) →
      node.fallback = some fallback →
      RunsOnce node result directive fallback node.own.toValue

inductive Started (interpreter : Interpreter) (node : Node)
    (directives : List (Scope × Branch)) (history : History) :
    Branch → Value → History → Prop
  | once {before rest : List (Scope × Branch)} {directive : Scope × Branch}
      {folding : Folding} {branch : Branch} {bound : Value} {between later : History} :
      directives = before ++ directive :: rest →
      directAll interpreter node node.start before history = .ok folding between →
      RunsOnce node folding.result directive branch bound →
      askDefault node branch bound between = .ok none later →
      Started interpreter node directives history branch bound later
  | each {before rest : List (Scope × Branch)} {directive : Scope × Branch}
      {folding : Folding} {list : String} {passed others folded : List Value}
      {element : Value} {attach : Attach} {result : StepResult}
      {between middle later : History} :
      directives = before ++ directive :: rest →
      directAll interpreter node node.start before history = .ok folding between →
      directive.1 = .each list →
      folding.result.content.field? list = some (.list (passed ++ element :: others)) →
      directive.2.plan.attachDirective = .ok attach →
      foldElements interpreter node directive.2 attach
        (folding.descend interpreter.settings.pageCountFields).result passed between =
        .ok (result, folded) middle →
      defaultFor? directive.2.plan element = none →
      askDefault node directive.2 element middle = .ok none later →
      Started interpreter node directives history directive.2 element later

variable {interpreter : Interpreter} {node : Node} {run : Plan → State → Run StepResult}

theorem runsOnce_of_choose {result : StepResult} {directive : Scope × Branch} {branch : Branch}
    {bound : Value} (h : choose node result directive = .ok (.once branch bound)) :
    RunsOnce node result directive branch bound := by
  obtain ⟨scope, child⟩ := directive
  unfold choose at h
  cases scope with
  | this =>
    cases hnull : result.content.isNull with
    | true => simp [hnull] at h
    | false =>
      simp only [hnull] at h
      cases h
      exact .this rfl hnull
  | first list =>
    obtain ⟨items, hitems, hchoice⟩ := items_of_map h (by simp)
    have hfield := listItems_some hitems
    unfold chooseFirst at hchoice
    cases hfind : items.find? (Selection.isPrimary node.plan.partition) with
    | some element =>
      rw [hfind] at hchoice
      cases hchoice
      obtain ⟨hprimary, passed, rest, rfl, hpassed⟩ := List.find?_eq_some_iff_append.mp hfind
      refine .first rfl hfield ?_ hprimary
      intro item hitem
      simpa using hpassed item hitem
    | none =>
      have hresidual : ∀ item ∈ items,
          Selection.isPrimary node.plan.partition item = false := by
        intro item hitem
        simpa using List.find?_eq_none.mp hfind item hitem
      rw [hfind] at hchoice
      cases items with
      | nil => cases hchoice
      | cons item rest =>
        cases hfallback : node.fallback with
        | none =>
          rw [hfallback] at hchoice
          cases hchoice
        | some fallback =>
          rw [hfallback] at hchoice
          cases hchoice
          exact .fallback rfl hfield (List.cons_ne_nil item rest) hresidual hfallback
  | each list =>
    obtain ⟨items, _, hchoice⟩ := items_of_map h (by simp)
    cases hchoice

theorem each_of_choose {result : StepResult} {directive : Scope × Branch} {list : String}
    {items : List Value} (h : choose node result directive = .ok (.each list items)) :
    directive.1 = .each list ∧ result.content.field? list = some (.list items) := by
  obtain ⟨scope, child⟩ := directive
  unfold choose at h
  cases scope with
  | this => cases hnull : result.content.isNull <;> simp [hnull] at h
  | first other =>
    obtain ⟨found, _, hchoice⟩ := items_of_map h (by simp)
    unfold chooseFirst at hchoice
    split at hchoice <;> cases hchoice
  | each other =>
    obtain ⟨found, hfound, hchoice⟩ := items_of_map h (by simp)
    cases hchoice
    exact ⟨rfl, listItems_some hfound⟩

theorem RunsOnce.mem {result : StepResult} {directive : Scope × Branch} {branch : Branch}
    {bound : Value} (h : RunsOnce node result directive branch bound) :
    branch = directive.2 ∨ node.fallback = some branch := by
  cases h with
  | this => exact .inl rfl
  | first => exact .inl rfl
  | fallback _ _ _ _ hfallback => exact .inr hfallback

def Branch.retie (run : Plan → State → Run StepResult) (branch : Branch) : Branch :=
  ⟨branch.plan, run branch.plan⟩

def retie (run : Plan → State → Run StepResult) (directive : Scope × Branch) : Scope × Branch :=
  (directive.1, directive.2.retie run)

def Node.retie (run : Plan → State → Run StepResult) (node : Node) : Node :=
  { node with fallback := node.fallback.map (Branch.retie run) }

def Choice.retie (run : Plan → State → Run StepResult) : Choice → Choice
  | .passOver => .passOver
  | .once branch bound => .once (branch.retie run) bound
  | .nothing => .nothing
  | .each list items => .each list items

def Agrees (run : Plan → State → Run StepResult) (node : Node) (branch : Branch) (bound : Value)
    (history : History) : Prop :=
  run branch.plan (node.state.bind node.binding bound) history =
    branch.run (node.state.bind node.binding bound) history

theorem choose_retie (result : StepResult) (directive : Scope × Branch) :
    choose (node.retie run) result (retie run directive) =
      (choose node result directive).map (Choice.retie run) := by
  obtain ⟨scope, branch⟩ := directive
  have hfirst : ∀ items, chooseFirst (node.retie run) (branch.retie run) items =
      (chooseFirst node branch items).retie run := by
    intro items
    unfold chooseFirst Node.retie
    cases items.find? (Selection.isPrimary node.plan.partition) with
    | some element => rfl
    | none => cases items <;> cases node.fallback <;> rfl
  unfold choose retie
  cases scope with
  | this =>
    simp only
    cases result.content.isNull <;> rfl
  | first list =>
    simp only
    cases listItems result list with
    | error e => rfl
    | ok items =>
      cases items with
      | none => rfl
      | some items => exact congrArg Except.ok (hfirst items)
  | each list =>
    simp only
    cases listItems result list with
    | error e => rfl
    | ok items => cases items <;> rfl

theorem runChild_eq (branch : Branch) (bound : Value) :
    runChild node branch bound = askDefault node branch bound >>= fun computed =>
      match computed with
      | some result => pure result
      | none => branch.run (node.state.bind node.binding bound) := rfl

theorem runChild_retie {branch : Branch} {bound : Value} {history : History}
    (h : ∀ later, askDefault node branch bound history = .ok none later →
      Agrees run node branch bound later) :
    runChild (node.retie run) (branch.retie run) bound history =
      runChild node branch bound history := by
  rw [runChild_eq, runChild_eq]
  refine Run.bind_congr rfl ?_
  intro computed later hcomputed
  cases computed with
  | some result => rfl
  | none => exact h later hcomputed

theorem foldChild_retie {folding : Folding} {branch : Branch} {bound : Value} {history : History}
    (h : ∀ later, askDefault node branch bound history = .ok none later →
      Agrees run node branch bound later) :
    foldChild interpreter (node.retie run) folding (branch.retie run) bound history =
      foldChild interpreter node folding branch bound history := by
  unfold foldChild
  exact Run.bind_congr (runChild_retie h) fun _ _ _ => rfl

theorem elementResult_retie {branch : Branch} {result : StepResult} {element : Value}
    {history : History} (h : defaultFor? branch.plan element = none →
      ∀ later, askDefault node branch element history = .ok none later →
        Agrees run node branch element later) :
    elementResult interpreter (node.retie run) (branch.retie run) result element history =
      elementResult interpreter node branch result element history := by
  have hplan : (branch.retie run).plan = branch.plan := rfl
  unfold elementResult
  rw [hplan]
  cases hdefault : defaultFor? branch.plan element with
  | some content => rfl
  | none => exact Run.bind_congr (runChild_retie (h hdefault)) fun _ _ _ => rfl

theorem foldElements_retie {branch : Branch} {attach : Attach} {items : List Value}
    {result : StepResult} {history : History}
    (h : ∀ passed element others result' folded middle,
      items = passed ++ element :: others →
      foldElements interpreter node branch attach result passed history =
        .ok (result', folded) middle →
      defaultFor? branch.plan element = none →
      ∀ later, askDefault node branch element middle = .ok none later →
        Agrees run node branch element later) :
    foldElements interpreter (node.retie run) (branch.retie run) attach result items history =
      foldElements interpreter node branch attach result items history := by
  induction items generalizing result history with
  | nil => rfl
  | cons element rest ih =>
    unfold foldElements
    have hfirst : elementResult interpreter (node.retie run) (branch.retie run) result element
        history = elementResult interpreter node branch result element history :=
      elementResult_retie (h [] element rest result [] history rfl rfl)
    refine Run.bind_congr hfirst ?_
    rintro ⟨child, result'⟩ between hchild
    rw [hfirst] at hchild
    refine Run.bind_congr rfl ?_
    intro folded later hfolded
    refine Run.bind_congr (ih ?_) fun _ _ _ => rfl
    intro passed next others result'' tail middle hrest htail
    apply h (element :: passed) next others result'' (folded :: tail) middle
    · rw [hrest, List.cons_append]
    · unfold foldElements
      refine Run.bind_ok_iff.mpr ⟨(child, result'), between, hchild, ?_⟩
      refine Run.bind_ok_iff.mpr ⟨folded, later, hfolded, ?_⟩
      exact Run.bind_ok_iff.mpr ⟨(result'', tail), middle, htail, rfl⟩

theorem direct_retie {folding : Folding} {directive : Scope × Branch} {history : History}
    (honce : ∀ branch bound, RunsOnce node folding.result directive branch bound →
      ∀ later, askDefault node branch bound history = .ok none later →
        Agrees run node branch bound later)
    (heach : ∀ list passed element others attach result folded middle,
      directive.1 = .each list →
      folding.result.content.field? list = some (.list (passed ++ element :: others)) →
      directive.2.plan.attachDirective = .ok attach →
      foldElements interpreter node directive.2 attach
        (folding.descend interpreter.settings.pageCountFields).result passed history =
        .ok (result, folded) middle →
      defaultFor? directive.2.plan element = none →
      ∀ later, askDefault node directive.2 element middle = .ok none later →
        Agrees run node directive.2 element later) :
    direct interpreter (node.retie run) folding (retie run directive) history =
      direct interpreter node folding directive history := by
  rw [direct_eq, direct_eq, choose_retie]
  cases hchoice : choose node folding.result directive with
  | error e => rfl
  | ok choice =>
    show act interpreter (node.retie run) folding (directive.2.retie run) (choice.retie run)
      history = act interpreter node folding directive.2 choice history
    cases choice with
    | passOver => rfl
    | once branch bound => exact foldChild_retie (honce branch bound (runsOnce_of_choose hchoice))
    | nothing => rfl
    | each list items =>
      obtain ⟨hscope, hfield⟩ := each_of_choose hchoice
      unfold act Choice.retie foldEach
      refine Run.bind_congr rfl ?_
      intro attach between hrun
      obtain ⟨hattach, rfl⟩ := Run.ofExcept_ok_iff.mp hrun
      refine Run.bind_congr (foldElements_retie ?_) fun _ _ _ => rfl
      intro passed element others result folded middle hitems
      rw [hitems] at hfield
      exact heach list passed element others attach result folded middle hscope hfield hattach

theorem directAll_retie {directives : List (Scope × Branch)} {folding : Folding}
    {history : History}
    (h : ∀ before directive rest folding' between,
      directives = before ++ directive :: rest →
      directAll interpreter node folding before history = .ok folding' between →
      direct interpreter (node.retie run) folding' (retie run directive) between =
        direct interpreter node folding' directive between) :
    directAll interpreter (node.retie run) folding (directives.map (retie run)) history =
      directAll interpreter node folding directives history := by
  induction directives generalizing folding history with
  | nil => rfl
  | cons directive rest ih =>
    have hfirst := h [] directive rest folding history rfl rfl
    refine Run.bind_congr hfirst ?_
    intro folding' between hdirective
    rw [hfirst] at hdirective
    apply ih
    intro before next others folding'' later hrest hbefore
    apply h (directive :: before) next others folding'' later
    · rw [hrest, List.cons_append]
    · exact Run.bind_ok_iff.mpr ⟨_, _, hdirective, hbefore⟩

/-- Fan-out is the same when the branches agree wherever they are started. -/
theorem fanOut_retie {directives : List (Scope × Branch)} {history : History}
    (h : ∀ branch bound later,
      Started interpreter node directives history branch bound later →
        Agrees run node branch bound later) :
    fanOut interpreter (node.retie run) (directives.map (retie run)) history =
      fanOut interpreter node directives history := by
  unfold fanOut
  refine Run.bind_congr (directAll_retie ?_) fun _ _ _ => rfl
  intro before directive rest folding between hdirectives hbefore
  apply direct_retie
  · intro branch bound hruns later hdeclined
    exact h _ _ _ (.once hdirectives hbefore hruns hdeclined)
  · intro list passed element others attach result folded middle hscope hfield hattach hpassed
      hdefault later hdeclined
    exact h _ _ _ (.each hdirectives hbefore hscope hfield hattach hpassed hdefault hdeclined)

theorem Started.mem {directives : List (Scope × Branch)} {history later : History}
    {branch : Branch} {bound : Value}
    (h : Started interpreter node directives history branch bound later) :
    (∃ directive ∈ directives, directive.2 = branch) ∨ node.fallback = some branch := by
  cases h with
  | once hdirectives _ hruns _ =>
    rcases hruns.mem with rfl | hfallback
    · exact .inl ⟨_, by simp [hdirectives], rfl⟩
    · exact .inr hfallback
  | each hdirectives => exact .inl ⟨_, by simp [hdirectives], rfl⟩

theorem listItems_of_field {result : StepResult} {list : String} {items : List Value}
    (h : result.content.field? list = some (.list items)) :
    listItems result list = .ok (some items) := by
  unfold listItems
  rw [h]

theorem choose_of_runsOnce {result : StepResult} {directive : Scope × Branch} {branch : Branch}
    {bound : Value} (h : RunsOnce node result directive branch bound) :
    choose node result directive = .ok (.once branch bound) := by
  unfold choose
  cases h with
  | this hscope hnull =>
    rw [hscope]
    simp only [hnull]
    rfl
  | @first list passed rest _ hscope hfield hpassed hprimary =>
    have hfind : (passed ++ bound :: rest).find? (Selection.isPrimary node.plan.partition) =
        some bound := by
      refine List.find?_eq_some_iff_append.mpr ⟨hprimary, passed, rest, rfl, ?_⟩
      intro item hitem
      rw [hpassed item hitem]
      rfl
    rw [hscope]
    simp only [listItems_of_field hfield, Except.map, Option.elim, chooseFirst, hfind]
  | @fallback list items fallback hscope hfield hne hresidual hfallback =>
    have hfind : items.find? (Selection.isPrimary node.plan.partition) = none := by
      apply List.find?_eq_none.mpr
      intro item hitem
      simp [hresidual item hitem]
    rw [hscope]
    simp only [listItems_of_field hfield, Except.map, Option.elim, chooseFirst, hfind]
    cases items with
    | nil => exact absurd rfl hne
    | cons item others => rw [hfallback]

theorem choose_of_each {result : StepResult} {directive : Scope × Branch} {list : String}
    {items : List Value} (hscope : directive.1 = .each list)
    (hfield : result.content.field? list = some (.list items)) :
    choose node result directive = .ok (.each list items) := by
  unfold choose
  rw [hscope]
  simp only [listItems_of_field hfield, Except.map, Option.elim]

theorem directAll_split {before rest : List (Scope × Branch)} {directive : Scope × Branch}
    {folding folding' folding'' : Folding} {history between after : History}
    (h : directAll interpreter node folding (before ++ directive :: rest) history =
      .ok folding'' after)
    (hbefore : directAll interpreter node folding before history = .ok folding' between) :
    ∃ done later, direct interpreter node folding' directive between = .ok done later := by
  rw [directAll_append] at h
  obtain ⟨reached, middle, hreached, h⟩ := Run.bind_ok_iff.mp h
  rw [hbefore] at hreached
  cases hreached
  obtain ⟨done, later, hdone, _⟩ := Run.bind_ok_iff.mp h
  exact ⟨done, later, hdone⟩

theorem foldElements_split {branch : Branch} {attach : Attach} {passed others : List Value}
    {element : Value} {result result' : StepResult} {folded : List Value}
    {out : StepResult × List Value} {history middle after : History}
    (h : foldElements interpreter node branch attach result (passed ++ element :: others)
      history = .ok out after)
    (hpassed : foldElements interpreter node branch attach result passed history =
      .ok (result', folded) middle) :
    ∃ answer later, elementResult interpreter node branch result' element middle =
      .ok answer later := by
  rw [foldElements_append] at h
  obtain ⟨reached, between, hreached, h⟩ := Run.bind_ok_iff.mp h
  rw [hpassed] at hreached
  cases hreached
  obtain ⟨_, _, hrest, _⟩ := Run.bind_ok_iff.mp h
  obtain ⟨answer, later, hanswer, _⟩ := Run.bind_ok_iff.mp hrest
  exact ⟨answer, later, hanswer⟩

theorem run_of_runChild {branch : Branch} {bound : Value} {child : StepResult}
    {history later after : History} (h : runChild node branch bound history = .ok child after)
    (hdeclined : askDefault node branch bound history = .ok none later) :
    branch.run (node.state.bind node.binding bound) later = .ok child after := by
  rw [runChild_eq, Run.bind_run, hdeclined] at h
  exact h

/-- When all directives of a node succeed, so does every branch they start. -/
theorem Started.succeeds {directives : List (Scope × Branch)} {history later after : History}
    {branch : Branch} {bound : Value} {folding : Folding}
    (h : Started interpreter node directives history branch bound later)
    (hall : directAll interpreter node node.start directives history = .ok folding after) :
    ∃ result last, branch.run (node.state.bind node.binding bound) later = .ok result last := by
  cases h with
  | once hdirectives hbefore hruns hdeclined =>
    rw [hdirectives] at hall
    obtain ⟨_, _, hdone⟩ := directAll_split hall hbefore
    rw [direct_eq] at hdone
    obtain ⟨choice, hchoice, hdone⟩ := Run.ofExcept_bind_ok_iff.mp hdone
    rw [choose_of_runsOnce hruns] at hchoice
    cases hchoice
    obtain ⟨child, last, hchild, _⟩ := Run.bind_ok_iff.mp hdone
    exact ⟨child, last, run_of_runChild hchild hdeclined⟩
  | each hdirectives hbefore hscope hfield hattach hpassed hdefault hdeclined =>
    rw [hdirectives] at hall
    obtain ⟨_, _, hdone⟩ := directAll_split hall hbefore
    rw [direct_eq] at hdone
    obtain ⟨choice, hchoice, hdone⟩ := Run.ofExcept_bind_ok_iff.mp hdone
    rw [choose_of_each hscope hfield] at hchoice
    cases hchoice
    obtain ⟨attach', hattach', hdone⟩ := Run.ofExcept_bind_ok_iff.mp hdone
    rw [hattach] at hattach'
    cases hattach'
    obtain ⟨out, _, hout, _⟩ := Run.bind_ok_iff.mp hdone
    obtain ⟨answer, _, hanswer⟩ := foldElements_split hout hpassed
    unfold elementResult at hanswer
    rw [hdefault] at hanswer
    obtain ⟨child, last, hchild, _⟩ := Run.bind_ok_iff.mp hanswer
    exact ⟨child, last, run_of_runChild hchild hdeclined⟩

end PlanFold.Interpreter
