import PlanFold.Proofs.FanOutFrame
import PlanFold.Proofs.Simulation

/-!
# A child on every element of a list

A directive on the elements of a list updates each of them by itself. An element
gets a child result (the default of the plan, or the answer of its default hook,
or what running the child gives) and has it folded in; no element sees another
one. The list is written back to where it was read, and nothing else of the
content changes. The first element that fails ends the directive.

With a host that answers by what it is shown, what becomes of an element does
not depend on where it stands, so the list may be rearranged or cut in parts.
-/

set_option autoImplicit false

namespace PlanFold.Interpreter

inductive Supplied (node : Node) (branch : Branch) (element : Value) (history : History) :
    StepResult → History → Prop
  | default {content : Value} :
      defaultFor? branch.plan element = some content →
      Supplied node branch element history (.ofContent content) history
  | computed {child : StepResult} {after : History} :
      defaultFor? branch.plan element = none →
      askDefault node branch element history = .ok (some child) after →
      Supplied node branch element history child after
  | run {child : StepResult} {between after : History} :
      defaultFor? branch.plan element = none →
      askDefault node branch element history = .ok none between →
      branch.run (node.state.bind node.binding element) between = .ok child after →
      Supplied node branch element history child after

inductive Halted (interpreter : Interpreter) (node : Node) (branch : Branch) (attach : Attach)
    (element : Value) (history : History) : PlanError → History → Prop
  | hook {e : PlanError} {after : History} :
      defaultFor? branch.plan element = none →
      askDefault node branch element history = .error e after →
      Halted interpreter node branch attach element history e after
  | run {e : PlanError} {between after : History} :
      defaultFor? branch.plan element = none →
      askDefault node branch element history = .ok none between →
      branch.run (node.state.bind node.binding element) between = .error e after →
      Halted interpreter node branch attach element history e after
  | folding {child : StepResult} {e : PlanError} {between after : History} :
      Supplied node branch element history child between →
      integrateElement interpreter.host attach element child between = .error e after →
      Halted interpreter node branch attach element history e after

/-- Elements updated in order, each after the calls of those before it: the child results
they got, and what has become of them. -/
inductive Updated (interpreter : Interpreter) (node : Node) (branch : Branch) (attach : Attach) :
    List Value → History → List StepResult → List Value → History → Prop
  | nil {history : History} : Updated interpreter node branch attach [] history [] [] history
  | cons {element folded : Value} {rest others : List Value} {child : StepResult}
      {children : List StepResult} {history between later after : History} :
      Supplied node branch element history child between →
      integrateElement interpreter.host attach element child between = .ok folded later →
      Updated interpreter node branch attach rest later children others after →
      Updated interpreter node branch attach (element :: rest) history (child :: children)
        (folded :: others) after

def elementChild (node : Node) (branch : Branch) (element : Value) : Run StepResult :=
  match defaultFor? branch.plan element with
  | some content => pure (.ofContent content)
  | none => runChild node branch element

def updateElement (interpreter : Interpreter) (node : Node) (branch : Branch) (attach : Attach)
    (element : Value) : Run Value := do
  let child ← elementChild node branch element
  integrateElement interpreter.host attach element child

variable {interpreter : Interpreter} {node : Node} {branch : Branch} {attach : Attach}
  {element : Value} {items others : List Value} {children : List StepResult}
  {history between after : History}

theorem supplied_iff {child : StepResult} : Supplied node branch element history child after ↔
    elementChild node branch element history = .ok child after := by
  unfold elementChild
  constructor
  · intro h
    cases h with
    | default hdefault =>
      rw [hdefault]
      rfl
    | computed hdefault hasked =>
      rw [hdefault, runChild_eq]
      exact Run.bind_ok_iff.mpr ⟨_, _, hasked, rfl⟩
    | run hdefault hasked hrun =>
      rw [hdefault, runChild_eq]
      exact Run.bind_ok_iff.mpr ⟨_, _, hasked, hrun⟩
  · intro h
    cases hdefault : defaultFor? branch.plan element with
    | some content =>
      rw [hdefault] at h
      obtain ⟨rfl, rfl⟩ := Run.pure_ok_iff.mp h
      exact .default hdefault
    | none =>
      rw [hdefault, runChild_eq] at h
      obtain ⟨computed, between, hasked, h⟩ := Run.bind_ok_iff.mp h
      cases computed with
      | some result =>
        obtain ⟨rfl, rfl⟩ := Run.pure_ok_iff.mp h
        exact .computed hdefault hasked
      | none => exact .run hdefault hasked h

theorem updateElement_ok_iff {folded : Value} :
    updateElement interpreter node branch attach element history = .ok folded after ↔
      ∃ child between, Supplied node branch element history child between ∧
        integrateElement interpreter.host attach element child between = .ok folded after := by
  unfold updateElement
  simp only [Run.bind_ok_iff, supplied_iff]

theorem halted_iff {e : PlanError} :
    Halted interpreter node branch attach element history e after ↔
      updateElement interpreter node branch attach element history = .error e after := by
  unfold updateElement
  rw [Run.bind_error_iff]
  constructor
  · intro h
    cases h with
    | hook hdefault hasked =>
      left
      unfold elementChild
      rw [hdefault, runChild_eq]
      exact Run.bind_error_iff.mpr (.inl hasked)
    | run hdefault hasked hrun =>
      left
      unfold elementChild
      rw [hdefault, runChild_eq]
      exact Run.bind_error_iff.mpr (.inr ⟨_, _, hasked, hrun⟩)
    | folding hsupplied hfold => exact .inr ⟨_, _, supplied_iff.mp hsupplied, hfold⟩
  · rintro (h | ⟨child, between, hchild, hfold⟩)
    · unfold elementChild at h
      cases hdefault : defaultFor? branch.plan element with
      | some content =>
        rw [hdefault] at h
        cases h
      | none =>
        rw [hdefault, runChild_eq] at h
        rcases Run.bind_error_iff.mp h with hasked | ⟨computed, between, hasked, hrun⟩
        · exact .hook hdefault hasked
        · cases computed with
          | some result => cases hrun
          | none => exact .run hdefault hasked hrun
    · exact .folding (supplied_iff.mpr hchild) hfold

theorem Updated.length (h : Updated interpreter node branch attach items history children others
    after) : others.length = items.length := by
  induction h with
  | nil => rfl
  | cons _ _ _ ih => exact congrArg (· + 1) ih

theorem Updated.getElem? (h : Updated interpreter node branch attach items history children others
    after) {index : Nat} (hindex : items[index]? = some element) :
    ∃ child folded start between later,
      others[index]? = some folded ∧ children[index]? = some child ∧
      Updated interpreter node branch attach (items.take index) history (children.take index)
        (others.take index) start ∧
      Supplied node branch element start child between ∧
      integrateElement interpreter.host attach element child between = .ok folded later := by
  induction h generalizing index with
  | nil => simp at hindex
  | @cons first folded rest others child children history between later after hsupplied hfold _
      ih =>
    cases index with
    | zero =>
      cases hindex
      exact ⟨child, folded, history, between, later, rfl, rfl, .nil, hsupplied, hfold⟩
    | succ index =>
      obtain ⟨child', folded', start, between', later', hothers, hchildren, hbefore, hrest⟩ :=
        ih hindex
      exact ⟨child', folded', start, between', later', hothers, hchildren,
        .cons hsupplied hfold hbefore, hrest⟩

/-- Either all elements are updated, or one of them fails after those before it. -/
theorem updated_or_halted (interpreter : Interpreter) (node : Node) (branch : Branch)
    (attach : Attach) (items : List Value) (history : History) :
    (∃ children others after,
      Updated interpreter node branch attach items history children others after) ∨
    ∃ passed element rest children others between e after, items = passed ++ element :: rest ∧
      Updated interpreter node branch attach passed history children others between ∧
      Halted interpreter node branch attach element between e after := by
  induction items generalizing history with
  | nil => exact .inl ⟨[], [], history, .nil⟩
  | cons element rest ih =>
    cases hupdate : updateElement interpreter node branch attach element history with
    | error e after =>
      exact .inr ⟨[], element, rest, [], [], history, e, after, rfl, .nil, halted_iff.mpr hupdate⟩
    | ok folded later =>
      obtain ⟨child, between, hsupplied, hfold⟩ := updateElement_ok_iff.mp hupdate
      rcases ih later with ⟨children, others, after, hrest⟩ |
        ⟨passed, next, rest', children, others, middle, e, after, hitems, hpassed, hhalted⟩
      · exact .inl ⟨_, _, after, .cons hsupplied hfold hrest⟩
      · exact .inr ⟨element :: passed, next, rest', _, _, middle, e, after,
          by rw [hitems, List.cons_append], .cons hsupplied hfold hpassed, hhalted⟩

theorem elementResult_eq (interpreter : Interpreter) (node : Node) (branch : Branch)
    (result : StepResult) (element : Value) :
    elementResult interpreter node branch result element =
      elementChild node branch element >>= fun child => pure (child,
        if (defaultFor? branch.plan element).isSome then result
        else result.addEffort child interpreter.settings.effortCounters) := by
  unfold elementResult elementChild
  cases defaultFor? branch.plan element <;> rfl

theorem Updated.foldElements (h : Updated interpreter node branch attach items history children
    others after) (result : StepResult) : ∃ result',
      foldElements interpreter node branch attach result items history =
        .ok (result', others) after ∧ result'.content = result.content := by
  induction h generalizing result with
  | nil => exact ⟨result, rfl, rfl⟩
  | @cons element folded rest others child children history between later after hsupplied hfold _
      ih =>
    obtain ⟨result', hrest, hcontent⟩ :=
      ih (if (defaultFor? branch.plan element).isSome then result
        else result.addEffort child interpreter.settings.effortCounters)
    refine ⟨result', ?_, hcontent.trans ?_⟩
    · unfold Interpreter.foldElements
      rw [elementResult_eq, bind_assoc]
      refine Run.bind_ok_iff.mpr ⟨child, between, supplied_iff.mp hsupplied, ?_⟩
      rw [pure_bind]
      refine Run.bind_ok_iff.mpr ⟨folded, later, hfold, ?_⟩
      exact Run.bind_ok_iff.mpr ⟨_, after, hrest, rfl⟩
    · split
      · rfl
      · exact result.content_mapMetadata _

theorem Halted.foldElements {e : PlanError}
    (h : Halted interpreter node branch attach element history e after) (result : StepResult)
    (rest : List Value) :
    foldElements interpreter node branch attach result (element :: rest) history =
      .error e after := by
  unfold Interpreter.foldElements
  rw [elementResult_eq, bind_assoc]
  simp only [pure_bind]
  rcases Run.bind_error_iff.mp (halted_iff.mp h) with hchild | ⟨child, between, hchild, hfold⟩
  · exact Run.bind_error_iff.mpr (.inl hchild)
  · exact Run.bind_error_iff.mpr
      (.inr ⟨child, between, hchild, Run.bind_error_iff.mpr (.inl hfold)⟩)

section directive

variable {folding folding' : Folding} {list : String} {content : Fields}
  (hcontent : folding.result.content = .mapping content)
  (hlist : content.get? list = some (.list items))

include hcontent hlist

theorem direct_each (interpreter : Interpreter) (node : Node) (branch : Branch) :
    direct interpreter node folding (.each list, branch) =
      foldEach interpreter node folding branch list items := by
  have hfield : folding.result.content.field? list = some (.list items) := by
    rw [hcontent]
    exact hlist
  rw [direct_eq, choose_of_each rfl hfield]
  rfl

theorem direct_of_unattached {e : PlanError} (h : branch.plan.attachDirective = .error e) :
    direct interpreter node folding (.each list, branch) history = .error e history := by
  rw [direct_each hcontent hlist]
  unfold foldEach
  rw [h]
  rfl

theorem direct_of_updated (hattach : branch.plan.attachDirective = .ok attach)
    (h : Updated interpreter node branch attach items history children others after) :
    ∃ folding', direct interpreter node folding (.each list, branch) history =
        .ok folding' after ∧
      folding'.result.content = .mapping (content.insert list (.list others)) := by
  obtain ⟨result, hfold, hkept⟩ :=
    h.foldElements (folding.descend interpreter.settings.pageCountFields).result
  rw [content_descend, hcontent] at hkept
  refine ⟨⟨setList result list others,
    (folding.descend interpreter.settings.pageCountFields).skipPending⟩, ?_, ?_⟩
  · rw [direct_each hcontent hlist]
    refine Run.ofExcept_bind_ok_iff.mpr ⟨attach, hattach, ?_⟩
    exact Run.bind_ok_iff.mpr ⟨_, after, hfold, rfl⟩
  · exact content_setList hkept list others

theorem direct_of_halted {passed rest : List Value} {e : PlanError}
    (hattach : branch.plan.attachDirective = .ok attach)
    (hitems : items = passed ++ element :: rest)
    (h : Updated interpreter node branch attach passed history children others between)
    (hhalted : Halted interpreter node branch attach element between e after) :
    direct interpreter node folding (.each list, branch) history = .error e after := by
  obtain ⟨result, hfold, _⟩ :=
    h.foldElements (folding.descend interpreter.settings.pageCountFields).result
  rw [direct_each hcontent hlist, hitems]
  refine Run.bind_error_iff.mpr (.inr ⟨attach, history, ?_, ?_⟩)
  · rw [hattach]
    rfl
  refine Run.bind_error_iff.mpr (.inl ?_)
  rw [foldElements_append]
  refine Run.bind_error_iff.mpr (.inr ⟨_, between, hfold, ?_⟩)
  exact Run.bind_error_iff.mpr (.inl (hhalted.foldElements result rest))

theorem updated_of_direct
    (h : direct interpreter node folding (.each list, branch) history = .ok folding' after) :
    ∃ attach children others, branch.plan.attachDirective = .ok attach ∧
      Updated interpreter node branch attach items history children others after ∧
      folding'.result.content = .mapping (content.insert list (.list others)) := by
  cases hattach : branch.plan.attachDirective with
  | error e =>
    rw [direct_of_unattached hcontent hlist hattach] at h
    cases h
  | ok attach =>
    rcases updated_or_halted interpreter node branch attach items history with
      ⟨children, others, last, hupdated⟩ |
      ⟨passed, element, rest, children, others, between, e, last, hitems, hpassed, hhalted⟩
    · obtain ⟨folding'', hdirect, hwritten⟩ :=
        direct_of_updated hcontent hlist hattach hupdated
      obtain ⟨rfl, rfl⟩ := EStateM.Result.ok.inj (hdirect.symm.trans h)
      exact ⟨attach, children, others, rfl, hupdated, hwritten⟩
    · rw [direct_of_halted hcontent hlist hattach hitems hpassed hhalted] at h
      cases h

/-- A directive fails with its attach directive, or with the first element that fails. -/
theorem direct_error_iff {e : PlanError} :
    direct interpreter node folding (.each list, branch) history = .error e after ↔
      (branch.plan.attachDirective = .error e ∧ after = history) ∨
      ∃ attach passed element rest children others between,
        branch.plan.attachDirective = .ok attach ∧ items = passed ++ element :: rest ∧
        Updated interpreter node branch attach passed history children others between ∧
        Halted interpreter node branch attach element between e after := by
  constructor
  · intro h
    cases hattach : branch.plan.attachDirective with
    | error e' =>
      rw [direct_of_unattached hcontent hlist hattach] at h
      cases h
      exact .inl ⟨rfl, rfl⟩
    | ok attach =>
      rcases updated_or_halted interpreter node branch attach items history with
        ⟨children, others, last, hupdated⟩ |
        ⟨passed, element, rest, children, others, between, e', last, hitems, hpassed, hhalted⟩
      · obtain ⟨folding'', hdirect, _⟩ := direct_of_updated hcontent hlist hattach hupdated
        rw [hdirect] at h
        cases h
      · rw [direct_of_halted hcontent hlist hattach hitems hpassed hhalted] at h
        cases h
        exact .inr ⟨attach, passed, element, rest, children, others, between, rfl, hitems,
          hpassed, hhalted⟩
  · rintro (⟨hattach, rfl⟩ | ⟨attach, passed, element, rest, children, others, between, hattach,
      hitems, hpassed, hhalted⟩)
    · exact direct_of_unattached hcontent hlist hattach
    · exact direct_of_halted hcontent hlist hattach hitems hpassed hhalted

end directive

def Turns (interpreter : Interpreter) (node : Node) (branch : Branch) (attach : Attach)
    (element folded : Value) : Prop :=
  ∃ history after, updateElement interpreter node branch attach element history = .ok folded after

def Outputs (interpreter : Interpreter) (node : Node) (folding : Folding) (list : String)
    (branch : Branch) (items others : List Value) : Prop :=
  ∀ history, ∃ folding' after,
    direct interpreter node { folding with result := setList folding.result list items }
      (.each list, branch) history = .ok folding' after ∧
    folding'.result.content.field? list = some (.list others)

theorem turns_of_updated (h : Updated interpreter node branch attach items history children others
    after) : List.Forall₂ (Turns interpreter node branch attach) items others := by
  induction h with
  | nil => exact .nil
  | cons hsupplied hfold _ ih =>
    exact .cons ⟨_, _, updateElement_ok_iff.mpr ⟨_, _, hsupplied, hfold⟩⟩ ih

def anywhere (hhost : interpreter.host.Forgetful) :
    Pairing interpreter.host interpreter.settings interpreter.settings :=
  .forgetful hhost (fun _ _ => True) (fun _ h => h) _

theorem updateElement_sim {hhost : interpreter.host.Forgetful}
    (h : BranchSim (anywhere hhost) branch branch) (attach : Attach) (element : Value) :
    (anywhere hhost).Sim Eq (updateElement interpreter node branch attach element)
      (updateElement interpreter node branch attach element) := by
  have hchild : (anywhere hhost).Sim (anywhere hhost).Results (elementChild node branch element)
      (elementChild node branch element) := by
    unfold elementChild
    split
    · exact Run.sim_pure (.refl _)
    · exact runChild_sim ⟨rfl, rfl, rfl⟩ h element
  exact hchild.bind fun _ _ hsame => integrateElement_sim attach element hsame

/-- Without a memory, what becomes of an element once becomes of it always. -/
theorem updated_of_turns {hhost : interpreter.host.Forgetful}
    (h : BranchSim (anywhere hhost) branch branch)
    (hturns : List.Forall₂ (Turns interpreter node branch attach) items others)
    (history : History) : ∃ children after,
      Updated interpreter node branch attach items history children others after := by
  induction hturns generalizing history with
  | nil => exact ⟨[], history, .nil⟩
  | @cons element folded _ _ hturn _ ih =>
    obtain ⟨earlier, later, hupdate⟩ := hturn
    obtain ⟨_, next, hnow, rfl, _⟩ := (updateElement_sim h attach element).ok trivial hupdate
    obtain ⟨child, between, hsupplied, hfold⟩ := updateElement_ok_iff.mp hnow
    obtain ⟨children, after, hrest⟩ := ih next
    exact ⟨_, after, .cons hsupplied hfold hrest⟩

theorem outputs_iff {folding : Folding} {list : String} {content : Fields}
    {hhost : interpreter.host.Forgetful} (h : BranchSim (anywhere hhost) branch branch)
    (hcontent : folding.result.content = .mapping content)
    (hattach : branch.plan.attachDirective = .ok attach) :
    Outputs interpreter node folding list branch items others ↔
      List.Forall₂ (Turns interpreter node branch attach) items others := by
  let listed : Folding := { folding with result := setList folding.result list items }
  have hset : listed.result.content = .mapping (content.insert list (.list items)) :=
    content_setList hcontent list items
  have hlist := Fields.get?_insert_self list (.list items) content
  constructor
  · intro houtputs
    obtain ⟨folding', after, hdirect, hfield⟩ := houtputs []
    obtain ⟨attach', children, others', hattach', hupdated, hwritten⟩ :=
      updated_of_direct hset hlist hdirect
    cases hattach.symm.trans hattach'
    have hothers : folding'.result.content.field? list = some (.list others') := by
      rw [hwritten]
      exact Fields.get?_insert_self _ _ _
    cases hfield.symm.trans hothers
    exact turns_of_updated hupdated
  · intro hturns history
    obtain ⟨children, after, hupdated⟩ := updated_of_turns h hturns history
    obtain ⟨folding', hdirect, hwritten⟩ := direct_of_updated hset hlist hattach hupdated
    refine ⟨folding', after, hdirect, ?_⟩
    rw [hwritten]
    exact Fields.get?_insert_self _ _ _

structure Placeless (interpreter : Interpreter) (node : Node) (folding : Folding) (list : String)
    (branch : Branch) (items others : List Value) : Prop where
  outputs : Outputs interpreter node folding list branch items others
  rearranged : ∀ pairs : List (Value × Value), pairs.Perm (items.zip others) →
    Outputs interpreter node folding list branch (pairs.map Prod.fst) (pairs.map Prod.snd)
  joined : ∀ more others', Outputs interpreter node folding list branch more others' →
    Outputs interpreter node folding list branch (items ++ more) (others ++ others')
  cut : ∀ first second, items = first ++ second → ∃ front back, others = front ++ back ∧
    Outputs interpreter node folding list branch first front ∧
    Outputs interpreter node folding list branch second back

theorem placeless_of_turns {folding : Folding} {list : String} {content : Fields}
    {hhost : interpreter.host.Forgetful} (h : BranchSim (anywhere hhost) branch branch)
    (hcontent : folding.result.content = .mapping content)
    (hattach : branch.plan.attachDirective = .ok attach)
    (hturns : List.Forall₂ (Turns interpreter node branch attach) items others) :
    Placeless interpreter node folding list branch items others := by
  have houtputs : ∀ {items others : List Value},
      Outputs interpreter node folding list branch items others ↔
        List.Forall₂ (Turns interpreter node branch attach) items others :=
    outputs_iff h hcontent hattach
  constructor
  · exact houtputs.mpr hturns
  · intro pairs hperm
    rw [houtputs, List.forall₂_map_left_iff, List.forall₂_map_right_iff, List.forall₂_same]
    rintro ⟨element, folded⟩ hpair
    exact (List.forall₂_iff_zip.mp hturns).2 (hperm.mem_iff.mp hpair)
  · intro more others' hmore
    exact houtputs.mpr (List.rel_append hturns (houtputs.mp hmore))
  · rintro first second rfl
    have hfront := List.forall₂_take first.length hturns
    have hback := List.forall₂_drop first.length hturns
    rw [List.take_left] at hfront
    rw [List.drop_left] at hback
    exact ⟨_, _, (List.take_append_drop first.length others).symm, houtputs.mpr hfront,
      houtputs.mpr hback⟩

/-- One content is the other with every element of a list updated by itself: the element at
a place gets its child result after those before it, and is folded in place. -/
structure Pointwise (interpreter : Interpreter) (node : Node) (branch : Branch) (attach : Attach)
    (list : String) (content content' : Fields) (items : List Value) (history : History)
    (others : List Value) (after : History) : Prop where
  attached : branch.plan.attachDirective = .ok attach
  keys : content'.keys = content.keys
  written : content'.get? list = some (.list others)
  kept : ∀ key, key ≠ list → content'.get? key = content.get? key
  length : others.length = items.length
  elements : ∃ children,
    Updated interpreter node branch attach items history children others after ∧
    ∀ index element, items[index]? = some element → ∃ child folded start between later,
      others[index]? = some folded ∧ children[index]? = some child ∧
      Updated interpreter node branch attach (items.take index) history (children.take index)
        (others.take index) start ∧
      Supplied node branch element start child between ∧
      integrateElement interpreter.host attach element child between = .ok folded later

/-- A directive on the elements of a list that is there succeeds by updating each of them,
or fails with its attach directive or the first element that fails. With a host and default
hooks that have no memory it treats an element alike wherever that stands. -/
theorem direct_each_pointwise (interpreter : Interpreter) (node : Node) (folding : Folding)
    (child : Plan) (list : String) (content : Fields) (items : List Value)
    (hcontent : folding.result.content = .mapping content)
    (hlist : content.get? list = some (.list items)) (history : History) :
    let branch : Branch := ⟨child, runPlan interpreter node.args child⟩
    (∀ folding' after,
      direct interpreter node folding (.each list, branch) history = .ok folding' after →
      ∃ attach content' others, folding'.result.content = .mapping content' ∧
        Pointwise interpreter node branch attach list content content' items history others
          after ∧
        (interpreter.host.Forgetful → child.Memoryless →
          Placeless interpreter node folding list branch items others)) ∧
    ∀ e after, direct interpreter node folding (.each list, branch) history = .error e after ↔
      (child.attachDirective = .error e ∧ after = history) ∨
      ∃ attach passed element rest children others between,
        child.attachDirective = .ok attach ∧ items = passed ++ element :: rest ∧
        Updated interpreter node branch attach passed history children others between ∧
        Halted interpreter node branch attach element between e after := by
  intro branch
  constructor
  · intro folding' after hdirect
    obtain ⟨attach, children, others, hattach, hupdated, hwritten⟩ :=
      updated_of_direct hcontent hlist hdirect
    refine ⟨attach, _, others, hwritten, ?_, ?_⟩
    · exact {
        attached := hattach
        keys := Fields.keys_insert_of_contains (Fields.contains_of_get? hlist) _
        written := Fields.get?_insert_self _ _ _
        kept := fun key hkey => Fields.get?_insert_of_ne hkey.symm _ _
        length := hupdated.length
        elements := ⟨children, hupdated, fun index element hindex => hupdated.getElem? hindex⟩ }
    · intro hhost hchild
      have hbranch : BranchSim (anywhere hhost) branch branch :=
        runPlan_sim child fun _ => Pairing.suits_forgetful hchild
      exact placeless_of_turns hbranch hcontent hattach (turns_of_updated hupdated)
  · intro e after
    exact direct_error_iff hcontent hlist

/-- One line gets what its child run gives and one, being empty, the default; so they do
the other way round. -/
theorem direct_each_pointwise_lines :
    let lines : List Value := [.mapping [("x", .bool true)], .mapping []]
    let others : List Value := [.mapping [("x", .bool false)], .mapping [("d", .null)]]
    let content : Fields := [("id", .null), ("lines", .list lines)]
    let interpreter : Interpreter :=
      ⟨.byName [("line", .ofContent (.mapping [("x", .bool false)]))], .standard⟩
    let attach : Attach := ⟨.merge, none, none⟩
    let line : Plan := { (Plan.named "line").attach attach with
      defaultRule := some (.empty, .mapping [("d", .null)]) }
    let folding : Folding := ⟨.ofContent (.mapping content), false⟩
    let node := nodeOf interpreter [] (Plan.named "order") .empty "order" folding.result
    let branch : Branch := ⟨line, runPlan interpreter node.args line⟩
    folding.result.content = .mapping content ∧ content.get? "lines" = some (.list lines) ∧
      interpreter.host.Forgetful ∧ line.Memoryless ∧
      Pointwise interpreter node branch attach "lines" content
        [("id", .null), ("lines", .list others)] lines [] others [.run ⟨line.fields⟩ []] ∧
      Outputs interpreter node folding "lines" branch lines.reverse others.reverse := by
  intro lines others content interpreter attach line folding node branch
  have hcontent : folding.result.content = .mapping content := rfl
  have hlist : content.get? "lines" = some (.list lines) := rfl
  have hhost : interpreter.host.Forgetful := ⟨Host.memoryless_byName _, fun _ h => by cases h⟩
  have hline : line.Memoryless := .intro rfl (fun _ h => by cases h) (fun _ h => by cases h)
  have hdirect : ∃ after, direct interpreter node folding (.each "lines", branch) [] =
      .ok after [.run ⟨line.fields⟩ []] ∧
      after.result.content = .mapping [("id", .null), ("lines", .list others)] := ⟨_, rfl, rfl⟩
  obtain ⟨folding', hok, hout⟩ := hdirect
  obtain ⟨attach', content', others', hcontent', hpointwise, hplaceless⟩ :=
    (direct_each_pointwise interpreter node folding line "lines" content lines hcontent hlist
      []).1 _ _ hok
  cases hout.symm.trans hcontent'
  cases hpointwise.written
  cases hpointwise.attached
  exact ⟨hcontent, hlist, hhost, hline, hpointwise,
    (hplaceless hhost hline).rearranged _ (List.reverse_perm _)⟩

end PlanFold.Interpreter
