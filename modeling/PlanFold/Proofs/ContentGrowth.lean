import PlanFold.Proofs.FanOutFrame

/-!
# What the content of a node keeps

A node whose children are merged, put under a key of their own or detached
returns its content with more in it: every key is still there, in the old order
and before all new ones, and has another value only where a directive writes
it. Children of list elements may be attached in any way, since they are folded
into the elements.

Nothing is said about a child that replaces the content or takes a key away.
-/

set_option autoImplicit false

namespace PlanFold

/-- The second map has the keys of the first in their places and new ones behind them. Other
values stand under written keys only. -/
structure Fields.Grown (written : String → Prop) (before after : Fields) : Prop where
  keys : ∃ added, after.keys = before.keys ++ added ∧ ∀ key ∈ added, key ∉ before.keys
  values : ∀ key, ¬written key → after.get? key = before.get? key

namespace Fields

variable {written other : String → Prop} {first second third : Fields}

theorem Grown.refl (fields : Fields) : Grown written fields fields :=
  ⟨⟨[], by simp, by simp⟩, fun _ _ => rfl⟩

theorem Grown.trans (h : Grown written first second) (h' : Grown written second third) :
    Grown written first third := by
  obtain ⟨added, hkeys, hadded⟩ := h.keys
  obtain ⟨more, hkeys', hmore⟩ := h'.keys
  refine ⟨⟨added ++ more, by rw [hkeys', hkeys, List.append_assoc], ?_⟩, ?_⟩
  · intro key hkey
    rcases List.mem_append.mp hkey with hk | hk
    · exact hadded key hk
    · exact fun hin => hmore key hk (hkeys ▸ List.mem_append_left added hin)
  · intro key hnot
    rw [h'.values key hnot, h.values key hnot]

theorem Grown.mono (h : Grown written first second) (hle : ∀ key, written key → other key) :
    Grown other first second :=
  ⟨h.keys, fun key hnot => h.values key fun hw => hnot (hle key hw)⟩

theorem grown_insert {key : String} (h : written key) (value : Value) (fields : Fields) :
    Grown written fields (fields.insert key value) := by
  constructor
  · rw [keys_insert]
    by_cases hin : key ∈ fields.keys
    · exact ⟨[], by simp [hin], by simp⟩
    · exact ⟨[key], by simp [hin], by simpa using hin⟩
  · intro name hnot
    apply get?_insert_of_ne
    rintro rfl
    exact hnot h

theorem grown_merge {others : Fields} (h : ∀ key ∈ others.keys, written key) (fields : Fields) :
    Grown written fields (fields.merge others) := by
  induction others generalizing fields with
  | nil => exact Grown.refl fields
  | cons field rest ih =>
    obtain ⟨name, value⟩ := field
    have hname : written name := h name (by simp [keys])
    have hrest : ∀ key ∈ keys rest, written key :=
      fun key hk => h key (List.mem_cons_of_mem name hk)
    exact (grown_insert hname value fields).trans (ih hrest _)

end Fields

namespace Attach

def Adds (attach : Attach) : Prop :=
  match attach.mode with
  | .replace => False
  | .relocate _ => attach.fromKey = none
  | _ => True

def Writes (attach : Attach) (source : StepResult) (key : String) : Prop :=
  match attach.mode with
  | .detached => False
  | .merge => key ∈ (attach.contribution source).entries.keys
  | .replace => True
  | .relocate name => name = key

theorem grown_written {attach : Attach} (hadds : attach.Adds) (hmode : attach.mode ≠ .detached)
    (source : StepResult) (slot : Fields) :
    ∃ slot', attach.written slot (attach.contribution source) = .mapping slot' ∧
      Fields.Grown (attach.Writes source) slot slot' := by
  unfold Adds at hadds
  unfold written Writes
  cases hm : attach.mode with
  | detached => exact absurd hm hmode
  | merge => exact ⟨_, rfl, Fields.grown_merge (fun _ hk => hk) slot⟩
  | replace =>
    rw [hm] at hadds
    exact hadds.elim
  | relocate name =>
    rw [hm] at hadds
    have hkept : attach.fromKey = none := hadds
    have hgrown : Fields.Grown (fun key => name = key) slot
        (slot.insert name (attach.contribution source)) := Fields.grown_insert rfl _ slot
    rw [hkept]
    exact ⟨_, rfl, hgrown⟩

end Attach

def Plan.AttachesAdding (plan : Plan) : Prop :=
  ∀ attach, plan.attachDirective = .ok attach → attach.Adds

/-- No child that is folded into the content of the plan takes anything away from it, and
neither does the fallback. -/
def Plan.ChildrenAdd (plan : Plan) : Prop :=
  (∀ directive ∈ plan.children, (∀ list, directive.1 ≠ .each list) → directive.2.AttachesAdding) ∧
    ∀ fallback, plan.fallback = some fallback → fallback.AttachesAdding

def StepResult.ContentGrown (written : String → Prop) (before after : StepResult) : Prop :=
  ∀ content : Fields, before.content = .mapping content →
    ∃ content', after.content = .mapping content' ∧ Fields.Grown written content content'

namespace StepResult

variable {written : String → Prop} {first second third : StepResult}

theorem contentGrown_of_eq (h : second.content = first.content) :
    ContentGrown written first second :=
  fun content hcontent => ⟨content, h.trans hcontent, .refl content⟩

theorem ContentGrown.trans (h : ContentGrown written first second)
    (h' : ContentGrown written second third) : ContentGrown written first third := by
  intro content hcontent
  obtain ⟨content', hcontent', hgrown⟩ := h content hcontent
  obtain ⟨content'', hcontent'', hgrown'⟩ := h' content' hcontent'
  exact ⟨content'', hcontent'', hgrown.trans hgrown'⟩

end StepResult

namespace Interpreter

variable {interpreter : Interpreter} {args : List Value} {node : Node} {folding folding' : Folding}
  {directive : Scope × Branch} {history after : History}

inductive Folds (interpreter : Interpreter) (node : Node) (folding : Folding)
    (directive : Scope × Branch) (history : History) : Attach → StepResult → Prop
  | child {branch : Branch} {bound : Value} {attach : Attach} {child : StepResult}
      {between : History} :
      RunsOnce node folding.result directive branch bound →
      branch.plan.attachDirective = .ok attach →
      runChild node branch bound history = .ok child between →
      Folds interpreter node folding directive history attach child
  | nothing {attach : Attach} :
      choose node folding.result directive = .ok .nothing →
      directive.2.plan.attachDirective = .ok attach →
      Folds interpreter node folding directive history attach .empty

inductive Written (interpreter : Interpreter) (node : Node) (directives : List (Scope × Branch))
    (history : History) (key : String) : Prop
  | list {directive : Scope × Branch} :
      directive ∈ directives → directive.1 = .each key →
      Written interpreter node directives history key
  | folded {before rest : List (Scope × Branch)} {directive : Scope × Branch} {folding : Folding}
      {between : History} {attach : Attach} {source : StepResult} :
      directives = before ++ directive :: rest →
      directAll interpreter node node.start before history = .ok folding between →
      Folds interpreter node folding directive between attach source →
      attach.Writes source key →
      Written interpreter node directives history key

theorem grown_integrate {attach : Attach} {target out : Fields} {source : StepResult}
    (hhook : interpreter.host.mergeDown = none) (hadds : attach.Adds)
    (h : integrate interpreter.host attach target source history = .ok out after) :
    StepResult.ContentGrown (attach.Writes source) ⟨target⟩ ⟨out⟩ := by
  obtain ⟨_, ⟨_, rfl⟩ | ⟨hmode, hfold⟩⟩ := integrate_ok hhook h
  · exact StepResult.contentGrown_of_eq rfl
  · intro content hcontent
    have hget := StepResult.get?_of_content hcontent
    have hslot : slotOf target = content := slotOf_mapping hget
    obtain ⟨_, _, hout⟩ :=
      (attach.foldInto_wrapped_iff hmode (Fields.contains_of_get? hget) source).mp hfold
    rw [hslot] at hout
    obtain ⟨content', hwritten, hgrown⟩ := Attach.grown_written hadds hmode source content
    refine ⟨content', ?_, hgrown⟩
    rw [← hout, StepResult.content_setContent, hwritten]

theorem grown_setList {written : String → Prop} {list : String} (h : written list)
    (result : StepResult) (items : List Value) :
    result.ContentGrown written (setList result list items) := by
  intro content hcontent
  exact ⟨_, content_setList hcontent list items, Fields.grown_insert h _ content⟩

theorem not_each_of_nothing (h : choose node folding.result directive = .ok .nothing)
    (list : String) : directive.1 ≠ .each list := by
  intro hscope
  unfold choose at h
  rw [hscope] at h
  obtain ⟨items, _, hchoice⟩ := items_of_map h (by simp)
  cases hchoice

/-- One directive lets the content grow by what it folds in. -/
theorem grown_direct {written : String → Prop} (hhook : interpreter.host.mergeDown = none)
    (hadds : (∀ list, directive.1 ≠ .each list) → directive.2.plan.AttachesAdding)
    (hfallback : ∀ branch, node.fallback = some branch → branch.plan.AttachesAdding)
    (heach : ∀ list, directive.1 = .each list → written list)
    (hfolds : ∀ attach source, Folds interpreter node folding directive history attach source →
      ∀ key, attach.Writes source key → written key)
    (h : direct interpreter node folding directive history = .ok folding' after) :
    folding.result.ContentGrown written folding'.result := by
  have hdescended : ∀ received,
      ((folding.descend interpreter.settings.pageCountFields).result.addEfforts received
        interpreter.settings.effortCounters).content = folding.result.content :=
    fun received => (StepResult.content_addEfforts _ received _).trans (content_descend folding _)
  have hfolded : ∀ {attach : Attach} {source : StepResult} {target out : Fields}
      {between last : History},
      Folds interpreter node folding directive history attach source → attach.Adds →
      (⟨target⟩ : StepResult).content = folding.result.content →
      integrate interpreter.host attach target source between = .ok out last →
      folding.result.ContentGrown written ⟨out⟩ := by
    intro attach source target out between last hfold hattach hcontent hout content hmapping
    obtain ⟨content', hcontent', hgrown⟩ :=
      grown_integrate hhook hattach hout content (hcontent.trans hmapping)
    exact ⟨content', hcontent', hgrown.mono (hfolds attach source hfold)⟩
  obtain ⟨received, hcarried⟩ := carried_of_ok h
  cases hcarried with
  | passOver => exact StepResult.contentGrown_of_eq rfl
  | @once branch bound child attach fields between after hchoice hchild hattach hfields =>
    have hruns := runsOnce_of_choose hchoice
    have hbranch : branch.plan.AttachesAdding := by
      cases hruns with
      | this hscope => exact hadds fun list hlist => by simp [hscope] at hlist
      | first hscope => exact hadds fun list hlist => by simp [hscope] at hlist
      | fallback _ _ _ _ hsome => exact hfallback _ hsome
    exact hfolded (.child hruns hattach hchild) (hbranch attach hattach) (hdescended [child])
      hfields
  | nothing hchoice hattach hfields =>
    have hbranch := hadds (not_each_of_nothing hchoice)
    exact hfolded (.nothing hchoice hattach) (hbranch _ hattach) rfl hfields
  | @each list items others attach _ result _ hchoice hattach hresult =>
    have hcontent : result.content = folding.result.content := by
      rw [folded_result hresult]
      exact hdescended received
    exact (StepResult.contentGrown_of_eq hcontent).trans
      (grown_setList (heach list (each_of_choose hchoice).1) result others)

theorem grown_directAll {directives before rest : List (Scope × Branch)} {started : History}
    (hhook : interpreter.host.mergeDown = none)
    (hadds : ∀ directive ∈ directives,
      (∀ list, directive.1 ≠ .each list) → directive.2.plan.AttachesAdding)
    (hfallback : ∀ branch, node.fallback = some branch → branch.plan.AttachesAdding)
    (hdirectives : directives = before ++ rest)
    (hbefore : directAll interpreter node node.start before started = .ok folding history)
    (h : directAll interpreter node folding rest history = .ok folding' after) :
    folding.result.ContentGrown (Written interpreter node directives started) folding'.result := by
  induction rest generalizing before folding history with
  | nil =>
    obtain ⟨rfl, _⟩ := Run.pure_ok_iff.mp h
    exact StepResult.contentGrown_of_eq rfl
  | cons directive rest ih =>
    obtain ⟨next, between, hdirective, hrest⟩ := Run.bind_ok_iff.mp h
    have hmem : directive ∈ directives := by simp [hdirectives]
    have hgrown : folding.result.ContentGrown (Written interpreter node directives started)
        next.result :=
      grown_direct hhook (hadds directive hmem) hfallback (fun list => Written.list hmem)
        (fun attach source hfold key => Written.folded hdirectives hbefore hfold) hdirective
    have hsplit : directives = (before ++ [directive]) ++ rest := by simp [hdirectives]
    refine hgrown.trans (ih hsplit ?_ hrest)
    rw [directAll_append]
    refine Run.bind_ok_iff.mpr ⟨folding, history, hbefore, ?_⟩
    exact Run.bind_ok_iff.mpr ⟨next, between, hdirective, rfl⟩

theorem adding_branches {plan : Plan} (h : plan.ChildrenAdd) {directive : Scope × Branch}
    (hmem : directive ∈ branches interpreter args plan.children)
    (hscope : ∀ list, directive.1 ≠ .each list) : directive.2.plan.AttachesAdding := by
  rw [branches_eq] at hmem
  obtain ⟨child, hchild, rfl⟩ := List.mem_map.mp hmem
  exact h.1 child hchild hscope

theorem adding_fallback {plan : Plan} (h : plan.ChildrenAdd) {branch : Branch}
    (hbranch : fallbackBranch interpreter args plan.fallback = some branch) :
    branch.plan.AttachesAdding := by
  obtain ⟨fallback, hfallback, rfl⟩ := fallbackBranch_some hbranch
  exact h.2 fallback hfallback

/-- In a run that succeeds, a node none of whose children takes anything away returns its
own content with all its keys in their order and new ones behind them, and with other values
under written keys only. -/
theorem runPlan_keepsContent {root : Entry} {final : StepResult}
    (hhook : interpreter.host.mergeDown = none)
    (hrun : runPlan interpreter args root.plan root.state root.history = .ok final after) :
    ∀ trail entry, Path interpreter args root trail entry →
      ∃ binding own stepped result last,
        entry.plan.validate entry.state interpreter.settings.requiredFields = .ok binding ∧
        runStep interpreter entry.plan entry.state args entry.history = .ok own stepped ∧
        runPlan interpreter args entry.plan entry.state entry.history = .ok result last ∧
        (entry.plan.ChildrenAdd → ∀ content : Fields, own.content = .mapping content →
          ∃ content', result.content = .mapping content' ∧
            Fields.Grown (Written interpreter
              (nodeOf interpreter args entry.plan entry.state binding own)
              (branches interpreter args entry.plan.children) stepped) content content') := by
  intro trail entry hpath
  obtain ⟨result, last, hresult⟩ := hpath.succeeds hrun
  obtain ⟨binding, own, stepped, folding, hvalid, hstep, hall, rfl⟩ := stages_of_ok hresult
  refine ⟨binding, own, stepped, _, last, hvalid, hstep, hresult, ?_⟩
  intro hadds content hcontent
  obtain ⟨content', hcontent', hgrown⟩ := grown_directAll hhook
    (fun directive hmem => adding_branches hadds hmem) (fun branch => adding_fallback hadds)
    (List.nil_append _).symm rfl hall content hcontent
  exact ⟨content', (content_descend folding _).trans hcontent', hgrown⟩

/-- Each line is replaced, the first of them is put under a key that is there already, and
the fields of a note are merged with marked keys. -/
theorem runPlan_keepsContent_note :
    let order : StepResult := .ofContent
      (.mapping [("id", .bool true), ("lines", .list [.mapping [("x", .null)]])])
    let interpreter : Interpreter := ⟨.byName [("order", order),
      ("head", .ofContent (.bool false)), ("note", .ofContent (.mapping [("id", .null)]))],
      .standard⟩
    let line := (Plan.named "line").attach ⟨.replace, none, none⟩
    let head := (Plan.named "head").attach ⟨.relocate "id", none, none⟩
    let note := (Plan.named "note").attach ⟨.merge, none, some "n_"⟩
    let trunk := (Plan.named "order").attach .detached
    let plan := ((trunk.fanOut (.each "lines") line).fanOut (.first "lines") head).fanOut .this note
    let stepped : History := [.run ⟨trunk.fields⟩ []]
    let after : History := [.run ⟨trunk.fields⟩ [], .run ⟨line.fields⟩ [], .run ⟨head.fields⟩ [],
      .run ⟨note.fields⟩ []]
    let final : StepResult := .ofContent
      (.mapping [("id", .bool false), ("lines", .list [.mapping []]), ("n_id", .null)])
    interpreter.host.mergeDown = none ∧ runPlan interpreter [] plan .empty [] = .ok final after ∧
      plan.ChildrenAdd ∧
      Fields.Grown (Written interpreter (nodeOf interpreter [] plan .empty "order" order)
          (branches interpreter [] plan.children) stepped)
        [("id", .bool true), ("lines", .list [.mapping [("x", .null)]])]
        [("id", .bool false), ("lines", .list [.mapping []]), ("n_id", .null)] := by
  intro order interpreter line head note trunk plan stepped after final
  have hhook : interpreter.host.mergeDown = none := rfl
  have hvalid : plan.validate .empty interpreter.settings.requiredFields = .ok "order" := rfl
  have hstep : runStep interpreter plan .empty [] [] = .ok order stepped := rfl
  have hrun : runPlan interpreter [] plan .empty [] = .ok final after := rfl
  have hadds : plan.ChildrenAdd := by
    constructor
    · intro directive hmem hscope attach hattach
      simp only [plan, Plan.fanOut, List.mem_append, List.mem_singleton] at hmem
      rcases hmem with ((hmem | rfl) | rfl) | rfl
      · cases hmem
      · exact absurd rfl (hscope "lines")
      · cases hattach
        rfl
      · cases hattach
        trivial
    · intro fallback hfallback
      cases hfallback
  let root : Entry := ⟨plan, .empty, []⟩
  obtain ⟨binding, own, stepped', result, _, hvalid', hstep', hresult, hkept⟩ :=
    runPlan_keepsContent hhook hrun [] root .root
  cases hvalid.symm.trans hvalid'
  obtain ⟨rfl, rfl⟩ := EStateM.Result.ok.inj (hstep.symm.trans hstep')
  obtain ⟨rfl, _⟩ := EStateM.Result.ok.inj (hrun.symm.trans hresult)
  obtain ⟨content', hcontent', hgrown⟩ := hkept hadds _ rfl
  cases hcontent'
  exact ⟨hhook, hrun, hadds, hgrown⟩

end Interpreter

end PlanFold
