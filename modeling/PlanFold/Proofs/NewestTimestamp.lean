import PlanFold.Proofs.EffortLedger
import PlanFold.Proofs.FoldingOrder
import PlanFold.Proofs.PathStates

/-!
# The newest timestamp

A node whose metadata has a timestamp returns the latest of its own one and
those of the child results that are folded into it, the first of them where
several denote one instant. Any other value under that key stays as it is.

Nothing but such a folding bears on the key. A detached child does not, and
neither does a child of list elements, which is folded into the elements.
-/

set_option autoImplicit false

namespace PlanFold

def IsTimestamp (text : String) : Prop := ∃ t, Timestamp.ofText? text = some t

theorem isNewer_iff {candidate current : String} : isNewer candidate current = true ↔
    ∃ a b, Timestamp.ofText? candidate = some a ∧ Timestamp.ofText? current = some b ∧
      a.isAfter b = true := by
  unfold isNewer
  cases Timestamp.ofText? candidate <;> cases Timestamp.ofText? current <;> simp

theorem isNewer_trans {a b c : String} (hab : isNewer a b = true) (hbc : isNewer b c = true) :
    isNewer a c = true := by
  obtain ⟨s, t, hs, ht, hst⟩ := isNewer_iff.mp hab
  obtain ⟨t', u, ht', hu, htu⟩ := isNewer_iff.mp hbc
  rw [ht] at ht'
  cases ht'
  refine isNewer_iff.mpr ⟨s, u, hs, hu, ?_⟩
  rw [Timestamp.isAfter_iff] at *
  omega

theorem isNewer_asymm {a b : String} (h : isNewer a b = true) : isNewer b a = false := by
  cases hba : isNewer b a with
  | false => rfl
  | true =>
    obtain ⟨s, t, hs, ht, hst⟩ := isNewer_iff.mp h
    obtain ⟨t', s', ht', hs', hts⟩ := isNewer_iff.mp hba
    rw [ht] at ht'
    rw [hs] at hs'
    cases ht'
    cases hs'
    rw [Timestamp.isAfter_iff] at hst hts
    omega

theorem isNewer_self (text : String) : isNewer text text = false := by
  cases h : isNewer text text with
  | false => rfl
  | true => exact h.symm.trans (isNewer_asymm h)

theorem isNewer_of_not {a b c : String} (hab : isNewer a b = true) (hc : IsTimestamp c)
    (hcb : isNewer c b = false) : isNewer a c = true := by
  obtain ⟨s, t, hs, ht, hst⟩ := isNewer_iff.mp hab
  obtain ⟨u, hu⟩ := hc
  refine isNewer_iff.mpr ⟨s, u, hs, hu, ?_⟩
  have hut : ¬u.isAfter t = true := by
    intro hut
    rw [isNewer_iff.mpr ⟨u, t, hu, ht, hut⟩] at hcb
    cases hcb
  rw [Timestamp.isAfter_iff] at *
  omega

/-- The first text of the latest instant: it is newer than those before it, and none behind
it is newer. -/
def Latest (texts : List String) (last : String) : Prop :=
  ∃ before after, texts = before ++ last :: after ∧
    (∀ text ∈ before, isNewer last text = true) ∧ ∀ text ∈ after, isNewer text last = false

namespace Latest

variable {texts : List String} {text candidate last : String}

theorem single (text : String) : Latest [text] text := ⟨[], [], rfl, by simp, by simp⟩

theorem mem (h : Latest texts last) : last ∈ texts := by
  obtain ⟨before, after, rfl, _⟩ := h
  simp

theorem not_newer (h : Latest texts last) (hmem : text ∈ texts) : isNewer text last = false := by
  obtain ⟨before, after, rfl, hbefore, hafter⟩ := h
  rcases List.mem_append.mp hmem with hb | hrest
  · exact isNewer_asymm (hbefore text hb)
  · rcases List.mem_cons.mp hrest with rfl | ha
    · exact isNewer_self text
    · exact hafter text ha

/-- A first text that is not the latest can be dropped. -/
theorem cons (h : Latest (candidate :: texts) last) (hnewer : isNewer candidate text = true) :
    Latest (text :: candidate :: texts) last := by
  obtain ⟨before, after, hsplit, hbefore, hafter⟩ := h
  refine ⟨text :: before, after, by rw [hsplit, List.cons_append], ?_, hafter⟩
  intro earlier hearlier
  rcases List.mem_cons.mp hearlier with rfl | hb
  · cases before with
    | nil =>
      obtain ⟨rfl, _⟩ := List.cons.inj hsplit
      exact hnewer
    | cons first rest =>
      obtain ⟨rfl, _⟩ := List.cons.inj hsplit
      exact isNewer_trans (hbefore candidate (by simp)) hnewer
  · exact hbefore earlier hb

theorem insert (h : Latest (text :: texts) last) (hcandidate : IsTimestamp candidate)
    (hnot : isNewer candidate text = false) : Latest (text :: candidate :: texts) last := by
  obtain ⟨before, after, hsplit, hbefore, hafter⟩ := h
  cases before with
  | nil =>
    obtain ⟨rfl, rfl⟩ := List.cons.inj hsplit
    refine ⟨[], candidate :: texts, rfl, by simp, ?_⟩
    simpa [hnot] using hafter
  | cons first rest =>
    obtain ⟨rfl, rfl⟩ := List.cons.inj hsplit
    have hnewer := hbefore text (by simp)
    refine ⟨text :: candidate :: rest, after, rfl, ?_, hafter⟩
    intro earlier hearlier
    rcases List.mem_cons.mp hearlier with rfl | hearlier
    · exact hnewer
    · rcases List.mem_cons.mp hearlier with rfl | hb
      · exact isNewer_of_not hnewer hcandidate hnot
      · exact hbefore earlier (by simp [hb])

end Latest

namespace StepResult

def updated? (result : StepResult) : Option Value := result.count? "updated_at"

def timestampText? (result : StepResult) : Option String :=
  (result.updated?.bind Value.string?).filter fun text => (Timestamp.ofText? text).isSome

end StepResult

theorem string?_eq_some_iff {value : Option Value} {text : String} :
    value.bind Value.string? = some text ↔ value = some (.string text) := by
  cases value with
  | none => simp
  | some value => cases value <;> simp [Value.string?]

theorem timestampText?_eq_some_iff {result : StepResult} {text : String} :
    result.timestampText? = some text ↔
      result.updated? = some (.string text) ∧ IsTimestamp text := by
  unfold StepResult.timestampText? IsTimestamp
  rw [Option.filter_eq_some_iff, string?_eq_some_iff, Option.isSome_iff_exists]

def renewed (current : Option Value) (source : StepResult) : Option Value :=
  match source.updated?.bind Value.string?, current.bind Value.string? with
  | some candidate, some mine =>
    if isNewer candidate mine then some (.string candidate) else current
  | _, _ => current

theorem get?_newest_updated (source : StepResult) (metadata : Fields) :
    (newest source metadata).get? "updated_at" =
      renewed (metadata.get? "updated_at") source := by
  have hsource : source.updated?.bind Value.string? = source.metadata?.bind updatedAt? := by
    unfold StepResult.updated? StepResult.count?
    rw [Option.bind_assoc]
    rfl
  have hmine : (metadata.get? "updated_at").bind Value.string? = updatedAt? metadata := rfl
  unfold newest renewed
  rw [hsource, hmine]
  cases source.metadata?.bind updatedAt? with
  | none => rfl
  | some candidate =>
    cases updatedAt? metadata with
    | none => rfl
    | some mine =>
      dsimp only
      cases isNewer candidate mine with
      | true => exact Fields.get?_insert_self _ _ _
      | false => rfl

theorem renewed_none (source : StepResult) : renewed none source = none := by
  unfold renewed
  cases source.updated?.bind Value.string? <;> rfl

theorem updated?_newest (result source : StepResult) :
    (result.mapMetadata (newest source)).updated? = renewed result.updated? source := by
  unfold StepResult.updated? StepResult.count?
  rw [result.metadata?_mapMetadata]
  cases result.metadata? with
  | none => exact (renewed_none source).symm
  | some metadata => exact get?_newest_updated source metadata

structure Newest (own : StepResult) (landed : List StepResult) (final : StepResult) : Prop where
  latest : ∀ mine, own.timestampText? = some mine → ∃ last,
    Latest (mine :: landed.filterMap StepResult.timestampText?) last ∧
      final.updated? = some (.string last)
  forward : ∀ mine, own.timestampText? = some mine → ∃ last,
    final.timestampText? = some last ∧ isNewer mine last = false
  kept : own.timestampText? = none → final.updated? = own.updated?

theorem renewed_of_none {source : StepResult} (h : source.timestampText? = none)
    (current : Option Value) : renewed current source = current := by
  unfold renewed
  split
  · rename_i candidate mine hcandidate _
    have hnot : ¬isNewer candidate mine = true := by
      intro hnewer
      obtain ⟨t, _, ht, _⟩ := isNewer_iff.mp hnewer
      rw [timestampText?_eq_some_iff.mpr ⟨string?_eq_some_iff.mp hcandidate, t, ht⟩] at h
      cases h
    rw [if_neg hnot]
  · rfl

theorem renewed_of_not_timestamp {current : Option Value}
    (h : ∀ mine, current = some (.string mine) → ¬IsTimestamp mine) (source : StepResult) :
    renewed current source = current := by
  unfold renewed
  split
  · rename_i candidate mine _ hmine
    have hnot : ¬isNewer candidate mine = true := by
      intro hnewer
      obtain ⟨_, t, _, ht, _⟩ := isNewer_iff.mp hnewer
      exact h mine (string?_eq_some_iff.mp hmine) ⟨t, ht⟩
    rw [if_neg hnot]
  · rfl

theorem foldl_renewed {mine : String} (hmine : IsTimestamp mine) (landed : List StepResult) :
    ∃ last, Latest (mine :: landed.filterMap StepResult.timestampText?) last ∧
      landed.foldl renewed (some (.string mine)) = some (.string last) := by
  induction landed generalizing mine with
  | nil => exact ⟨mine, .single mine, rfl⟩
  | cons source rest ih =>
    rw [List.foldl_cons]
    cases htext : source.timestampText? with
    | none =>
      rw [renewed_of_none htext, List.filterMap_cons_none htext]
      exact ih hmine
    | some candidate =>
      obtain ⟨hvalue, hcandidate⟩ := timestampText?_eq_some_iff.mp htext
      rw [List.filterMap_cons_some htext]
      cases hnewer : isNewer candidate mine with
      | true =>
        have htaken : renewed (some (.string mine)) source = some (.string candidate) := by
          simp [renewed, hvalue, Value.string?, hnewer]
        obtain ⟨last, hlast, hfold⟩ := ih hcandidate
        rw [htaken]
        exact ⟨last, hlast.cons hnewer, hfold⟩
      | false =>
        have hstays : renewed (some (.string mine)) source = some (.string mine) := by
          simp [renewed, hvalue, Value.string?, hnewer]
        obtain ⟨last, hlast, hfold⟩ := ih hmine
        rw [hstays]
        exact ⟨last, hlast.insert hcandidate hnewer, hfold⟩

theorem newest_of_foldl {own final : StepResult} {landed : List StepResult}
    (h : final.updated? = landed.foldl renewed own.updated?) : Newest own landed final := by
  have hlatest : ∀ mine, own.timestampText? = some mine → ∃ last,
      Latest (mine :: landed.filterMap StepResult.timestampText?) last ∧
        final.updated? = some (.string last) := by
    intro mine hmine
    obtain ⟨hvalue, htimestamp⟩ := timestampText?_eq_some_iff.mp hmine
    obtain ⟨last, hlast, hfold⟩ := foldl_renewed htimestamp landed
    exact ⟨last, hlast, by rw [h, hvalue, hfold]⟩
  refine ⟨hlatest, ?_, ?_⟩
  · intro mine hmine
    obtain ⟨last, hlast, hfinal⟩ := hlatest mine hmine
    refine ⟨last, timestampText?_eq_some_iff.mpr ⟨hfinal, ?_⟩, hlast.not_newer (by simp)⟩
    rcases List.mem_cons.mp hlast.mem with rfl | hchild
    · exact (timestampText?_eq_some_iff.mp hmine).2
    · obtain ⟨child, _, htext⟩ := List.mem_filterMap.mp hchild
      exact (timestampText?_eq_some_iff.mp htext).2
  · intro hnone
    have hstays : ∀ mine, own.updated? = some (.string mine) → ¬IsTimestamp mine := by
      intro mine hvalue htimestamp
      rw [timestampText?_eq_some_iff.mpr ⟨hvalue, htimestamp⟩] at hnone
      cases hnone
    rw [h]
    clear h hlatest
    induction landed with
    | nil => rfl
    | cons source rest ih => rw [List.foldl_cons, renewed_of_not_timestamp hstays, ih]

namespace Interpreter

variable {interpreter : Interpreter} {args : List Value} {node : Node} {folding folding' : Folding}
  {directive : Scope × Branch} {history after : History}

inductive Lands (interpreter : Interpreter) (node : Node) (folding : Folding)
    (directive : Scope × Branch) (history : History) : List StepResult → Prop
  | child {branch : Branch} {bound : Value} {attach : Attach} {child : StepResult}
      {between : History} :
      RunsOnce node folding.result directive branch bound →
      branch.plan.attachDirective = .ok attach → attach.mode ≠ .detached →
      runChild node branch bound history = .ok child between →
      Lands interpreter node folding directive history [child]
  | detached {branch : Branch} {bound : Value} {attach : Attach} :
      RunsOnce node folding.result directive branch bound →
      branch.plan.attachDirective = .ok attach → attach.mode = .detached →
      Lands interpreter node folding directive history []
  | none : (∀ branch bound, ¬RunsOnce node folding.result directive branch bound) →
      Lands interpreter node folding directive history []

/-- The child results that the directives of a node fold into its result, in order. -/
inductive LandsAll (interpreter : Interpreter) (node : Node) :
    Folding → List (Scope × Branch) → History → List StepResult → Prop
  | nil {folding : Folding} {history : History} :
      LandsAll interpreter node folding [] history []
  | cons {folding folding' : Folding} {directive : Scope × Branch}
      {rest : List (Scope × Branch)} {history between : History}
      {landed others : List StepResult} :
      Lands interpreter node folding directive history landed →
      direct interpreter node folding directive history = .ok folding' between →
      LandsAll interpreter node folding' rest between others →
      LandsAll interpreter node folding (directive :: rest) history (landed ++ others)

theorem updated?_addEffort {counters : List String} (h : "updated_at" ∉ counters)
    (result child : StepResult) : (result.addEffort child counters).updated? = result.updated? :=
  count?_mapMetadata result
    (get?_foldl_of_notMem (get?_addCounter_of_ne (child.metadata?.getD [])) h)

theorem updated?_addEfforts {counters : List String} (h : "updated_at" ∉ counters)
    (result : StepResult) (children : List StepResult) :
    (result.addEfforts children counters).updated? = result.updated? := by
  induction children generalizing result with
  | nil => rfl
  | cons child rest ih => exact (ih _).trans (updated?_addEffort h result child)

theorem updated?_setContent (result : StepResult) (value : Value) :
    (result.setContent value).updated? = result.updated? := by
  unfold StepResult.updated? StepResult.count?
  rw [StepResult.metadata?_setContent]

theorem updated?_setList (result : StepResult) (list : String) (items : List Value) :
    (setList result list items).updated? = result.updated? := by
  unfold setList
  split
  · exact updated?_setContent result _
  · rfl

/-- Folding a child result into a node renews the timestamp, unless the child is detached. -/
theorem updated?_integrate {attach : Attach} {target out : Fields} {source : StepResult}
    (hhook : interpreter.host.mergeDown = none) (hcontent : target.contains "content" = true)
    (h : integrate interpreter.host attach target source history = .ok out after) :
    (⟨out⟩ : StepResult).updated? =
      if attach.mode = .detached then (⟨target⟩ : StepResult).updated?
      else renewed (⟨target⟩ : StepResult).updated? source := by
  obtain ⟨_, ⟨hmode, rfl⟩ | ⟨hmode, hfold⟩⟩ := integrate_ok hhook h
  · rw [if_pos hmode]
  · obtain ⟨_, _, hout⟩ := (attach.foldInto_wrapped_iff hmode hcontent source).mp hfold
    rw [if_neg hmode, ← hout, updated?_setContent, updated?_newest]

theorem not_runsOnce {choice : Choice} (h : choose node folding.result directive = .ok choice)
    (hne : ∀ branch bound, choice ≠ .once branch bound) (branch : Branch) (bound : Value) :
    ¬RunsOnce node folding.result directive branch bound := by
  intro hruns
  rw [choose_of_runsOnce hruns] at h
  exact hne branch bound (Except.ok.inj h).symm

section unhooked

variable (hhook : interpreter.host.mergeDown = none)
  (heffort : "updated_at" ∉ interpreter.settings.effortCounters)
  (hpages : "updated_at" ∉ interpreter.settings.pageCountFields)

include hhook heffort hpages

theorem lands_of_ok
    (h : direct interpreter node folding directive history = .ok folding' after) :
    ∃ landed, Lands interpreter node folding directive history landed ∧
      folding'.result.updated? = landed.foldl renewed folding.result.updated? := by
  have hdescended : (folding.descend interpreter.settings.pageCountFields).result.updated? =
      folding.result.updated? := count?_descend (.inr hpages)
  obtain ⟨received, hcarried⟩ := carried_of_ok h
  cases hcarried with
  | passOver hchoice => exact ⟨[], .none (not_runsOnce hchoice (by simp)), rfl⟩
  | @once branch bound child attach fields between after hchoice hchild hattach hfields =>
    have hcontent := contains_of_choose hchoice (by simp)
    rw [← contains_received folding interpreter.settings.pageCountFields
      interpreter.settings.effortCounters [child]] at hcontent
    have hupdated := updated?_integrate hhook hcontent hfields
    have htarget : ((folding.descend interpreter.settings.pageCountFields).result.addEffort child
        interpreter.settings.effortCounters).updated? = folding.result.updated? :=
      (updated?_addEffort heffort _ child).trans hdescended
    have hruns := runsOnce_of_choose hchoice
    by_cases hmode : attach.mode = .detached
    · refine ⟨[], .detached hruns hattach hmode, ?_⟩
      rw [hupdated, if_pos hmode]
      exact htarget
    · refine ⟨[child], .child hruns hattach hmode hchild, ?_⟩
      rw [hupdated, if_neg hmode]
      exact congrArg (renewed · child) htarget
  | @nothing attach fields after hchoice _ hfields =>
    have hupdated := updated?_integrate hhook (contains_of_choose hchoice (by simp)) hfields
    have hempty : ∀ current, renewed current .empty = current := renewed_of_none rfl
    refine ⟨[], .none (not_runsOnce hchoice (by simp)), ?_⟩
    rw [hupdated, hempty, ite_self]
    rfl
  | each hchoice _ hfolded =>
    have hresult := folded_result hfolded
    subst hresult
    refine ⟨[], .none (not_runsOnce hchoice (by simp)), ?_⟩
    exact (updated?_setList _ _ _).trans ((updated?_addEfforts heffort _ received).trans hdescended)

theorem landsAll_of_ok {directives : List (Scope × Branch)}
    (h : directAll interpreter node folding directives history = .ok folding' after) :
    ∃ landed, LandsAll interpreter node folding directives history landed ∧
      folding'.result.updated? = landed.foldl renewed folding.result.updated? := by
  induction directives generalizing folding history with
  | nil =>
    obtain ⟨rfl, _⟩ := Run.pure_ok_iff.mp h
    exact ⟨[], .nil, rfl⟩
  | cons directive rest ih =>
    obtain ⟨next, between, hdirective, hrest⟩ := Run.bind_ok_iff.mp h
    obtain ⟨landed, hlands, hnext⟩ := lands_of_ok hhook heffort hpages hdirective
    obtain ⟨others, hothers, hlast⟩ := ih hrest
    refine ⟨landed ++ others, .cons hlands hdirective hothers, ?_⟩
    rw [hlast, hnext, List.foldl_append]

end unhooked

/-- At every node of a run that succeeds the newest timestamp wins. -/
theorem runPlan_newest (hhook : interpreter.host.mergeDown = none)
    (heffort : "updated_at" ∉ interpreter.settings.effortCounters)
    (hpages : "updated_at" ∉ interpreter.settings.pageCountFields) (root : Entry)
    {final : StepResult}
    (hrun : runPlan interpreter args root.plan root.state root.history = .ok final after) :
    ∀ trail entry, Path interpreter args root trail entry →
      ∃ binding own stepped landed result last,
        entry.plan.validate entry.state interpreter.settings.requiredFields = .ok binding ∧
        runStep interpreter entry.plan entry.state args entry.history = .ok own stepped ∧
        LandsAll interpreter (nodeOf interpreter args entry.plan entry.state binding own)
          (nodeOf interpreter args entry.plan entry.state binding own).start
          (branches interpreter args entry.plan.children) stepped landed ∧
        runPlan interpreter args entry.plan entry.state entry.history = .ok result last ∧
        Newest own landed result := by
  intro trail entry hpath
  obtain ⟨result, last, hresult⟩ := hpath.succeeds hrun
  obtain ⟨binding, own, stepped, folding, hvalid, hstep, hall, rfl⟩ := stages_of_ok hresult
  obtain ⟨landed, hlanded, hupdated⟩ := landsAll_of_ok hhook heffort hpages hall
  refine ⟨binding, own, stepped, landed, _, last, hvalid, hstep, hlanded, hresult, ?_⟩
  apply newest_of_foldl
  have hclosed : (folding.close interpreter).updated? = folding.result.updated? :=
    count?_descend (.inr hpages)
  rw [hclosed]
  exact hupdated

/-- Of three children one is detached; the two others denote one instant, which is later
than that of the cake though its text is not, and the first of them wins. -/
theorem runPlan_newest_offsets :
    let baked : StepResult := ⟨[("content", .mapping []),
      ("metadata", .mapping [("updated_at", .string "2024-03-01T10:00:00+02:00")])]⟩
    let interpreter : Interpreter := ⟨.byName [("cake", baked),
      ("icing", ⟨[("metadata", .mapping [("updated_at", .string "2024-03-01T09:30:00+01:00")])]⟩),
      ("candle", ⟨[("metadata", .mapping [("updated_at", .string "2024-03-01T08:30:00Z")])]⟩),
      ("audit", ⟨[("metadata", .mapping [("updated_at", .string "2025-01-01T00:00:00Z")])]⟩)],
      .standard⟩
    let cake := (Plan.named "cake").attach .detached
    let icing := (Plan.named "icing").attach ⟨.merge, none, none⟩
    let candle := (Plan.named "candle").attach ⟨.merge, none, none⟩
    let audit := (Plan.named "audit").attach .detached
    let plan := ((cake.fanOut .this icing).fanOut .this candle).fanOut .this audit
    let after : History := [.run ⟨cake.fields⟩ [], .run ⟨icing.fields⟩ [],
      .run ⟨candle.fields⟩ [], .run ⟨audit.fields⟩ []]
    let final : StepResult := ⟨[("content", .mapping []),
      ("metadata", .mapping [("updated_at", .string "2024-03-01T09:30:00+01:00")])]⟩
    interpreter.host.mergeDown = none ∧ "updated_at" ∉ interpreter.settings.effortCounters ∧
      "updated_at" ∉ interpreter.settings.pageCountFields ∧
      runPlan interpreter [] plan .empty [] = .ok final after ∧
      ∃ landed, Newest baked landed final := by
  intro baked interpreter cake icing candle audit plan after final
  have hrun : runPlan interpreter [] plan .empty [] = .ok final after := by
    -- a closed term is computed much faster than one with local definitions
    revert baked cake icing candle audit final
    dsimp only
    rfl
  have hhook : interpreter.host.mergeDown = none := rfl
  have heffort : "updated_at" ∉ interpreter.settings.effortCounters := by decide
  have hpages : "updated_at" ∉ interpreter.settings.pageCountFields := by decide
  have hown : runStep interpreter plan .empty [] [] = .ok baked [.run ⟨cake.fields⟩ []] := rfl
  let root : Entry := ⟨plan, .empty, []⟩
  obtain ⟨_, own, _, landed, result, _, _, hstep, _, hresult, hnewest⟩ :=
    runPlan_newest hhook heffort hpages root hrun [] root .root
  obtain ⟨rfl, _⟩ := EStateM.Result.ok.inj (hown.symm.trans hstep)
  obtain ⟨rfl, _⟩ := EStateM.Result.ok.inj (hrun.symm.trans hresult)
  exact ⟨hhook, heffort, hpages, hrun, landed, hnewest⟩

end Interpreter

end PlanFold
