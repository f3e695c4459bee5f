import PlanFold.Proofs.OwnResult
import PlanFold.Proofs.PathStates

/-!
# What fan-out leaves alone

A node returns its own result with a new content and new counters, and nothing
else of it changes: no field is gained, lost or moved. In its metadata only
counters and the timestamp differ. This holds for every list of directives and
every host without a merge-down hook; what the children return is arbitrary.
-/

set_option autoImplicit false

namespace PlanFold

structure Kept (settings : Settings) (before after : Fields) : Prop where
  keys : ∃ added, after.keys = before.keys ++ added ∧
    ∀ key ∈ added, key ∈ settings.effortCounters
  values : ∀ key, key ∉ settings.effortCounters → key ∉ settings.pageCountFields →
    key ≠ "updated_at" → after.get? key = before.get? key

/-- The second result is the first with another content and other counters. -/
structure Framed (settings : Settings) (before after : StepResult) : Prop where
  keys : after.fields.keys = before.fields.keys
  others : ∀ key, key ≠ "content" → key ≠ "metadata" →
    after.fields.get? key = before.fields.get? key
  plain : before.metadata? = none →
    after.fields.get? "metadata" = before.fields.get? "metadata"
  metadata : ∀ metadata, before.metadata? = some metadata →
    ∃ changed, after.metadata? = some changed ∧ Kept settings metadata changed

variable {settings : Settings}

theorem Kept.refl (fields : Fields) : Kept settings fields fields :=
  ⟨⟨[], by simp, by simp⟩, fun _ _ _ _ => rfl⟩

theorem Kept.trans {first second third : Fields} (h : Kept settings first second)
    (h' : Kept settings second third) : Kept settings first third := by
  obtain ⟨added, hkeys, hadded⟩ := h.keys
  obtain ⟨more, hkeys', hmore⟩ := h'.keys
  refine ⟨⟨added ++ more, by rw [hkeys', hkeys, List.append_assoc], ?_⟩, ?_⟩
  · intro key hkey
    rcases List.mem_append.mp hkey with hk | hk
    · exact hadded key hk
    · exact hmore key hk
  · intro key he hp hu
    rw [h'.values key he hp hu, h.values key he hp hu]

theorem kept_insert {fields : Fields} {key : String} (value : Value)
    (hnew : key ∈ settings.effortCounters ∨ fields.contains key = true)
    (hkey : key ∈ settings.effortCounters ∨ key ∈ settings.pageCountFields ∨
      key = "updated_at") : Kept settings fields (fields.insert key value) := by
  constructor
  · rw [Fields.keys_insert]
    by_cases hm : key ∈ fields.keys
    · exact ⟨[], by simp [hm], by simp⟩
    · have heffort : key ∈ settings.effortCounters :=
        hnew.resolve_right fun hc => hm ((Fields.contains_iff_mem_keys key fields).mp hc)
      exact ⟨[key], by simp [hm], by simpa using heffort⟩
  · intro other he hp hu
    apply Fields.get?_insert_of_ne
    rintro rfl
    rcases hkey with h | h | h
    · exact he h
    · exact hp h
    · exact hu h

theorem kept_foldl {counters : List String} {change : Fields → String → Fields}
    (h : ∀ fields, ∀ counter ∈ counters, Kept settings fields (change fields counter))
    (fields : Fields) : Kept settings fields (counters.foldl change fields) := by
  induction counters generalizing fields with
  | nil => exact Kept.refl fields
  | cons counter rest ih =>
    have hfirst := h fields counter (by simp)
    exact hfirst.trans (ih (fun others c hc => h others c (by simp [hc])) _)

theorem kept_addCounters (child fields : Fields) :
    Kept settings fields (settings.effortCounters.foldl (addCounter child) fields) := by
  apply kept_foldl
  intro fields counter hc
  unfold addCounter
  cases fields.get? counter with
  | none =>
    cases child.get? counter with
    | none => exact Kept.refl fields
    | some theirs => exact kept_insert _ (.inl hc) (.inl hc)
  | some mine => exact kept_insert _ (.inl hc) (.inl hc)

theorem kept_zeroCounters (fields : Fields) :
    Kept settings fields (settings.pageCountFields.foldl StepResult.zeroCounter fields) := by
  apply kept_foldl
  intro fields counter hc
  unfold StepResult.zeroCounter
  split
  · rename_i hin
    exact kept_insert _ (.inr hin) (.inr (.inl hc))
  · exact Kept.refl fields

theorem kept_newest (source : StepResult) (fields : Fields) :
    Kept settings fields (newest source fields) := by
  unfold newest
  cases source.metadata?.bind updatedAt? with
  | none => exact Kept.refl fields
  | some candidate =>
    cases hcurrent : updatedAt? fields with
    | none => exact Kept.refl fields
    | some current =>
      obtain ⟨value, hget, _⟩ := Option.bind_eq_some_iff.mp hcurrent
      simp only
      split
      · exact kept_insert _ (.inr (Fields.contains_of_get? hget)) (.inr (.inr rfl))
      · exact Kept.refl fields

theorem Framed.refl (result : StepResult) : Framed settings result result :=
  ⟨rfl, fun _ _ _ => rfl, fun _ => rfl, fun metadata h => ⟨metadata, h, Kept.refl metadata⟩⟩

theorem Framed.trans {first second third : StepResult} (h : Framed settings first second)
    (h' : Framed settings second third) : Framed settings first third where
  keys := h'.keys.trans h.keys
  others key hc hm := (h'.others key hc hm).trans (h.others key hc hm)
  plain hnone := by
    have hsame := h.plain hnone
    have hnone' : second.metadata? = none := by
      unfold StepResult.metadata? at hnone ⊢
      rw [hsame, hnone]
    exact (h'.plain hnone').trans hsame
  metadata m hm := by
    obtain ⟨changed, hchanged, hkept⟩ := h.metadata m hm
    obtain ⟨later, hlater, hkept'⟩ := h'.metadata changed hchanged
    exact ⟨later, hlater, hkept.trans hkept'⟩

theorem Framed.contains {before after : StepResult} (h : Framed settings before after)
    (key : String) : after.fields.contains key = before.fields.contains key :=
  Fields.contains_eq_of_keys_eq h.keys key

theorem framed_mapMetadata (result : StepResult) {change : Fields → Fields}
    (h : ∀ fields, Kept settings fields (change fields)) :
    Framed settings result (result.mapMetadata change) where
  keys := result.keys_mapMetadata change
  others key _ hm := result.get?_mapMetadata change hm
  plain hnone := by rw [result.mapMetadata_self (by simp [hnone])]
  metadata m hm := ⟨change m, by rw [result.metadata?_mapMetadata, hm]; rfl, h m⟩

theorem framed_setContent {result : StepResult} (h : result.fields.contains "content" = true)
    (value : Value) : Framed settings result (result.setContent value) where
  keys := Fields.keys_insert_of_contains h value
  others key hc _ := Fields.get?_insert_of_ne hc.symm value _
  plain _ := Fields.get?_insert_of_ne (by decide) value _
  metadata m hm := ⟨m, by rw [result.metadata?_setContent, hm], Kept.refl m⟩

theorem framed_addEffort (result child : StepResult) :
    Framed settings result (result.addEffort child settings.effortCounters) :=
  framed_mapMetadata result (kept_addCounters _)

theorem framed_addEfforts (result : StepResult) (children : List StepResult) :
    Framed settings result (result.addEfforts children settings.effortCounters) := by
  induction children generalizing result with
  | nil => exact Framed.refl result
  | cons child rest ih => exact (framed_addEffort result child).trans (ih _)

namespace Interpreter

variable {interpreter : Interpreter} {node : Node}

theorem framed_descend (settings : Settings) (folding : Folding) :
    Framed settings folding.result (folding.descend settings.pageCountFields).result := by
  unfold Folding.descend
  split
  · exact framed_mapMetadata folding.result kept_zeroCounters
  · exact Framed.refl folding.result

theorem get?_descend (folding : Folding) (counters : List String) {key : String}
    (h : key ≠ "metadata") :
    (folding.descend counters).result.fields.get? key = folding.result.fields.get? key := by
  unfold Folding.descend
  split
  · exact folding.result.get?_mapMetadata _ h
  · rfl

theorem content_descend (folding : Folding) (counters : List String) :
    (folding.descend counters).result.content = folding.result.content :=
  StepResult.content_congr (get?_descend folding counters (by decide))

theorem framed_rewritten {before after : StepResult} (h : Rewritten before after) :
    Framed settings before after := by
  rcases h with rfl | ⟨hcontent, source, value, rfl⟩
  · exact Framed.refl _
  · have hstamp : Framed settings before (before.mapMetadata (newest source)) :=
      framed_mapMetadata before (kept_newest source)
    exact hstamp.trans (framed_setContent ((hstamp.contains _).trans hcontent) value)

theorem framed_carried {folding folding' : Folding} {directive : Scope × Branch}
    {history after : History} {received : List StepResult}
    (hhook : interpreter.host.mergeDown = none)
    (h : Carried interpreter node folding directive history received folding' after) :
    Framed interpreter.settings folding.result folding'.result := by
  obtain ⟨_, start, hstart, hwritten⟩ := carried_result hhook h
  have hdescended : Framed interpreter.settings folding.result start := by
    rcases hstart with rfl | rfl
    · exact Framed.refl _
    · exact framed_descend interpreter.settings folding
  exact hdescended.trans ((framed_addEfforts start received).trans (framed_rewritten hwritten))

theorem framed_carriedAll {folding folding' : Folding} {directives : List (Scope × Branch)}
    {history after : History} {received : List StepResult}
    (hhook : interpreter.host.mergeDown = none)
    (h : CarriedAll interpreter node folding directives history received folding' after) :
    Framed interpreter.settings folding.result folding'.result := by
  induction h with
  | nil => exact Framed.refl _
  | cons hone _ ih => exact (framed_carried hhook hone).trans ih

theorem ran_framed {args : List Value} {plan : Plan} {state : State}
    {history stepped after : History} {binding : String} {own final : StepResult}
    {received : List StepResult}
    (hhook : interpreter.host.mergeDown = none)
    (hran : Ran interpreter args plan state history binding own stepped received final after) :
    Framed interpreter.settings own final := by
  obtain ⟨folding, hall, hfinal⟩ := hran.children
  rw [← hfinal]
  exact (framed_carriedAll hhook hall).trans (framed_descend interpreter.settings folding)

theorem carried_null {folding folding' : Folding} {directive : Scope × Branch}
    {history after : History} {received : List StepResult}
    (hnull : folding.result.content.isNull = true)
    (h : Carried interpreter node folding directive history received folding' after) :
    received = [] ∧ folding' = folding.passOver := by
  have hno : ∀ choice, choice ≠ .passOver →
      choose node folding.result directive ≠ .ok choice := by
    intro choice hne hchoice
    have := content_of_choose hchoice hne
    simp [hnull] at this
  cases h with
  | passOver => exact ⟨rfl, rfl⟩
  | once hchoice => exact absurd hchoice (hno _ (by simp))
  | nothing hchoice => exact absurd hchoice (hno _ (by simp))
  | each hchoice => exact absurd hchoice (hno _ (by simp))

theorem carriedAll_null {folding folding' : Folding} {directives : List (Scope × Branch)}
    {history after : History} {received : List StepResult}
    (hnull : folding.result.content.isNull = true)
    (h : CarriedAll interpreter node folding directives history received folding' after) :
    received = [] ∧ folding'.result = folding.result := by
  induction h with
  | nil => exact ⟨rfl, rfl⟩
  | cons hone _ ih =>
    obtain ⟨rfl, rfl⟩ := carried_null hnull hone
    exact ih hnull

/-- A target and a child result that are integrated while the directives of a
node are carried out, the target being the node's result as folded so far. -/
inductive OwnIntegration (interpreter : Interpreter) (node : Node)
    (directives : List (Scope × Branch)) (history : History) : Fields → StepResult → Prop
  | once {before rest : List (Scope × Branch)} {directive : Scope × Branch}
      {folding : Folding} {branch : Branch} {bound : Value} {child : StepResult}
      {between later : History} :
      directives = before ++ directive :: rest →
      directAll interpreter node node.start before history = .ok folding between →
      choose node folding.result directive = .ok (.once branch bound) →
      runChild node branch bound between = .ok child later →
      OwnIntegration interpreter node directives history
        ((folding.descend interpreter.settings.pageCountFields).result.addEffort child
          interpreter.settings.effortCounters).fields child
  | nothing {before rest : List (Scope × Branch)} {directive : Scope × Branch}
      {folding : Folding} {between : History} :
      directives = before ++ directive :: rest →
      directAll interpreter node node.start before history = .ok folding between →
      choose node folding.result directive = .ok .nothing →
      OwnIntegration interpreter node directives history folding.result.fields .empty

/-- The target is wrapped, and still so when its timestamp is kept newest. -/
theorem OwnIntegration.wrapped {directives : List (Scope × Branch)} {history : History}
    {target : Fields} {source : StepResult}
    (h : OwnIntegration interpreter node directives history target source) :
    target.contains "content" = true ∧ (keepNewest target source).contains "content" = true := by
  have hstamp : (keepNewest target source).contains "content" = target.contains "content" := by
    have hkeys := StepResult.keys_mapMetadata ⟨target⟩ (newest source)
    rw [← keepNewest_eq] at hkeys
    exact Fields.contains_eq_of_keys_eq hkeys _
  rw [hstamp, and_self]
  cases h with
  | @once before rest directive folding branch bound _ between later _ _ hchoice _ =>
    exact (contains_received folding _ _ [source] _).trans
      (contains_of_choose hchoice (by simp))
  | nothing _ _ hchoice => exact contains_of_choose hchoice (by simp)

theorem ran_null {args : List Value} {plan : Plan} {state : State} {history stepped after : History}
    {binding : String} {own final : StepResult} {received : List StepResult}
    (hnull : own.content.isNull = true)
    (hran : Ran interpreter args plan state history binding own stepped received final after) :
    final.fields.get? "content" = own.fields.get? "content" := by
  obtain ⟨folding, hall, hfinal⟩ := hran.children
  obtain ⟨_, hsame⟩ := carriedAll_null hnull hall
  have hcontent : final.fields.get? "content" = folding.result.fields.get? "content" := by
    rw [← hfinal]
    exact get?_descend folding _ (by decide)
  rw [hcontent, hsame]
  rfl

/-- In a run that succeeds every node returns the result of its step with another
content and other counters at most. A content that is null stays, and children
are only ever integrated into a wrapped result. -/
theorem runPlan_framed {args : List Value} {root : Entry} {final : StepResult} {after : History}
    (hhook : interpreter.host.mergeDown = none)
    (hrun : runPlan interpreter args root.plan root.state root.history = .ok final after) :
    ∀ trail entry, Path interpreter args root trail entry →
      ∃ binding own stepped received result last,
        runPlan interpreter args entry.plan entry.state entry.history = .ok result last ∧
        Ran interpreter args entry.plan entry.state entry.history binding own stepped received
          result last ∧
        Framed interpreter.settings own result ∧
        (own.content.isNull = true →
          result.fields.get? "content" = own.fields.get? "content") ∧
        ∀ target source, OwnIntegration interpreter
            (nodeOf interpreter args entry.plan entry.state binding own)
            (branches interpreter args entry.plan.children) stepped target source →
          target.contains "content" = true ∧
            (keepNewest target source).contains "content" = true := by
  intro trail entry hpath
  obtain ⟨result, last, hresult⟩ := hpath.succeeds hrun
  obtain ⟨binding, own, stepped, received, hran⟩ := ran_of_ok hresult
  refine ⟨binding, own, stepped, received, result, last, hresult, hran,
    ran_framed hhook hran, ?_, ?_⟩
  · intro hnull
    exact ran_null hnull hran
  · intro target source howned
    exact howned.wrapped

/-- A child replaces the content by a mapping with keys `content` and `metadata`. -/
theorem runPlan_framed_replace :
    let order : StepResult := ⟨[("content", .mapping [("id", .bool true)]),
      ("metadata", .mapping [("request_count", .ofWhole 1)]), ("kept", .null)]⟩
    let detail : StepResult := ⟨[("metadata", .mapping [("request_count", .ofWhole 2)]),
      ("content", .mapping [("content", .null), ("metadata", .null)])]⟩
    let child := (Plan.named "detail").attach ⟨.replace, none, none⟩
    let plan := ((Plan.named "order").attach .detached).fanOut .this child
    let interpreter : Interpreter := ⟨.scripted [order, detail], .standard⟩
    let after : History := [.run ⟨plan.fields⟩ [], .run ⟨child.fields⟩ []]
    let final : StepResult := ⟨[("content", .mapping [("content", .null), ("metadata", .null)]),
      ("metadata", .mapping [("request_count", .ofWhole 3)]), ("kept", .null)]⟩
    interpreter.host.mergeDown = none ∧
      runPlan interpreter [] plan .empty [] = .ok final after ∧
      Framed interpreter.settings order final := by
  intro order detail child plan interpreter after final
  have hhook : interpreter.host.mergeDown = none := rfl
  have hstep : runStep interpreter plan .empty [] [] = .ok order [.run ⟨plan.fields⟩ []] := rfl
  have hrun : runPlan interpreter [] plan .empty [] = .ok final after := rfl
  let root : Entry := ⟨plan, .empty, []⟩
  obtain ⟨_, own, _, _, result, _, hresult, hran, hframed, _⟩ :=
    runPlan_framed hhook hrun [] root .root
  have hown := (EStateM.Result.ok.inj (hstep.symm.trans hran.step)).1
  have hfinal := (EStateM.Result.ok.inj (hrun.symm.trans hresult)).1
  rw [hown, hfinal]
  exact ⟨hhook, hfinal ▸ hrun, hframed⟩

end Interpreter

end PlanFold
