import PlanFold.Proofs.IntegrationAlgebra
import PlanFold.Proofs.Nodes

/-!
# Folding into a node's own result

Whatever a directive does to a node's result comes down to three things in
this order: page counters are zeroed, the effort of the children is added, and
the content is written where there is one already, the timestamp being kept
newest. No merge-down hook is installed in these laws.
-/

set_option autoImplicit false

namespace PlanFold

theorem Fields.insert_get? {fields : Fields} {key : String} {value : Value}
    (h : fields.get? key = some value) : fields.insert key value = fields := by
  induction fields with
  | nil => cases h
  | cons field rest ih =>
    obtain ⟨name, old⟩ := field
    by_cases hk : name = key
    · have hv : old = value := by simpa [get?, hk] using h
      simp [insert, hk, hv]
    · have hr : get? key rest = some value := by simpa [get?, hk] using h
      simp [insert, hk, ih hr]

namespace StepResult

variable (result : StepResult)

theorem get?_of_metadata {result : StepResult} {metadata : Fields}
    (h : result.metadata? = some metadata) :
    result.fields.get? "metadata" = some (.mapping metadata) := by
  obtain ⟨value, hget, hval⟩ := Option.bind_eq_some_iff.mp h
  cases value with
  | mapping fields => exact (Option.some.inj hval) ▸ hget
  | _ => cases hval

theorem metadata?_setContent (value : Value) :
    (result.setContent value).metadata? = result.metadata? := by
  unfold metadata? setContent
  rw [Fields.get?_insert_of_ne (by decide)]

theorem metadata?_mapMetadata (change : Fields → Fields) :
    (result.mapMetadata change).metadata? = result.metadata?.map change := by
  unfold mapMetadata
  cases h : result.metadata? with
  | none => exact h
  | some metadata =>
    unfold metadata? setMetadata
    rw [Fields.get?_insert_self]
    rfl

theorem get?_mapMetadata (change : Fields → Fields) {key : String} (h : key ≠ "metadata") :
    (result.mapMetadata change).fields.get? key = result.fields.get? key := by
  unfold mapMetadata
  cases result.metadata? with
  | none => rfl
  | some metadata => exact Fields.get?_insert_of_ne h.symm _ _

theorem keys_mapMetadata (change : Fields → Fields) :
    (result.mapMetadata change).fields.keys = result.fields.keys := by
  unfold mapMetadata
  cases h : result.metadata? with
  | none => rfl
  | some metadata =>
    exact Fields.keys_insert_of_contains (Fields.contains_of_get? (get?_of_metadata h)) _

theorem mapMetadata_self {change : Fields → Fields}
    (h : ∀ metadata, result.metadata? = some metadata → change metadata = metadata) :
    result.mapMetadata change = result := by
  unfold mapMetadata
  cases hm : result.metadata? with
  | none => rfl
  | some metadata =>
    change result.setMetadata (change metadata) = result
    rw [h metadata hm, setMetadata, Fields.insert_get? (get?_of_metadata hm)]

theorem contains_of_content {result : StepResult} (h : result.content.isNull = false) :
    result.fields.contains "content" = true := by
  unfold content at h
  cases hget : result.fields.get? "content" with
  | none => simp [hget, Value.isNull] at h
  | some value => exact Fields.contains_of_get? hget

theorem get?_of_content {result : StepResult} {fields : Fields}
    (h : result.content = .mapping fields) :
    result.fields.get? "content" = some (.mapping fields) := by
  unfold content at h
  cases hget : result.fields.get? "content" with
  | none => simp [hget] at h
  | some value => simpa [hget] using h

theorem content_congr {first second : StepResult}
    (h : first.fields.get? "content" = second.fields.get? "content") :
    first.content = second.content := by
  unfold content
  rw [h]

theorem content_mapMetadata (change : Fields → Fields) :
    (result.mapMetadata change).content = result.content :=
  content_congr (result.get?_mapMetadata change (by decide))

theorem content_setContent (value : Value) : (result.setContent value).content = value := by
  unfold content setContent
  rw [Fields.get?_insert_self]
  rfl

def addEfforts (children : List StepResult) (counters : List String) : StepResult :=
  children.foldl (fun total child => total.addEffort child counters) result

theorem keys_addEfforts (children : List StepResult) (counters : List String) :
    (result.addEfforts children counters).fields.keys = result.fields.keys := by
  induction children generalizing result with
  | nil => rfl
  | cons child rest ih => exact (ih _).trans (keys_mapMetadata _ _)

theorem content_addEfforts (children : List StepResult) (counters : List String) :
    (result.addEfforts children counters).content = result.content := by
  induction children generalizing result with
  | nil => rfl
  | cons child rest ih => exact (ih _).trans (content_mapMetadata _ _)

end StepResult

def newest (source : StepResult) (metadata : Fields) : Fields :=
  match source.metadata?.bind updatedAt?, updatedAt? metadata with
  | some candidate, some current =>
    if isNewer candidate current then metadata.insert "updated_at" (.string candidate)
    else metadata
  | _, _ => metadata

theorem keepNewest_eq (target : Fields) (source : StepResult) :
    (⟨keepNewest target source⟩ : StepResult) =
      StepResult.mapMetadata ⟨target⟩ (newest source) := by
  cases hm : (⟨target⟩ : StepResult).metadata? with
  | none =>
    have hnone : (target.get? "metadata").bind Value.fields? = none := hm
    unfold keepNewest StepResult.mapMetadata
    rw [hm, hnone]
    cases source.metadata?.bind updatedAt? <;> rfl
  | some metadata =>
    have hsome : (target.get? "metadata").bind Value.fields? = some metadata := hm
    have hsame : target.insert "metadata" (.mapping metadata) = target :=
      Fields.insert_get? (StepResult.get?_of_metadata hm)
    unfold keepNewest StepResult.mapMetadata StepResult.setMetadata newest
    rw [hm, hsome]
    cases source.metadata?.bind updatedAt? with
    | none => simp only [hsame]
    | some candidate =>
      cases hcurrent : updatedAt? metadata with
      | none => simp only [hcurrent, hsame]
      | some current =>
        simp only [hcurrent]
        split
        · rfl
        · rw [hsame]

def Rewritten (before after : StepResult) : Prop :=
  after = before ∨ before.fields.contains "content" = true ∧
    ∃ source value, after = (before.mapMetadata (newest source)).setContent value

def Attach.written (attach : Attach) (slot : Fields) (payload : Value) : Value :=
  match attach.mode with
  | .detached => .mapping slot
  | .merge => .mapping (slot.merge payload.entries)
  | .replace => payload
  | .relocate key => .mapping (moved attach.fromKey key payload slot)

theorem Attach.landed_wrapped (attach : Attach) {target : Fields} (payload : Value)
    (h : target.contains "content" = true) (hmode : attach.mode ≠ .detached) :
    attach.landed target payload =
      target.insert "content" (attach.written (slotOf target) payload) := by
  unfold landed fillSlot written
  simp only [h, if_true]
  cases hm : attach.mode with
  | detached => exact absurd hm hmode
  | merge => rfl
  | replace => rfl
  | relocate key => rfl

theorem get?_keepNewest (target : Fields) (source : StepResult) {key : String}
    (h : key ≠ "metadata") : (keepNewest target source).get? key = target.get? key := by
  have hget := StepResult.get?_mapMetadata ⟨target⟩ (newest source) h
  rwa [← keepNewest_eq] at hget

theorem get?_content_keepNewest (target : Fields) (source : StepResult) :
    (keepNewest target source).get? "content" = target.get? "content" :=
  get?_keepNewest target source (by decide)

theorem slotOf_congr {target target' : Fields}
    (h : target.get? "content" = target'.get? "content")
    (hcontent : target.contains "content" = true) : slotOf target = slotOf target' := by
  unfold slotOf slot? Fields.contains at *
  rw [← h]
  cases hget : target.get? "content" with
  | none => simp [hget] at hcontent
  | some content => cases content <;> rfl

theorem fits_congr {target target' : Fields}
    (h : target.get? "content" = target'.get? "content") (mode : AttachMode) (payload : Value) :
    mode.Fits target payload ↔ mode.Fits target' payload := by
  unfold AttachMode.Fits HasSlot Fields.contains
  rw [h]

theorem fits_keepNewest (target : Fields) (source : StepResult) (mode : AttachMode)
    (payload : Value) : mode.Fits (keepNewest target source) payload ↔ mode.Fits target payload :=
  fits_congr (get?_content_keepNewest target source) mode payload

theorem AttachMode.check_congr (mode : AttachMode) {target other : Fields} (payload : Value)
    (h : target.get? "content" = other.get? "content") :
    mode.check target payload = mode.check other payload := by
  unfold check accepts admits targetKind Fields.contains
  rw [h]

/-- What a child folded into a result with a field `content` makes of it. -/
theorem Attach.foldInto_wrapped_iff (attach : Attach) {target out : Fields}
    (hmode : attach.mode ≠ .detached) (hcontent : target.contains "content" = true)
    (source : StepResult) :
    attach.foldInto (keepNewest target source) source = .ok out ↔ attach.Takes source ∧
      attach.mode.Fits target (attach.contribution source) ∧
      ((⟨target⟩ : StepResult).mapMetadata (newest source)).setContent
        (attach.written (slotOf target) (attach.contribution source)) = ⟨out⟩ := by
  have hget := get?_content_keepNewest target source
  have hwrapped : (keepNewest target source).contains "content" = true :=
    (Fields.contains_congr hget).trans hcontent
  rw [attach.foldInto_ok_iff, fits_congr hget, attach.landed_wrapped _ hwrapped hmode,
    slotOf_congr hget hwrapped, ← keepNewest_eq]
  simp only [StepResult.setContent, StepResult.mk.injEq]

namespace Interpreter

variable {interpreter : Interpreter} {host : Host} {attach : Attach} {target out : Fields}
  {source : StepResult} {history after : History}

theorem integrate_eq (hhook : host.mergeDown = none) (attach : Attach) (target : Fields)
    (source : StepResult) : integrate host attach target source =
      if attach.mode = .detached then pure target
      else Run.ofExcept (attach.foldInto (keepNewest target source) source) := by
  unfold integrate
  split
  · rfl
  · unfold Attach.foldInto
    cases attach.payload source with
    | error e => rfl
    | ok payload =>
      have hcheck : attach.mode.check target payload =
          (attach.land (keepNewest target source) payload).map fun _ => () := by
        rw [← attach.check_eq_land]
        exact attach.mode.check_congr payload (get?_content_keepNewest target source).symm
      rw [hhook]
      show (Run.ofExcept (attach.mode.check target payload) >>= fun _ =>
        Run.ofExcept (attach.land (keepNewest target source) payload)) =
          Run.ofExcept (attach.land (keepNewest target source) payload)
      rw [hcheck]
      cases attach.land (keepNewest target source) payload <;> rfl

theorem integrate_source_congr (hhook : host.mergeDown = none) {source' : StepResult}
    (hcontent : source.content = source'.content) (hnewest : newest source = newest source')
    (attach : Attach) (target : Fields) :
    integrate host attach target source = integrate host attach target source' := by
  have hstamped : keepNewest target source = keepNewest target source' := by
    have hresult : (⟨keepNewest target source⟩ : StepResult) = ⟨keepNewest target source'⟩ := by
      rw [keepNewest_eq, keepNewest_eq, hnewest]
    exact congrArg StepResult.fields hresult
  rw [integrate_eq hhook, integrate_eq hhook, hstamped]
  unfold Attach.foldInto Attach.payload
  rw [hcontent]

theorem integrate_ok (hhook : host.mergeDown = none)
    (h : integrate host attach target source history = .ok out after) :
    after = history ∧ ((attach.mode = .detached ∧ out = target) ∨
      attach.mode ≠ .detached ∧ attach.foldInto (keepNewest target source) source = .ok out) := by
  rw [integrate_eq hhook] at h
  by_cases hmode : attach.mode = .detached
  · rw [if_pos hmode] at h
    obtain ⟨rfl, rfl⟩ := Run.pure_ok_iff.mp h
    exact ⟨rfl, .inl ⟨hmode, rfl⟩⟩
  · rw [if_neg hmode] at h
    obtain ⟨hfold, rfl⟩ := Run.ofExcept_ok_iff.mp h
    exact ⟨rfl, .inr ⟨hmode, hfold⟩⟩

theorem rewritten_integrate (hhook : host.mergeDown = none)
    (hcontent : target.contains "content" = true)
    (h : integrate host attach target source history = .ok out after) :
    Rewritten ⟨target⟩ ⟨out⟩ := by
  obtain ⟨_, ⟨_, rfl⟩ | ⟨hmode, hfold⟩⟩ := integrate_ok hhook h
  · exact .inl rfl
  · obtain ⟨_, _, hout⟩ := (attach.foldInto_wrapped_iff hmode hcontent source).mp hfold
    exact .inr ⟨hcontent, source, _, hout.symm⟩

theorem content_setList {result : StepResult} {content : Fields}
    (h : result.content = .mapping content) (list : String) (items : List Value) :
    (setList result list items).content = .mapping (content.insert list (.list items)) := by
  unfold setList
  rw [h]
  exact result.content_setContent _

theorem rewritten_setList {result : StepResult} (h : result.fields.contains "content" = true)
    (list : String) (items : List Value) : Rewritten result (setList result list items) := by
  have hsame : result.mapMetadata (newest .empty) = result :=
    result.mapMetadata_self fun _ _ => rfl
  unfold setList
  split
  · exact .inr ⟨h, .empty, _, by rw [hsame]⟩
  · exact .inl rfl

theorem content_of_items {result : StepResult} {list : String} {items : List Value}
    (h : listItems result list = .ok (some items)) :
    ∃ fields, result.content = .mapping fields := by
  unfold listItems Value.field? at h
  cases hc : result.content with
  | mapping fields => exact ⟨fields, rfl⟩
  | _ => simp [hc] at h

theorem content_of_choose {node : Node} {result : StepResult} {directive : Scope × Branch}
    {choice : Choice} (h : choose node result directive = .ok choice)
    (hne : choice ≠ .passOver) : result.content.isNull = false := by
  obtain ⟨scope, branch⟩ := directive
  have hlist : ∀ {list : String} {items : List Value},
      listItems result list = .ok (some items) → result.content.isNull = false := by
    intro list items hitems
    obtain ⟨fields, hfields⟩ := content_of_items hitems
    rw [hfields]
    rfl
  unfold choose at h
  cases scope with
  | this =>
    cases hnull : result.content.isNull with
    | true => exact absurd (by simpa [hnull] using h.symm) hne
    | false => rfl
  | first list =>
    obtain ⟨items, hitems, _⟩ := items_of_map h hne
    exact hlist hitems
  | each list =>
    obtain ⟨items, hitems, _⟩ := items_of_map h hne
    exact hlist hitems

theorem contains_of_choose {node : Node} {result : StepResult} {directive : Scope × Branch}
    {choice : Choice} (h : choose node result directive = .ok choice)
    (hne : choice ≠ .passOver) : result.fields.contains "content" = true :=
  StepResult.contains_of_content (content_of_choose h hne)

theorem keys_descend (folding : Folding) (counters : List String) :
    (folding.descend counters).result.fields.keys = folding.result.fields.keys := by
  unfold Folding.descend
  split
  · exact folding.result.keys_mapMetadata _
  · rfl

theorem contains_received (folding : Folding) (pageCounters counters : List String)
    (received : List StepResult) (key : String) :
    ((folding.descend pageCounters).result.addEfforts received counters).fields.contains key =
      folding.result.fields.contains key :=
  Fields.contains_eq_of_keys_eq
    ((StepResult.keys_addEfforts _ _ _).trans (keys_descend _ _)) key

theorem folded_result {node : Node} {branch : Branch} {items others : List Value}
    {result result' : StepResult} {received : List StepResult}
    (h : Folded interpreter node branch attach result items history received result' others
      after) : result' = result.addEfforts received interpreter.settings.effortCounters := by
  induction h with
  | nil => rfl
  | default _ _ _ ih => exact ih
  | child _ _ _ _ ih => exact ih

def Choice.start (counters : List String) (folding : Folding) : Choice → StepResult
  | .passOver => folding.result
  | .once _ _ => (folding.descend counters).result
  | .nothing => folding.result
  | .each _ _ => (folding.descend counters).result

theorem carried_start {node : Node} {folding folding' : Folding} {directive : Scope × Branch}
    {received : List StepResult} (hhook : interpreter.host.mergeDown = none)
    (h : Carried interpreter node folding directive history received folding' after) :
    ∃ choice, choose node folding.result directive = .ok choice ∧
      folding'.skipPending = false ∧
      Rewritten ((choice.start interpreter.settings.pageCountFields folding).addEfforts received
        interpreter.settings.effortCounters) folding'.result := by
  cases h with
  | passOver hchoice => exact ⟨_, hchoice, rfl, .inl rfl⟩
  | @once branch bound child attach fields between after hchoice hchild hattach hfields =>
    have hcontent := contains_of_choose hchoice (by simp)
    rw [← contains_received folding interpreter.settings.pageCountFields
      interpreter.settings.effortCounters [child]] at hcontent
    exact ⟨_, hchoice, rfl, rewritten_integrate hhook hcontent hfields⟩
  | nothing hchoice _ hfields =>
    have hcontent := contains_of_choose hchoice (by simp)
    exact ⟨_, hchoice, rfl, rewritten_integrate hhook hcontent hfields⟩
  | each hchoice _ hfolded =>
    have hcontent := contains_of_choose hchoice (by simp)
    have hresult := folded_result hfolded
    subst hresult
    rw [← contains_received folding interpreter.settings.pageCountFields
      interpreter.settings.effortCounters received] at hcontent
    exact ⟨_, hchoice, rfl, rewritten_setList hcontent _ _⟩

/-- What a directive has done to the result of its node. -/
theorem carried_result {node : Node} {folding folding' : Folding} {directive : Scope × Branch}
    {received : List StepResult} (hhook : interpreter.host.mergeDown = none)
    (h : Carried interpreter node folding directive history received folding' after) :
    folding'.skipPending = false ∧ ∃ start,
      (start = folding.result ∨
        start = (folding.descend interpreter.settings.pageCountFields).result) ∧
      Rewritten (start.addEfforts received interpreter.settings.effortCounters)
        folding'.result := by
  obtain ⟨choice, _, hsettled, hwritten⟩ := carried_start hhook h
  refine ⟨hsettled, _, ?_, hwritten⟩
  cases choice with
  | passOver => exact .inl rfl
  | once branch bound => exact .inr rfl
  | nothing => exact .inl rfl
  | each list items => exact .inr rfl

end Interpreter

end PlanFold
