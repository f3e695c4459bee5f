import PlanFold.Proofs.ListElements

/-!
# Merging nothing

A child result without content has nothing to merge. Merging it succeeds where
anything could be merged, makes no call and writes nothing but a later
timestamp, with one exception: the place where payloads are written is got
ready first, so a null content becomes a mapping without fields. On the elements
of a list the same holds, one element after the other: the list comes back as it
was where no element has a null content.
-/

set_option autoImplicit false

namespace PlanFold

def opened (target : Fields) : Fields :=
  match target.get? "content" with
  | some .null => target.insert "content" (.mapping [])
  | _ => target

def Value.opened : Value → Value
  | .mapping fields => .mapping (PlanFold.opened fields)
  | value => value

theorem opened_of_ne {target : Fields} (h : target.get? "content" ≠ some .null) :
    opened target = target := by
  unfold opened
  split
  next hnull => exact absurd hnull h
  next => rfl

theorem fillSlot_slotOf {target : Fields} (h : HasSlot target) :
    fillSlot target (slotOf target) = opened target := by
  unfold fillSlot opened
  cases hcontent : target.get? "content" with
  | none =>
    have hbare : target.contains "content" = false := by rw [Fields.contains, hcontent]; rfl
    rw [hbare, slotOf_bare hbare]
    rfl
  | some content =>
    rw [if_pos (Fields.contains_of_get? hcontent)]
    cases content with
    | null => rw [slotOf_null hcontent]
    | mapping fields => rw [slotOf_mapping hcontent, Fields.insert_get? hcontent]
    | _ => exact absurd (h _ hcontent) (by simp [Value.isNullOrMapping])

theorem hasSlot_of_accepts {target : Fields} (h : AttachMode.merge.accepts target = true) :
    HasSlot target := by
  intro content hcontent
  simpa only [AttachMode.accepts, hcontent] using h

/-- A target after the timestamp of a child: the same, or with that timestamp where both
have one and the child's is later. -/
inductive Stamped (target : Fields) (source : StepResult) : Fields → Prop
  | same : Stamped target source target
  | later {metadata : Fields} {candidate current : String} :
      target.get? "metadata" = some (.mapping metadata) →
      updatedAt? metadata = some current →
      source.metadata?.bind updatedAt? = some candidate → isNewer candidate current = true →
      Stamped target source
        (target.insert "metadata" (.mapping (metadata.insert "updated_at" (.string candidate))))

theorem stamped_keepNewest (target : Fields) (source : StepResult) :
    Stamped target source (keepNewest target source) := by
  unfold keepNewest
  split
  next candidate metadata hcandidate hmetadata =>
    have hheld : target.get? "metadata" = some (.mapping metadata) :=
      StepResult.get?_of_metadata hmetadata
    split
    next current hcurrent =>
      split
      next hnewer => exact .later hheld hcurrent hcandidate hnewer
      next => exact .same
    next => exact .same
  next => exact .same

theorem keepNewest_of_undated (target : Fields) {source : StepResult}
    (h : source.metadata?.bind updatedAt? = none) : keepNewest target source = target := by
  rw [keepNewest, h]

theorem Attach.payload_of_null (attach : Attach) {source : StepResult}
    (h : source.content = .null) : attach.payload source = .ok .null := by
  obtain ⟨mode, key, start⟩ := attach
  cases key <;> cases start <;> simp only [payload, h] <;> rfl

namespace Interpreter

variable {interpreter : Interpreter} {host : Host} {node : Node} {branch : Branch}
  {attach : Attach} {target : Fields} {source : StepResult} {items : List Value}
  {children : List StepResult} {history after : History}

theorem integrate_null (hhook : host.mergeDown = none) (hmode : attach.mode = .merge)
    (hslot : HasSlot target) (hpayload : attach.payload source = .ok .null) (history : History) :
    integrate host attach target source history =
      .ok (opened (keepNewest target source)) history := by
  have hfits : AttachMode.merge.Fits (keepNewest target source) .null :=
    (fits_keepNewest target source _ _).mpr ⟨hslot, rfl⟩
  have hland : attach.land (keepNewest target source) .null =
      .ok (opened (keepNewest target source)) := by
    rw [attach.land_ok_iff, hmode, ← fillSlot_slotOf hfits.1]
    exact ⟨hfits, by simp only [Attach.landed, hmode]; rfl⟩
  rw [integrate_eq hhook, if_neg (by rw [hmode]; decide), Attach.foldInto, hpayload]
  exact Run.ofExcept_ok_iff.mpr ⟨hland, rfl⟩

inductive SuppliedAll (node : Node) (branch : Branch) :
    List Value → History → List StepResult → History → Prop
  | nil {history : History} : SuppliedAll node branch [] history [] history
  | cons {element : Value} {rest : List Value} {child : StepResult} {children : List StepResult}
      {history between after : History} :
      Supplied node branch element history child between →
      SuppliedAll node branch rest between children after →
      SuppliedAll node branch (element :: rest) history (child :: children) after

theorem SuppliedAll.updated (hhook : interpreter.host.mergeDown = none)
    (hmode : attach.mode = .merge)
    (hitems : ∀ element ∈ items, ∃ fields, element = .mapping fields ∧ HasSlot fields)
    (hnull : ∀ child ∈ children, child.content = .null ∧ child.metadata? = none)
    (h : SuppliedAll node branch items history children after) :
    Updated interpreter node branch attach items history children (items.map Value.opened)
      after := by
  induction h with
  | nil => exact .nil
  | @cons element rest child children history between after hsupplied hrest ih =>
    obtain ⟨fields, rfl, hslot⟩ := hitems element (List.mem_cons_self ..)
    obtain ⟨hcontent, hmetadata⟩ := hnull child (List.mem_cons_self ..)
    have hfold : integrate interpreter.host attach fields child between =
        .ok (opened fields) between := by
      rw [integrate_null hhook hmode hslot (attach.payload_of_null hcontent),
        keepNewest_of_undated fields (by rw [hmetadata]; rfl)]
    have hbelow := ih (fun other hmem => hitems other (List.mem_cons_of_mem _ hmem))
      (fun other hmem => hnull other (List.mem_cons_of_mem _ hmem))
    exact .cons hsupplied (Run.bind_ok_iff.mpr ⟨_, _, hfold, rfl⟩) hbelow

theorem map_opened (h : ∀ element ∈ items, element.field? "content" ≠ some .null) :
    items.map Value.opened = items := by
  have hsame : ∀ element ∈ items, element.opened = element := by
    intro element hmem
    cases element with
    | mapping fields => exact congrArg Value.mapping (opened_of_ne (h _ hmem))
    | _ => rfl
  exact (List.map_congr_left hsame).trans (List.map_id items)

/-- A directive whose child results merge nothing goes through all elements. -/
theorem direct_null {folding : Folding} {list : String} {content : Fields}
    (hhook : interpreter.host.mergeDown = none) (hmode : attach.mode = .merge)
    (hcontent : folding.result.content = .mapping content)
    (hlist : content.get? list = some (.list items))
    (hattach : branch.plan.attachDirective = .ok attach)
    (hitems : ∀ element ∈ items, ∃ fields, element = .mapping fields ∧ HasSlot fields)
    (hsupplied : SuppliedAll node branch items history children after)
    (hnull : ∀ child ∈ children, child.content = .null ∧ child.metadata? = none) :
    ∃ folding', direct interpreter node folding (.each list, branch) history =
        .ok folding' after ∧
      folding'.result.content =
        .mapping (content.insert list (.list (items.map Value.opened))) ∧
      ((∀ element ∈ items, element.field? "content" ≠ some .null) →
        folding'.result.content = folding.result.content) := by
  obtain ⟨folding', hdirect, hwritten⟩ :=
    direct_of_updated hcontent hlist hattach (hsupplied.updated hhook hmode hitems hnull)
  refine ⟨folding', hdirect, hwritten, fun hfields => ?_⟩
  rw [hwritten, map_opened hfields, Fields.insert_get? hlist, hcontent]

/-- Merging a null payload without a hook succeeds and leaves a target as it was but for
a later timestamp, unless the content is null: that becomes a mapping without fields. A
directive whose child results merge nothing gives back the list, its elements changed in
this way alone. -/
theorem merge_null_leaves (interpreter : Interpreter) (hhook : interpreter.host.mergeDown = none)
    (attach : Attach) (hmode : attach.mode = .merge) :
    (∀ target source history, attach.mode.accepts target = true →
      attach.payload source = .ok .null →
      ∃ out, integrate interpreter.host attach target source history = .ok out history ∧
        (target.get? "content" ≠ some .null → Stamped target source out) ∧
        (target.get? "content" = some .null → ∃ stamped, Stamped target source stamped ∧
          out = stamped.insert "content" (.mapping []))) ∧
    ∀ node folding child list (content : Fields) items history children after,
      folding.result.content = .mapping content → content.get? list = some (.list items) →
      child.attachDirective = .ok attach →
      (∀ element ∈ items, ∃ fields, element = .mapping fields ∧
        attach.mode.accepts fields = true) →
      SuppliedAll node ⟨child, runPlan interpreter node.args child⟩ items history children after →
      (∀ result ∈ children, result.content = .null ∧ result.metadata? = none) →
      ∃ folding', direct interpreter node folding
          (.each list, ⟨child, runPlan interpreter node.args child⟩) history = .ok folding' after ∧
        folding'.result.content =
          .mapping (content.insert list (.list (items.map Value.opened))) ∧
        ((∀ element ∈ items, element.field? "content" ≠ some .null) →
          folding'.result.content = folding.result.content) := by
  constructor
  · intro target source history haccepts hpayload
    rw [hmode] at haccepts
    have hget := get?_content_keepNewest target source
    refine ⟨_, integrate_null hhook hmode (hasSlot_of_accepts haccepts) hpayload history, ?_, ?_⟩
    · intro hcontent
      rw [opened_of_ne (hget ▸ hcontent)]
      exact stamped_keepNewest target source
    · intro hcontent
      exact ⟨_, stamped_keepNewest target source, by rw [opened, hget, hcontent]⟩
  · intro node folding child list content items history children after hcontent hlist hattach hitems
      hsupplied hnull
    refine direct_null hhook hmode hcontent hlist hattach (fun element hmem => ?_) hsupplied hnull
    obtain ⟨fields, hfields, haccepts⟩ := hitems element hmem
    exact ⟨fields, hfields, hasSlot_of_accepts (hmode ▸ haccepts)⟩

/-- A payload narrowed to a field that is not there is merged into a content with one field
and into no content, and both elements come back as they were. -/
theorem merge_null_leaves_lines :
    let attach : Attach := ⟨.merge, some "p", some "x_"⟩
    let line := (Plan.named "line").attach attach
    let lines : List Value :=
      [.mapping [("x", .null)], .mapping [("content", .mapping [("y", .null)])]]
    let order : StepResult := .ofContent (.mapping [("id", .null), ("lines", .list lines)])
    let interpreter : Interpreter := ⟨.byName [("line", .empty)], .standard⟩
    let node := nodeOf interpreter [] (Plan.named "order") .empty "order" order
    let branch : Branch := ⟨line, runPlan interpreter node.args line⟩
    let after : History := [.run ⟨line.fields⟩ [], .run ⟨line.fields⟩ []]
    let other : StepResult := .ofContent (.mapping [("q", .null)])
    interpreter.host.mergeDown = none ∧ attach.payload other = .ok .null ∧
      (∃ out, integrate interpreter.host attach [("content", .null)] other [] = .ok out [] ∧
        ∃ stamped, Stamped [("content", .null)] other stamped ∧
          out = stamped.insert "content" (.mapping [])) ∧
      SuppliedAll node branch lines [] [.empty, .empty] after ∧
      ∃ folding', direct interpreter node ⟨order, false⟩ (.each "lines", branch) [] =
        .ok folding' after ∧ folding'.result.content = order.content := by
  intro attach line lines order interpreter node branch after other
  have hleaves := merge_null_leaves interpreter rfl attach rfl
  have hsupplied : SuppliedAll node branch lines [] [.empty, .empty] after :=
    .cons (.run rfl rfl rfl) (.cons (.run rfl rfl rfl) .nil)
  have hitems : ∀ element ∈ lines, ∃ fields, element = .mapping fields ∧
      attach.mode.accepts fields = true := by
    simp [lines, attach, AttachMode.accepts, Fields.get?, Value.isNullOrMapping]
  have hnull : ∀ result ∈ [StepResult.empty, .empty],
      result.content = .null ∧ result.metadata? = none := by
    intro result hmem
    simp only [List.mem_cons, List.not_mem_nil, or_false, or_self] at hmem
    rw [hmem]
    exact ⟨rfl, rfl⟩
  obtain ⟨out, hfold, _, hopened⟩ := hleaves.1 [("content", .null)] other [] rfl rfl
  obtain ⟨folding', hdirect, _, hsame⟩ := hleaves.2 node ⟨order, false⟩ line "lines" _ lines [] _ _
    rfl rfl rfl hitems hsupplied hnull
  refine ⟨rfl, rfl, ⟨out, hfold, hopened rfl⟩, hsupplied, folding', hdirect, hsame ?_⟩
  simp [lines, Value.field?, Fields.get?]

/-- The child result is null and without metadata, and the line it is merged into takes a
payload; but the content of the line is null, and the list does not come back as it was. -/
theorem merge_null_opens :
    let line := (Plan.named "line").attach ⟨.merge, none, none⟩
    let plan := ((Plan.named "order").attach .detached).fanOut (.each "lines") line
    let order : StepResult :=
      .ofContent (.mapping [("lines", .list [.mapping [("content", .null)]])])
    let interpreter : Interpreter := ⟨.byName [("order", order), ("line", .empty)], .standard⟩
    let node := nodeOf interpreter [] plan .empty "order" order
    let stepped : History := [.run ⟨plan.fields⟩ []]
    let after : History := [.run ⟨plan.fields⟩ [], .run ⟨line.fields⟩ []]
    let final : StepResult :=
      .ofContent (.mapping [("lines", .list [.mapping [("content", .mapping [])]])])
    interpreter.host.mergeDown = none ∧
      AttachMode.merge.accepts [("content", .null)] = true ∧
      SuppliedAll node ⟨line, runPlan interpreter node.args line⟩
        [.mapping [("content", .null)]] stepped [.empty] after ∧
      StepResult.empty.content = .null ∧ StepResult.empty.metadata? = none ∧
      runPlan interpreter [] plan .empty [] = .ok final after ∧
      final.content.field? "lines" ≠ order.content.field? "lines" := by
  intro line plan order interpreter node stepped after final
  refine ⟨rfl, rfl, .cons (.run rfl rfl rfl) .nil, rfl, rfl, rfl, ?_⟩
  simp [final, order, StepResult.ofContent, StepResult.content, Value.field?, Fields.get?]

end Interpreter

end PlanFold
