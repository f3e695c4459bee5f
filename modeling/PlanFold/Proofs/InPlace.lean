import PlanFold.Proofs.OwnResult

/-!
# Folding in place

A target may be changed where it stands, one write after the other: its
timestamp first, then what the merge-down hook makes of it, then the payload,
field by field. What has been written when an error comes up stays written, so
a failure could leave a part of a payload behind. It does not. A payload that
cannot be taken or does not fit leaves the target as it was, and what a hook
leaves is checked once more before the first write. Read from the end, the
writes are the landing of the payload.
-/

set_option autoImplicit false

namespace PlanFold

structure Workpiece where
  target : Fields
  history : History

inductive Stop where
  | failed (error : PlanError)
  | unforeseen

abbrev Editing := EStateM Stop Workpiece

abbrev EditHook := History → Fields → StepResult → Fields × Option String

def EditHook.answer (hook : EditHook) :
    History → Fields → StepResult → Except String Fields :=
  fun earlier target source =>
    match hook earlier target source with
    | (left, none) => .ok left
    | (_, some text) => .error text

namespace Editing

variable {α β : Type}

def demand : Except PlanError α → Editing α
  | .ok a => pure a
  | .error e => throw (.failed e)

def edit (f : Fields → Fields) : Editing Unit :=
  modify fun piece => { piece with target := f piece.target }

def askHook (hook : Option EditHook) (source : StepResult) : Editing Unit :=
  match hook with
  | none => pure ()
  | some hook => fun piece =>
    let called := piece.history ++ [.mergeDown piece.target source]
    match hook piece.history piece.target source with
    | (left, none) => .ok () ⟨left, called⟩
    | (left, some text) => .error (.failed (.host text)) ⟨left, called⟩

theorem demand_of_ok {x : Except PlanError α} {a : α} (h : x = .ok a) (piece : Workpiece) :
    demand x piece = .ok a piece := by
  rw [h]
  rfl

theorem demand_of_error {x : Except PlanError α} {e : PlanError} (h : x = .error e)
    (piece : Workpiece) : demand x piece = .error (.failed e) piece := by
  rw [h]
  rfl

theorem askHook_run (edit : EditHook) (source : StepResult) (piece : Workpiece) :
    askHook (some edit) source piece =
      match edit piece.history piece.target source with
      | (left, none) => .ok () ⟨left, piece.history ++ [.mergeDown piece.target source]⟩
      | (left, some text) =>
        .error (.failed (.host text)) ⟨left, piece.history ++ [.mergeDown piece.target source]⟩ :=
  rfl

theorem bind_of_ok {x : Editing α} {f : α → Editing β} {a : α} {piece piece' : Workpiece}
    (h : x piece = .ok a piece') : (x >>= f) piece = f a piece' := by
  change EStateM.bind x f piece = _
  unfold EStateM.bind
  rw [h]

theorem bind_of_error {x : Editing α} {f : α → Editing β} {stop : Stop}
    {piece piece' : Workpiece} (h : x piece = .error stop piece') :
    (x >>= f) piece = .error stop piece' := by
  change EStateM.bind x f piece = _
  unfold EStateM.bind
  rw [h]

end Editing

inductive Slot where
  | target
  | content

namespace Slot

def find : Editing Slot := fun piece =>
  match piece.target.get? "content" with
  | none => .ok .target piece
  | some .null =>
    .ok .content { piece with target := piece.target.insert "content" (.mapping []) }
  | some (.mapping _) => .ok .content piece
  | some _ => .error .unforeseen piece

def edit (slot : Slot) (f : Fields → Fields) : Editing Unit := fun piece =>
  match slot with
  | .target => .ok () { piece with target := f piece.target }
  | .content =>
    match piece.target.get? "content" with
    | some (.mapping inner) =>
      .ok () { piece with target := piece.target.insert "content" (.mapping (f inner)) }
    | _ => .error .unforeseen piece

def fill (slot : Slot) (target inner : Fields) : Fields :=
  match slot with
  | .target => inner
  | .content => target.insert "content" (.mapping inner)

theorem edit_fill (slot : Slot) (f : Fields → Fields) (target inner : Fields)
    (history : History) :
    slot.edit f ⟨slot.fill target inner, history⟩ =
      .ok () ⟨slot.fill target (f inner), history⟩ := by
  cases slot with
  | target => rfl
  | content =>
    simp only [edit, fill, Fields.get?_insert_self, Fields.insert_insert]

theorem forM_edit_fill (slot : Slot) (fields target inner : Fields) (history : History) :
    (fields.forM fun field => slot.edit (·.insert field.1 field.2))
        ⟨slot.fill target inner, history⟩ =
      .ok () ⟨slot.fill target (inner.merge fields), history⟩ := by
  induction fields generalizing inner with
  | nil => rfl
  | cons field rest ih =>
    exact (Editing.bind_of_ok (slot.edit_fill _ _ _ _)).trans (ih _)

theorem find_run {target : Fields} (h : HasSlot target) (history : History) : ∃ slot : Slot,
    find ⟨target, history⟩ = .ok slot ⟨slot.fill target (slotOf target), history⟩ ∧
    ∀ inner, slot.fill target inner = fillSlot target inner := by
  unfold find
  cases hcontent : target.get? "content" with
  | none =>
    have hbare : target.contains "content" = false := by rw [Fields.contains, hcontent]; rfl
    refine ⟨.target, ?_, fun inner => ?_⟩
    · simp only [fill, slotOf_bare hbare]
    · rw [fillSlot, hbare]
      rfl
  | some content =>
    have hwrapped := Fields.contains_of_get? hcontent
    refine ⟨.content, ?_, fun inner => ?_⟩
    · cases content with
      | null => simp only [fill, slotOf_null hcontent]
      | mapping fields =>
        simp only [fill, slotOf_mapping hcontent, Fields.insert_get? hcontent]
      | _ => exact absurd (h _ hcontent) (by simp [Value.isNullOrMapping])
    · rw [fillSlot, if_pos hwrapped]
      rfl

end Slot

namespace Attach

def landInPlace (attach : Attach) (payload : Value) : Editing Unit := do
  Editing.demand (attach.mode.check (← get).target payload)
  match attach.mode with
  | .detached => pure ()
  | .merge => do
    let slot ← Slot.find
    payload.entries.forM fun field => slot.edit (·.insert field.1 field.2)
  | .replace =>
    if (← get).target.contains "content" then Editing.edit (·.insert "content" payload)
    else do
      Editing.edit fun _ => []
      payload.entries.forM fun field => Slot.edit .target (·.insert field.1 field.2)
  | .relocate key => do
    let slot ← Slot.find
    attach.fromKey.forM fun old => slot.edit (·.erase old)
    slot.edit (·.insert key payload)

variable {attach : Attach} {payload : Value}

/-- A payload that fits is written in full. -/
theorem landInPlace_of_fits {piece : Workpiece} (hpayload : payload.entries.Distinct)
    (h : attach.mode.Fits piece.target payload) : attach.landInPlace payload piece =
      .ok () { piece with target := attach.landed piece.target payload } := by
  obtain ⟨mode, old, start⟩ := attach
  obtain ⟨target, history⟩ := piece
  have hcheck := (Attach.check_ok_iff ⟨mode, old, start⟩ target payload).mpr h
  have hdemand := Editing.demand_of_ok hcheck ⟨target, history⟩
  refine (Editing.bind_of_ok rfl).trans ((Editing.bind_of_ok hdemand).trans ?_)
  cases mode with
  | detached => rfl
  | merge =>
    obtain ⟨slot, hfind, hfill⟩ := Slot.find_run h.1 history
    refine (Editing.bind_of_ok hfind).trans ((slot.forM_edit_fill _ _ _ _).trans ?_)
    rw [hfill]
    rfl
  | replace =>
    refine (Editing.bind_of_ok rfl).trans ?_
    unfold landed
    cases target.contains "content" with
    | true => rfl
    | false =>
      have hwrite := Slot.target.forM_edit_fill payload.entries target [] history
      rw [Fields.merge_of_distinct hpayload] at hwrite
      exact (Editing.bind_of_ok rfl).trans hwrite
  | relocate key =>
    obtain ⟨slot, hfind, hfill⟩ := Slot.find_run h history
    refine (Editing.bind_of_ok hfind).trans ?_
    unfold landed
    simp only [← hfill]
    cases old with
    | none => exact (Editing.bind_of_ok rfl).trans (slot.edit_fill _ _ _ _)
    | some old => exact (Editing.bind_of_ok (slot.edit_fill _ _ _ _)).trans (slot.edit_fill _ _ _ _)

theorem landInPlace_of_refused {piece : Workpiece} {e : PlanError}
    (h : attach.mode.check piece.target payload = .error e) :
    attach.landInPlace payload piece = .error (.failed e) piece :=
  (Editing.bind_of_ok rfl).trans (Editing.bind_of_error (Editing.demand_of_error h piece))

end Attach

def integrateInPlace (hook : Option EditHook) (attach : Attach) (source : StepResult) :
    Editing Unit :=
  if attach.mode = .detached then pure ()
  else do
    let payload ← Editing.demand (attach.payload source)
    Editing.demand (attach.mode.check (← get).target payload)
    Editing.edit (keepNewest · source)
    Editing.askHook hook source
    attach.landInPlace payload

def shown : EStateM.Result Stop Workpiece Unit → Option (EStateM.Result PlanError History Fields)
  | .ok () piece => some (.ok piece.target piece.history)
  | .error (.failed e) piece => some (.error e piece.history)
  | .error .unforeseen _ => none

inductive Settled (attach : Attach) (payload : Value) (left : Workpiece) :
    Option String → EStateM.Result Stop Workpiece Unit → Prop
  | complained {text : String} :
      Settled attach payload left (some text) (.error (.failed (.host text)) left)
  | landed : attach.mode.Fits left.target payload →
      Settled attach payload left none
        (.ok () { left with target := attach.landed left.target payload })
  | refused {e : PlanError} : attach.mode.check left.target payload = .error e →
      e = .incompatibleTarget attach.mode.name (AttachMode.targetKind left.target) ∨
        e = .incompatibleSource attach.mode.name payload.kind →
      Settled attach payload left none (.error (.failed e) left)

/-- An integration in place that leaves no payload half written. -/
structure Atomic (hook : Option EditHook) (attach : Attach) (source : StepResult)
    (target : Fields) (history : History) : Prop where
  detached : attach.mode = .detached →
    integrateInPlace hook attach source ⟨target, history⟩ = .ok () ⟨target, history⟩
  untaken : ∀ e, attach.mode ≠ .detached → attach.payload source = .error e →
    integrateInPlace hook attach source ⟨target, history⟩ = .error (.failed e) ⟨target, history⟩
  refused : ∀ payload e, attach.mode ≠ .detached → attach.payload source = .ok payload →
    attach.mode.check target payload = .error e →
    integrateInPlace hook attach source ⟨target, history⟩ = .error (.failed e) ⟨target, history⟩
  unhooked : ∀ payload, hook = none → attach.mode ≠ .detached →
    attach.payload source = .ok payload → attach.mode.check target payload = .ok () →
    integrateInPlace hook attach source ⟨target, history⟩ =
      .ok () ⟨attach.landed (keepNewest target source) payload, history⟩
  untouched : ∀ stop piece, hook = none →
    integrateInPlace hook attach source ⟨target, history⟩ = .error stop piece →
    piece = ⟨target, history⟩
  hooked : ∀ edit payload left complaint, hook = some edit → attach.mode ≠ .detached →
    attach.payload source = .ok payload → attach.mode.check target payload = .ok () →
    edit history (keepNewest target source) source = (left, complaint) →
    Settled attach payload ⟨left, history ++ [.mergeDown (keepNewest target source) source]⟩
      complaint (integrateInPlace hook attach source ⟨target, history⟩)
  foreseen : ∀ piece,
    integrateInPlace hook attach source ⟨target, history⟩ ≠ .error .unforeseen piece
  shows : ∀ host : Host, host.mergeDown = hook.map EditHook.answer →
    shown (integrateInPlace hook attach source ⟨target, history⟩) =
      some (Interpreter.integrate host attach target source history)

section ends

variable {hook : Option EditHook} {attach : Attach} {source : StepResult} {target : Fields}
  {history : History}

theorem integrateInPlace_detached (hmode : attach.mode = .detached) :
    integrateInPlace hook attach source ⟨target, history⟩ = .ok () ⟨target, history⟩ := by
  rw [integrateInPlace, if_pos hmode]
  rfl

variable (hmode : attach.mode ≠ .detached)

include hmode

theorem integrateInPlace_untaken {e : PlanError} (hpayload : attach.payload source = .error e) :
    integrateInPlace hook attach source ⟨target, history⟩ =
      .error (.failed e) ⟨target, history⟩ := by
  rw [integrateInPlace, if_neg hmode]
  exact Editing.bind_of_error (Editing.demand_of_error hpayload _)

variable {payload : Value} (hpayload : attach.payload source = .ok payload)

include hpayload

theorem integrateInPlace_refused {e : PlanError}
    (hcheck : attach.mode.check target payload = .error e) :
    integrateInPlace hook attach source ⟨target, history⟩ =
      .error (.failed e) ⟨target, history⟩ := by
  rw [integrateInPlace, if_neg hmode, Editing.bind_of_ok (Editing.demand_of_ok hpayload _)]
  refine (Editing.bind_of_ok rfl).trans ?_
  exact Editing.bind_of_error (Editing.demand_of_error hcheck _)

theorem integrateInPlace_accepted (hcheck : attach.mode.check target payload = .ok ()) :
    integrateInPlace hook attach source ⟨target, history⟩ =
      (Editing.askHook hook source >>= fun _ => attach.landInPlace payload)
        ⟨keepNewest target source, history⟩ := by
  rw [integrateInPlace, if_neg hmode, Editing.bind_of_ok (Editing.demand_of_ok hpayload _)]
  refine (Editing.bind_of_ok rfl).trans ?_
  exact (Editing.bind_of_ok (Editing.demand_of_ok hcheck _)).trans (Editing.bind_of_ok rfl)

variable (hcheck : attach.mode.check target payload = .ok ())

include hcheck

theorem integrateInPlace_unhooked (hdistinct : payload.entries.Distinct) :
    integrateInPlace none attach source ⟨target, history⟩ =
      .ok () ⟨attach.landed (keepNewest target source) payload, history⟩ := by
  have hfits := (attach.check_ok_iff target payload).mp hcheck
  rw [integrateInPlace_accepted hmode hpayload hcheck]
  exact (Editing.bind_of_ok rfl).trans
    (Attach.landInPlace_of_fits hdistinct ((fits_keepNewest target source _ _).mpr hfits))

theorem integrateInPlace_hooked (hdistinct : payload.entries.Distinct) {edit : EditHook}
    {left : Fields} {complaint : Option String}
    (hedit : edit history (keepNewest target source) source = (left, complaint)) :
    Settled attach payload ⟨left, history ++ [.mergeDown (keepNewest target source) source]⟩
      complaint (integrateInPlace (some edit) attach source ⟨target, history⟩) := by
  have hasked := Editing.askHook_run edit source ⟨keepNewest target source, history⟩
  rw [hedit] at hasked
  rw [integrateInPlace_accepted hmode hpayload hcheck]
  cases complaint with
  | some text =>
    rw [Editing.bind_of_error hasked]
    exact .complained
  | none =>
    rw [Editing.bind_of_ok hasked]
    cases hagain : attach.mode.check left payload with
    | ok _ =>
      have hfits := (attach.check_ok_iff left payload).mp hagain
      rw [Attach.landInPlace_of_fits hdistinct hfits]
      exact .landed hfits
    | error e =>
      rw [Attach.landInPlace_of_refused hagain]
      exact .refused hagain (AttachMode.check_error hagain)

end ends

section shows

variable {hook : Option EditHook} {attach : Attach} {source : StepResult} {target : Fields}
  {host : Host}

theorem Interpreter.integrate_accepted {payload : Value} (hmode : attach.mode ≠ .detached)
    (hpayload : attach.payload source = .ok payload)
    (hcheck : attach.mode.check target payload = .ok ()) :
    integrate host attach target source =
      Run.callHook host.mergeDown (.mergeDown (keepNewest target source) source)
          (fun mergeDown earlier => mergeDown earlier (keepNewest target source) source)
          (keepNewest target source) >>= fun left => Run.ofExcept (attach.land left payload) := by
  rw [integrate, if_neg hmode, hpayload]
  show (Run.ofExcept (attach.mode.check target payload) >>= _) = _
  rw [hcheck]
  rfl

theorem shown_settled {payload : Value} {left : Workpiece} {complaint : Option String}
    {outcome : EStateM.Result Stop Workpiece Unit}
    (h : Settled attach payload left complaint outcome) :
    shown outcome = some (match complaint with
      | some text => .error (.host text) left.history
      | none => Run.ofExcept (attach.land left.target payload) left.history) := by
  cases h with
  | complained => rfl
  | landed hfits =>
    rw [(attach.land_ok_iff left.target payload _).mpr ⟨hfits, rfl⟩]
    rfl
  | refused hcheck _ =>
    rw [(attach.land_error_iff left.target payload _).mpr hcheck]
    rfl

theorem shown_integrateInPlace (hsource : source.toValue.WellFormed)
    (hhook : host.mergeDown = hook.map EditHook.answer) (history : History) :
    shown (integrateInPlace hook attach source ⟨target, history⟩) =
      some (Interpreter.integrate host attach target source history) := by
  by_cases hmode : attach.mode = .detached
  · rw [integrateInPlace_detached hmode, Interpreter.integrate, if_pos hmode]
    rfl
  cases hpayload : attach.payload source with
  | error e =>
    rw [integrateInPlace_untaken hmode hpayload, Interpreter.integrate, if_neg hmode, hpayload]
    rfl
  | ok payload =>
    cases hcheck : attach.mode.check target payload with
    | error e =>
      rw [integrateInPlace_refused hmode hpayload hcheck, Interpreter.integrate, if_neg hmode,
        hpayload]
      show _ = some ((Run.ofExcept (attach.mode.check target payload) >>= _) history)
      rw [hcheck]
      rfl
    | ok _ =>
      have hdistinct := attach.payload_distinct hsource hpayload
      rw [Interpreter.integrate_accepted hmode hpayload hcheck, Run.bind_run, hhook]
      cases hook with
      | none =>
        have hfits := (attach.check_ok_iff target payload).mp hcheck
        rw [integrateInPlace_unhooked hmode hpayload hcheck hdistinct]
        show _ = some (Run.ofExcept (attach.land (keepNewest target source) payload) history)
        rw [(attach.land_ok_iff _ payload _).mpr
          ⟨(fits_keepNewest target source _ _).mpr hfits, rfl⟩]
        rfl
      | some edit =>
        cases hedit : edit history (keepNewest target source) source with
        | mk left complaint =>
          have hsettled := integrateInPlace_hooked hmode hpayload hcheck hdistinct hedit
          rw [shown_settled hsettled, Option.map_some, Run.callHook, Run.call]
          simp only [EditHook.answer, hedit]
          cases complaint <;> rfl

/-- Without a hook any error comes before the first change. -/
theorem integrateInPlace_untouched (hsource : source.toValue.WellFormed) {history : History}
    {stop : Stop} {piece : Workpiece}
    (h : integrateInPlace none attach source ⟨target, history⟩ = .error stop piece) :
    piece = ⟨target, history⟩ := by
  by_cases hmode : attach.mode = .detached
  · rw [integrateInPlace_detached hmode] at h
    cases h
  cases hpayload : attach.payload source with
  | error e =>
    rw [integrateInPlace_untaken hmode hpayload] at h
    cases h
    rfl
  | ok payload =>
    cases hcheck : attach.mode.check target payload with
    | error e =>
      rw [integrateInPlace_refused hmode hpayload hcheck] at h
      cases h
      rfl
    | ok _ =>
      rw [integrateInPlace_unhooked hmode hpayload hcheck
        (attach.payload_distinct hsource hpayload)] at h
      cases h

end shows

/-- Folding in place lands a payload in full or not at all. -/
theorem integrateInPlace_atomic (hook : Option EditHook) (attach : Attach) {source : StepResult}
    (hsource : source.toValue.WellFormed) (target : Fields) (history : History) :
    Atomic hook attach source target history where
  detached := integrateInPlace_detached
  untaken e hmode hpayload := integrateInPlace_untaken hmode hpayload
  refused payload e hmode hpayload hcheck := integrateInPlace_refused hmode hpayload hcheck
  unhooked := by
    rintro payload rfl hmode hpayload hcheck
    exact integrateInPlace_unhooked hmode hpayload hcheck
      (attach.payload_distinct hsource hpayload)
  untouched := by
    rintro stop piece rfl h
    exact integrateInPlace_untouched hsource h
  hooked := by
    rintro edit payload left complaint rfl hmode hpayload hcheck hedit
    exact integrateInPlace_hooked hmode hpayload hcheck
      (attach.payload_distinct hsource hpayload) hedit
  foreseen := by
    intro piece h
    let host : Host := { Host.byName [] with mergeDown := hook.map EditHook.answer }
    have hshown : shown (integrateInPlace hook attach source ⟨target, history⟩) =
        some (Interpreter.integrate host attach target source history) :=
      shown_integrateInPlace hsource rfl history
    rw [h] at hshown
    cases hshown
  shows host hhook := shown_integrateInPlace hsource hhook history

/-- A truth value may take the place of the content, but the hook takes the content away. -/
theorem integrateInPlace_atomic_removed :
    let attach : Attach := ⟨.replace, none, none⟩
    let target : Fields := [("content", .null)]
    let source : StepResult := .ofContent (.bool true)
    let hook : EditHook := fun _ target _ => (target.erase "content", none)
    let left : Workpiece := ⟨[], [.mergeDown target source]⟩
    source.toValue.WellFormed ∧ attach.mode.check target source.content = .ok () ∧
      Settled attach source.content left none
        (integrateInPlace (some hook) attach source ⟨target, []⟩) ∧
      integrateInPlace (some hook) attach source ⟨target, []⟩ =
        .error (.failed (.incompatibleSource "replace" "boolean")) left := by
  intro attach target source hook left
  have hsource : source.toValue.WellFormed := by
    simp [source, StepResult.toValue, StepResult.ofContent, Value.WellFormed,
      Value.WellFormedFields, Fields.Distinct, Fields.keys]
  have hatomic := integrateInPlace_atomic (some hook) attach hsource target []
  have hsettled := hatomic.hooked hook source.content [] none rfl (by decide) rfl rfl rfl
  exact ⟨hsource, rfl, hsettled, rfl⟩

end PlanFold
