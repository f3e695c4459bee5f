import PlanFold.Integration
import PlanFold.Proofs.FieldMaps

/-!
# The algebra of integration

What a directive takes from a child result is one value, its contribution:
the content, narrowed to a key and with a text before its keys. Whether it can
be taken, and whether it then fits the target, depends on the kinds of three
values only. When everything fits, the new target is given field by field,
with the order of its keys; a target with a field `content` changes there and
nowhere else.

Landing makes the same decision as the check before it, with the same error.
Nothing is said here about timestamps or hooks.
-/

set_option autoImplicit false

namespace PlanFold

namespace Value

def narrowed (key : Option String) (value : Value) : Value :=
  match key with
  | none => value
  | some key => (value.field? key).getD .null

def prefixed (start : Option String) (value : Value) : Value :=
  match start, value with
  | some start, .mapping fields => .mapping (fields.map fun field => (start ++ field.1, field.2))
  | _, value => value

def entries (value : Value) : Fields := value.fields?.getD []

theorem get?_entries (value : Value) (key : String) :
    value.entries.get? key = value.field? key := by
  cases value <;> rfl

theorem WellFormed.narrowed {value : Value} (h : value.WellFormed) (key : Option String) :
    (value.narrowed key).WellFormed := by
  cases key with
  | none => exact h
  | some key =>
    rw [Value.narrowed]
    cases hget : value.field? key with
    | none => trivial
    | some held => exact h.field? hget

theorem WellFormed.prefixed_distinct {value : Value} (h : value.WellFormed)
    (start : Option String) : (value.prefixed start).entries.Distinct := by
  cases value with
  | mapping fields =>
    cases start with
    | none => exact h.distinct
    | some start => exact h.distinct.prefixed start
  | _ => cases start <;> exact List.nodup_nil

end Value

theorem bind_eq_ok {α β : Type} {x : Except PlanError α} {f : α → Except PlanError β} {b : β} :
    (x >>= f) = .ok b ↔ ∃ a, x = .ok a ∧ f a = .ok b := by
  cases x <;> simp [bind, Except.bind]

namespace Attach

def contribution (attach : Attach) (source : StepResult) : Value :=
  (source.content.narrowed attach.fromKey).prefixed attach.keyPrefix

def Takes (attach : Attach) (source : StepResult) : Prop :=
  (attach.fromKey.isSome → source.content.isNullOrMapping = true) ∧
    (attach.keyPrefix.isSome →
      (source.content.narrowed attach.fromKey).isNullOrMapping = true)

theorem narrow_ok_iff (key : String) (value out : Value) :
    narrow key value = .ok out ↔
      value.isNullOrMapping = true ∧ value.narrowed (some key) = out := by
  cases value <;> simp [narrow, Value.isNullOrMapping, Value.narrowed, Value.field?]

theorem prefixKeys_ok_iff (start : String) (value out : Value) :
    prefixKeys start value = .ok out ↔
      value.isNullOrMapping = true ∧ value.prefixed (some start) = out := by
  cases value <;> simp [prefixKeys, Value.isNullOrMapping, Value.prefixed]

/-- The payload of a child result is its contribution, where that can be taken. -/
theorem payload_ok_iff (attach : Attach) (source : StepResult) (payload : Value) :
    attach.payload source = .ok payload ↔
      attach.Takes source ∧ attach.contribution source = payload := by
  obtain ⟨mode, key, start⟩ := attach
  cases key with
  | none =>
    cases start with
    | none =>
      simp [Attach.payload, Takes, contribution, bind_eq_ok, Value.narrowed, Value.prefixed]
    | some start =>
      simp [Attach.payload, Takes, contribution, bind_eq_ok, prefixKeys_ok_iff, Value.narrowed]
  | some key =>
    cases start with
    | none =>
      simp [Attach.payload, Takes, contribution, bind_eq_ok, narrow_ok_iff, Value.prefixed]
    | some start =>
      simp [Attach.payload, Takes, contribution, bind_eq_ok, narrow_ok_iff, prefixKeys_ok_iff,
        and_assoc]

def foldInto (attach : Attach) (target : Fields) (source : StepResult) :
    Except PlanError Fields := do
  let payload ← attach.payload source
  attach.land target payload

end Attach

def HasSlot (target : Fields) : Prop :=
  ∀ content, target.get? "content" = some content → content.isNullOrMapping = true

def slotOf (target : Fields) : Fields := (slot? target).getD []

theorem slot?_eq_some_iff (target slot : Fields) :
    slot? target = some slot ↔ HasSlot target ∧ slotOf target = slot := by
  unfold slotOf HasSlot slot?
  cases target.get? "content" with
  | none => simp
  | some content => cases content <;> simp [Value.isNullOrMapping]

theorem slotOf_bare {target : Fields} (h : target.contains "content" = false) :
    slotOf target = target := by
  have hnone : target.get? "content" = none := by simpa [Fields.contains] using h
  unfold slotOf slot?
  rw [hnone]
  rfl

theorem slotOf_null {target : Fields} (h : target.get? "content" = some .null) :
    slotOf target = [] := by
  unfold slotOf slot?
  rw [h]
  rfl

theorem slotOf_mapping {target fields : Fields}
    (h : target.get? "content" = some (.mapping fields)) : slotOf target = fields := by
  unfold slotOf slot?
  rw [h]
  rfl

def AttachMode.Fits (mode : AttachMode) (target : Fields) (payload : Value) : Prop :=
  match mode with
  | .detached => True
  | .merge => HasSlot target ∧ payload.isNullOrMapping = true
  | .replace => target.contains "content" = true ∨ payload.isNullOrMapping = true
  | .relocate _ => HasSlot target

def moved (old : Option String) (key : String) (payload : Value) (slot : Fields) : Fields :=
  match old with
  | some old => (slot.erase old).insert key payload
  | none => slot.insert key payload

namespace Attach

def landed (attach : Attach) (target : Fields) (payload : Value) : Fields :=
  match attach.mode with
  | .detached => target
  | .merge => fillSlot target ((slotOf target).merge payload.entries)
  | .replace =>
    if target.contains "content" then target.insert "content" payload else payload.entries
  | .relocate key => fillSlot target (moved attach.fromKey key payload (slotOf target))

theorem land_ok_iff (attach : Attach) (target : Fields) (payload : Value) (out : Fields) :
    attach.land target payload = .ok out ↔
      attach.mode.Fits target payload ∧ attach.landed target payload = out := by
  obtain ⟨mode, old, start⟩ := attach
  have hslot := slot?_eq_some_iff target
  have hnone : slot? target = none → ¬HasSlot target := fun h hs => by
    simpa [h] using (hslot _).mpr ⟨hs, rfl⟩
  unfold land landed AttachMode.Fits
  cases mode with
  | detached => simp
  | merge =>
    cases h : slot? target with
    | none => simp [hnone h]
    | some slot =>
      obtain ⟨hs, rfl⟩ := (hslot slot).mp h
      cases payload <;>
        simp [hs, Value.isNullOrMapping, Value.entries, Value.fields?, Fields.merge]
  | replace =>
    cases hc : target.contains "content" with
    | true => simp
    | false =>
      cases payload <;> simp [Value.isNullOrMapping, Value.entries, Value.fields?, eq_comm]
  | relocate key =>
    cases h : slot? target with
    | none => simp [hnone h]
    | some slot =>
      obtain ⟨hs, rfl⟩ := (hslot slot).mp h
      cases old <;> simp [moved, hs]

/-- The check decides as landing does, with the same error. -/
theorem check_eq_land (attach : Attach) (target : Fields) (payload : Value) :
    attach.mode.check target payload = (attach.land target payload).map fun _ => () := by
  obtain ⟨mode, old, start⟩ := attach
  unfold land AttachMode.check AttachMode.accepts AttachMode.admits AttachMode.targetKind slot?
    Fields.contains
  cases mode <;> cases target.get? "content" with
  | none => cases payload <;> rfl
  | some content => cases content <;> cases payload <;> rfl

theorem check_ok_iff (attach : Attach) (target : Fields) (payload : Value) :
    attach.mode.check target payload = .ok () ↔ attach.mode.Fits target payload := by
  rw [check_eq_land]
  constructor
  · intro h
    cases hland : attach.land target payload with
    | ok out => exact ((attach.land_ok_iff target payload out).mp hland).1
    | error e =>
      rw [hland] at h
      cases h
  · intro h
    rw [(attach.land_ok_iff target payload _).mpr ⟨h, rfl⟩]
    rfl

theorem land_error_iff (attach : Attach) (target : Fields) (payload : Value) (e : PlanError) :
    attach.land target payload = .error e ↔ attach.mode.check target payload = .error e := by
  rw [check_eq_land]
  cases attach.land target payload <;> simp [Except.map]

end Attach

theorem AttachMode.check_error {mode : AttachMode} {target : Fields} {payload : Value}
    {e : PlanError} (h : mode.check target payload = .error e) :
    e = .incompatibleTarget mode.name (targetKind target) ∨
      e = .incompatibleSource mode.name payload.kind := by
  unfold check at h
  split at h
  · cases h
    exact .inl rfl
  · split at h
    · cases h
      exact .inr rfl
    · cases h

def Holds (target out slot : Fields) : Prop :=
  if target.contains "content" then out.get? "content" = some (.mapping slot) else out = slot

theorem fillSlot_holds (target slot : Fields) : Holds target (fillSlot target slot) slot := by
  unfold Holds fillSlot
  split
  · exact Fields.get?_insert_self _ _ _
  · rfl

def movedKeys (old : Option String) (key : String) (keys : List String) : List String :=
  let kept := keys.filter (old ≠ some ·)
  if key ∈ kept then kept else kept ++ [key]

theorem keys_moved (old : Option String) (key : String) (payload : Value) (slot : Fields) :
    (moved old key payload slot).keys = movedKeys old key slot.keys := by
  cases old with
  | none =>
    have hkept : slot.keys.filter (none ≠ some ·) = slot.keys :=
      List.filter_eq_self.mpr fun _ _ => by simp
    rw [moved, movedKeys, Fields.keys_insert, hkept]
  | some old =>
    have hkept : slot.keys.filter (some old ≠ some ·) = (slot.erase old).keys := by
      rw [Fields.keys_erase]
      apply List.filter_congr
      intro k _
      simp [eq_comm]
    rw [moved, movedKeys, Fields.keys_insert, hkept]

theorem get?_moved (old : Option String) (key : String) (payload : Value) (slot : Fields)
    (k : String) : (moved old key payload slot).get? k =
      if k = key then some payload else if old = some k then none else slot.get? k := by
  by_cases hk : k = key
  · subst hk
    cases old <;> simp [moved, Fields.get?_insert]
  · have hk' : ¬key = k := fun e => hk e.symm
    cases old <;> simp [moved, Fields.get?_insert, Fields.get?_erase, hk, hk']

/-- What a directive leaves of a target when a payload lands on it. -/
structure Leaves (attach : Attach) (target : Fields) (payload : Value) (out : Fields) : Prop where
  frame : target.contains "content" = true →
    out.keys = target.keys ∧ ∀ key, key ≠ "content" → out.get? key = target.get? key
  detached : attach.mode = .detached → out = target
  merge : attach.mode = .merge → ∃ slot, Holds target out slot ∧
    (∀ key, slot.get? key = (payload.field? key).or ((slotOf target).get? key)) ∧
    slot.keys = (slotOf target).keys ++ payload.entries.keys.filter (· ∉ (slotOf target).keys)
  replace : attach.mode = .replace →
    if target.contains "content" then out.get? "content" = some payload
    else out = payload.entries
  relocate : ∀ name, attach.mode = .relocate name → ∃ slot, Holds target out slot ∧
    (∀ key, slot.get? key = if key = name then some payload
      else if attach.fromKey = some key then none else (slotOf target).get? key) ∧
    slot.keys = movedKeys attach.fromKey name (slotOf target).keys

theorem fillSlot_frame {target : Fields} (h : target.contains "content" = true) (slot : Fields) :
    (fillSlot target slot).keys = target.keys ∧
      ∀ key, key ≠ "content" → (fillSlot target slot).get? key = target.get? key := by
  rw [fillSlot, if_pos h]
  exact ⟨Fields.keys_insert_of_contains h _, fun key hk => Fields.get?_insert_of_ne hk.symm _ _⟩

namespace Attach

theorem landed_frame (attach : Attach) {target : Fields} (h : target.contains "content" = true)
    (payload : Value) : (attach.landed target payload).keys = target.keys ∧
      ∀ key, key ≠ "content" → (attach.landed target payload).get? key = target.get? key := by
  unfold landed
  cases attach.mode with
  | detached => exact ⟨rfl, fun _ _ => rfl⟩
  | merge => exact fillSlot_frame h _
  | replace =>
    simp only [h, if_true]
    exact ⟨Fields.keys_insert_of_contains h _, fun key hk => Fields.get?_insert_of_ne hk.symm _ _⟩
  | relocate key => exact fillSlot_frame h _

theorem landed_leaves (attach : Attach) (target : Fields) {payload : Value}
    (hpayload : payload.entries.Distinct) :
    Leaves attach target payload (attach.landed target payload) where
  frame h := attach.landed_frame h payload
  detached hm := by simp only [landed, hm]
  merge hm := by
    refine ⟨_, by simp only [landed, hm]; exact fillSlot_holds _ _, ?_, ?_⟩
    · intro key
      rw [Fields.get?_merge _ hpayload, Value.get?_entries]
    · exact Fields.keys_merge _ hpayload
  replace hm := by
    simp only [landed, hm]
    split
    · exact Fields.get?_insert_self _ _ _
    · rfl
  relocate name hm := by
    refine ⟨_, by simp only [landed, hm]; exact fillSlot_holds _ _, ?_, ?_⟩
    · exact get?_moved _ _ _ _
    · exact keys_moved _ _ _ _

theorem foldInto_ok_iff (attach : Attach) (target : Fields) (source : StepResult) (out : Fields) :
    attach.foldInto target source = .ok out ↔ attach.Takes source ∧
      attach.mode.Fits target (attach.contribution source) ∧
      attach.landed target (attach.contribution source) = out := by
  rw [foldInto, bind_eq_ok]
  simp only [payload_ok_iff, land_ok_iff]
  constructor
  · rintro ⟨payload, ⟨htakes, rfl⟩, hfits⟩
    exact ⟨htakes, hfits⟩
  · rintro ⟨htakes, hfits⟩
    exact ⟨_, ⟨htakes, rfl⟩, hfits⟩

theorem contribution_distinct (attach : Attach) {source : StepResult}
    (hsource : source.toValue.WellFormed) : (attach.contribution source).entries.Distinct := by
  have hcontent : source.content.WellFormed := by
    rw [StepResult.content]
    cases h : source.fields.get? "content" with
    | none => trivial
    | some content => exact hsource.field? h
  exact (hcontent.narrowed attach.fromKey).prefixed_distinct attach.keyPrefix

theorem payload_distinct (attach : Attach) {source : StepResult} {payload : Value}
    (hsource : source.toValue.WellFormed) (hpayload : attach.payload source = .ok payload) :
    payload.entries.Distinct := by
  obtain ⟨_, rfl⟩ := (attach.payload_ok_iff source payload).mp hpayload
  exact attach.contribution_distinct hsource

/-- A child result is folded into a target exactly when its contribution can be
taken and fits, which is what the check decides; the target then holds the
contribution as the directive says, and all else as it was. -/
theorem foldInto_laws (attach : Attach) (target : Fields) (source : StepResult)
    (hsource : source.toValue.WellFormed) :
    ((∃ out, attach.foldInto target source = .ok out) ↔
      attach.Takes source ∧ attach.mode.Fits target (attach.contribution source)) ∧
    (∀ payload, attach.mode.check target payload = (attach.land target payload).map fun _ => ()) ∧
    ∀ out, attach.foldInto target source = .ok out →
      Leaves attach target (attach.contribution source) out := by
  refine ⟨?_, attach.check_eq_land target, ?_⟩
  · simp only [foldInto_ok_iff, exists_and_left, exists_eq', and_true]
  · intro out hout
    obtain ⟨_, _, rfl⟩ := (attach.foldInto_ok_iff target source out).mp hout
    exact attach.landed_leaves target (attach.contribution_distinct hsource)

/-- A child gives its field `p` to be merged with marked keys: one of them is
there already and keeps its place, the other goes last. It is so in the content
of a target and in a target without one. -/
theorem foldInto_laws_merge :
    let attach : Attach := ⟨.merge, some "p", some "x_"⟩
    let bare : Fields := [("x_a", .bool true), ("b", .null)]
    let target : Fields :=
      [("id", .null), ("content", .mapping [("x_a", .bool true), ("b", .null)])]
    let source : StepResult :=
      .ofContent (.mapping [("q", .null), ("p", .mapping [("c", .null), ("a", .bool false)])])
    source.toValue.WellFormed ∧
      (∃ out, attach.foldInto target source = .ok out ∧
        Leaves attach target (attach.contribution source) out ∧
        out = [("id", .null), ("content",
          .mapping [("x_a", .bool false), ("b", .null), ("x_c", .null)])]) ∧
      slotOf bare = bare ∧
      ∃ out, attach.foldInto bare source = .ok out ∧
        Leaves attach bare (attach.contribution source) out ∧
        out = [("x_a", .bool false), ("b", .null), ("x_c", .null)] := by
  intro attach bare target source
  have hsource : source.toValue.WellFormed := by
    simp [source, StepResult.toValue, StepResult.ofContent, Value.WellFormed,
      Value.WellFormedFields, Fields.Distinct, Fields.keys]
  obtain ⟨_, _, hleaves⟩ := foldInto_laws attach target source hsource
  have hout : attach.foldInto target source = .ok [("id", .null), ("content",
      .mapping [("x_a", .bool false), ("b", .null), ("x_c", .null)])] := rfl
  obtain ⟨_, _, hleaves'⟩ := foldInto_laws attach bare source hsource
  have hout' : attach.foldInto bare source =
      .ok [("x_a", .bool false), ("b", .null), ("x_c", .null)] := rfl
  exact ⟨hsource, ⟨_, hout, hleaves _ hout, rfl⟩, slotOf_bare rfl, _, hout', hleaves' _ hout', rfl⟩

end Attach

end PlanFold
