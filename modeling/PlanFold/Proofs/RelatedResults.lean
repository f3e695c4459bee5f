import PlanFold.Proofs.OwnResult

/-!
# Results with related metadata

Two results are related when they are one, or differ in their metadata only and
there by a given relation. The settings say no more than which counters of the
metadata are added and which are zeroed, so a relation that is kept by adding
effort, by zeroing page counters and by taking over a timestamp is kept by all
that folding does. What does not fit one of two related targets does not fit
the other.
-/

set_option autoImplicit false

namespace PlanFold

inductive SameOutcome {α β : Type} (R : α → β → Prop) :
    Except PlanError α → Except PlanError β → Prop
  | ok {a : α} {b : β} : R a b → SameOutcome R (.ok a) (.ok b)
  | error (e : PlanError) : SameOutcome R (.error e) (.error e)

theorem SameOutcome.mono {α β : Type} {R S : α → β → Prop} (h : ∀ a b, R a b → S a b)
    {x : Except PlanError α} {y : Except PlanError β} (hxy : SameOutcome R x y) :
    SameOutcome S x y := by
  cases hxy with
  | ok hab => exact .ok (h _ _ hab)
  | error e => exact .error e

theorem SameOutcome.refl {α : Type} (x : Except PlanError α) : SameOutcome Eq x x := by
  cases x with
  | ok a => exact .ok rfl
  | error e => exact .error e

theorem SameOutcome.eq {α : Type} {x y : Except PlanError α} (h : SameOutcome Eq x y) : x = y := by
  cases h with
  | ok hab => rw [hab]
  | error e => rfl

theorem Fields.insert_comm {name other : String} (hne : name ≠ other) {fields : Fields}
    (h : fields.contains name = true) (value value' : Value) :
    (fields.insert name value).insert other value' =
      (fields.insert other value').insert name value := by
  induction fields with
  | nil => cases h
  | cons field rest ih =>
    obtain ⟨key, old⟩ := field
    by_cases hk : key = name
    · subst hk
      simp [insert, hne]
    · by_cases ho : key = other
      · subst ho
        simp [insert, hk]
      · have hrest : contains name rest = true := by
          simpa [contains, get?, hk] using h
        simp [insert, hk, ho, ih hrest]

namespace StepResult

theorem mapMetadata_of_none {result : StepResult} (h : result.metadata? = none)
    (change : Fields → Fields) : result.mapMetadata change = result := by
  unfold mapMetadata
  rw [h]

theorem mapMetadata_of_some {result : StepResult} {metadata : Fields}
    (h : result.metadata? = some metadata) (change : Fields → Fields) :
    result.mapMetadata change = result.setMetadata (change metadata) := by
  unfold mapMetadata
  rw [h]

theorem metadata?_setMetadata (result : StepResult) (metadata : Fields) :
    (result.setMetadata metadata).metadata? = some metadata := by
  unfold metadata? setMetadata
  rw [Fields.get?_insert_self]
  rfl

theorem setMetadata_setMetadata (result : StepResult) (metadata metadata' : Fields) :
    (result.setMetadata metadata).setMetadata metadata' = result.setMetadata metadata' := by
  unfold setMetadata
  rw [Fields.insert_insert]

theorem setMetadata_self {result : StepResult} {metadata : Fields}
    (h : result.metadata? = some metadata) : result.setMetadata metadata = result := by
  unfold setMetadata
  rw [Fields.insert_get? (get?_of_metadata h)]

theorem mapMetadata_mapMetadata (result : StepResult) (first second : Fields → Fields) :
    (result.mapMetadata first).mapMetadata second =
      result.mapMetadata fun metadata => second (first metadata) := by
  cases h : result.metadata? with
  | none => rw [mapMetadata_of_none h, mapMetadata_of_none h, mapMetadata_of_none h]
  | some metadata =>
    rw [mapMetadata_of_some h, mapMetadata_of_some (result.metadata?_setMetadata _),
      mapMetadata_of_some h, setMetadata_setMetadata]

inductive Related (R : Fields → Fields → Prop) : StepResult → StepResult → Prop
  | refl (result : StepResult) : Related R result result
  | metadata {result : StepResult} {metadata metadata' : Fields} :
      result.metadata? = some metadata → R metadata metadata' →
      Related R result (result.setMetadata metadata')

namespace Related

variable {R : Fields → Fields → Prop} {first second : StepResult}

theorem mono {S : Fields → Fields → Prop} (h : ∀ metadata metadata', R metadata metadata' →
    S metadata metadata') (hrel : Related R first second) : Related S first second := by
  cases hrel with
  | refl => exact .refl _
  | metadata hmetadata hR => exact .metadata hmetadata (h _ _ hR)

theorem eq (h : Related Eq first second) : first = second := by
  cases h with
  | refl => rfl
  | metadata hmetadata hsame =>
    rw [← hsame, setMetadata_self hmetadata]

theorem get? (h : Related R first second) {key : String} (hkey : key ≠ "metadata") :
    first.fields.get? key = second.fields.get? key := by
  cases h with
  | refl => rfl
  | metadata => exact (Fields.get?_insert_of_ne hkey.symm _ _).symm

theorem content (h : Related R first second) : first.content = second.content :=
  content_congr (h.get? (by decide))

theorem getD (h : Related R first second) (hrefl : ∀ metadata, R metadata metadata) :
    R (first.metadata?.getD []) (second.metadata?.getD []) := by
  cases h with
  | refl => exact hrefl _
  | metadata hmetadata hR =>
    rw [hmetadata, metadata?_setMetadata]
    exact hR

theorem setMetadata {metadata metadata' : Fields} (h : R metadata metadata')
    (result : StepResult) :
    Related R (result.setMetadata metadata) (result.setMetadata metadata') := by
  rw [← result.setMetadata_setMetadata metadata metadata']
  exact .metadata (metadata?_setMetadata _ _) h

theorem mapMetadata (h : Related R first second) (hrefl : ∀ metadata, R metadata metadata)
    {change change' : Fields → Fields} (hchange : ∀ metadata metadata', R metadata metadata' →
      R (change metadata) (change' metadata')) :
    Related R (first.mapMetadata change) (second.mapMetadata change') := by
  cases h with
  | refl =>
    cases hmetadata : first.metadata? with
    | none =>
      rw [mapMetadata_of_none hmetadata, mapMetadata_of_none hmetadata]
      exact .refl _
    | some metadata =>
      rw [mapMetadata_of_some hmetadata, mapMetadata_of_some hmetadata]
      exact setMetadata (hchange _ _ (hrefl metadata)) first
  | metadata hmetadata hR =>
    rw [mapMetadata_of_some hmetadata, mapMetadata_of_some (metadata?_setMetadata _ _),
      setMetadata_setMetadata]
    exact setMetadata (hchange _ _ hR) first

theorem setContent (h : Related R first second) (value : Value) :
    Related R (first.setContent value) (second.setContent value) := by
  cases h with
  | refl => exact .refl _
  | @metadata metadata metadata' hmetadata hR =>
    have hswap : (first.setMetadata metadata').setContent value =
        (first.setContent value).setMetadata metadata' := by
      have hin := Fields.contains_of_get? (get?_of_metadata hmetadata)
      unfold StepResult.setContent StepResult.setMetadata
      rw [Fields.insert_comm (by decide) hin]
    rw [hswap]
    exact .metadata ((first.metadata?_setContent value).trans hmetadata) hR

theorem setList (h : Related R first second) (list : String) (items : List Value) :
    Related R (Interpreter.setList first list items) (Interpreter.setList second list items) := by
  unfold Interpreter.setList
  rw [← h.content]
  split
  · exact h.setContent _
  · exact h

end Related

end StepResult

structure Settings.Respect (settings settings' : Settings) (R : Fields → Fields → Prop) :
    Prop where
  required : settings.requiredFields = settings'.requiredFields
  refl : ∀ metadata, R metadata metadata
  stamp : ∀ {metadata metadata'}, R metadata metadata' → updatedAt? metadata = updatedAt? metadata'
  dated : ∀ {metadata metadata'}, R metadata metadata' → ∀ text,
    R (metadata.insert "updated_at" (.string text)) (metadata'.insert "updated_at" (.string text))
  added : ∀ {metadata metadata' child child'}, R metadata metadata' → R child child' →
    R (settings.effortCounters.foldl (addCounter child) metadata)
      (settings'.effortCounters.foldl (addCounter child') metadata')
  zeroed : ∀ {metadata metadata'}, R metadata metadata' →
    R (settings.pageCountFields.foldl StepResult.zeroCounter metadata)
      (settings'.pageCountFields.foldl StepResult.zeroCounter metadata')

theorem Settings.respect_eq (settings : Settings) : settings.Respect settings Eq where
  required := rfl
  refl _ := rfl
  stamp h := by rw [h]
  dated h _ := by rw [h]
  added h hchild := by rw [h, hchild]
  zeroed h := by rw [h]

namespace Settings.Respect

variable {settings settings' : Settings} {R : Fields → Fields → Prop}
  {first second child child' source : StepResult}

theorem newest_eq (h : settings.Respect settings' R) (hrel : first.Related R second) :
    newest first = newest second := by
  have hstamp : first.metadata?.bind updatedAt? = second.metadata?.bind updatedAt? := by
    cases hrel with
    | refl => rfl
    | metadata hmetadata hR =>
      rw [hmetadata, StepResult.metadata?_setMetadata]
      exact h.stamp hR
  funext metadata
  unfold newest
  rw [hstamp]

theorem newest (h : settings.Respect settings' R) (hrel : first.Related R second) :
    (first.mapMetadata (newest source)).Related R (second.mapMetadata (newest source)) := by
  refine hrel.mapMetadata h.refl fun metadata metadata' hR => ?_
  unfold PlanFold.newest
  rw [← h.stamp hR]
  split
  · split
    · exact h.dated hR _
    · exact hR
  · exact hR

theorem addEffort (h : settings.Respect settings' R) (hrel : first.Related R second)
    (hchild : child.Related R child') :
    (first.addEffort child settings.effortCounters).Related R
      (second.addEffort child' settings'.effortCounters) :=
  hrel.mapMetadata h.refl fun _ _ hR => h.added hR (hchild.getD h.refl)

theorem zeroPageCounts (h : settings.Respect settings' R) (hrel : first.Related R second) :
    (first.zeroPageCounts settings.pageCountFields).Related R
      (second.zeroPageCounts settings'.pageCountFields) :=
  hrel.mapMetadata h.refl fun _ _ hR => h.zeroed hR

/-- Of wrapped targets with one content, what one takes in the other takes in too, and
what does not fit one does not fit the other. -/
theorem foldInto_outcome (h : settings.Respect settings' R) {attach : Attach}
    (hmode : attach.mode ≠ .detached) {target target' : Fields}
    (htarget : StepResult.Related R ⟨target⟩ ⟨target'⟩)
    (hcontent : target.contains "content" = true) (source : StepResult) :
    SameOutcome (fun out out' => StepResult.Related R ⟨out⟩ ⟨out'⟩)
      (attach.foldInto (keepNewest target source) source)
      (attach.foldInto (keepNewest target' source) source) := by
  have hget : target.get? "content" = target'.get? "content" := htarget.get? (by decide)
  have hcontent' : target'.contains "content" = true :=
    (Fields.contains_congr hget.symm).trans hcontent
  cases hpayload : attach.payload source with
  | error e =>
    have hfailed : ∀ target, attach.foldInto target source = .error e := by
      intro target
      unfold Attach.foldInto
      rw [hpayload]
      rfl
    rw [hfailed, hfailed]
    exact .error e
  | ok payload =>
    have hland : ∀ target, attach.foldInto target source = attach.land target payload := by
      intro target
      unfold Attach.foldInto
      rw [hpayload]
      rfl
    cases hfold : attach.foldInto (keepNewest target source) source with
    | ok out =>
      obtain ⟨htakes, hfits, hout⟩ :=
        (attach.foldInto_wrapped_iff hmode hcontent source).mp hfold
      have hfold' := (attach.foldInto_wrapped_iff hmode hcontent' source).mpr
        ⟨htakes, (fits_congr hget _ _).mp hfits, rfl⟩
      rw [hfold']
      refine .ok ?_
      rw [← hout, slotOf_congr hget hcontent]
      exact (h.newest htarget).setContent _
    | error e =>
      have hcheck : attach.mode.check (keepNewest target source) payload =
          attach.mode.check (keepNewest target' source) payload := by
        apply attach.mode.check_congr
        rw [get?_content_keepNewest, get?_content_keepNewest, hget]
      rw [hland, attach.land_error_iff, hcheck, ← attach.land_error_iff, ← hland] at hfold
      rw [hfold]
      exact .error e

end Settings.Respect

end PlanFold
