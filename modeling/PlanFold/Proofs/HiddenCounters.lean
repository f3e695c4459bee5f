import PlanFold.Proofs.RelatedResults

/-!
# Results apart from some counters

Two results are alike when they are the same once some counters are taken out
of their metadata, the order of all other keys included. Everything a node does
to its result respects likeness, because adding to a counter and zeroing it
changes no other one, and the timestamp is no counter.
-/

set_option autoImplicit false

namespace PlanFold

namespace Fields

def hide (names : List String) (fields : Fields) : Fields :=
  fields.filter fun field => field.1 ∉ names

variable {names : List String}

theorem get?_hide (fields : Fields) {key : String} (h : key ∉ names) :
    (fields.hide names).get? key = fields.get? key := by
  induction fields with
  | nil => rfl
  | cons field rest ih =>
    obtain ⟨name, value⟩ := field
    unfold hide at ih ⊢
    by_cases hk : name = key
    · subst hk
      simp [get?, h]
    · by_cases hn : name ∈ names
      · simpa [get?, hk, hn] using ih
      · simpa [get?, hk, hn] using ih

theorem hide_insert (name : String) (value : Value) (fields : Fields) :
    (fields.insert name value).hide names =
      if name ∈ names then fields.hide names else (fields.hide names).insert name value := by
  induction fields with
  | nil =>
    unfold hide
    by_cases hn : name ∈ names <;> simp [insert, hn]
  | cons field rest ih =>
    obtain ⟨key, old⟩ := field
    unfold hide at ih ⊢
    by_cases hk : key = name
    · subst hk
      by_cases hn : key ∈ names <;> simp [insert, hn]
    · by_cases hn : name ∈ names
      · by_cases hkn : key ∈ names <;> simpa [insert, hk, hn, hkn] using ih
      · by_cases hkn : key ∈ names <;> simpa [insert, hk, hn, hkn] using ih

theorem hide_foldl {change change' : Fields → String → Fields}
    (h : ∀ fields counter, (change fields counter).hide names =
      if counter ∈ names then fields.hide names else change' (fields.hide names) counter)
    (counters : List String) (fields : Fields) :
    (counters.foldl change fields).hide names =
      (counters.filter (· ∉ names)).foldl change' (fields.hide names) := by
  induction counters generalizing fields with
  | nil => rfl
  | cons counter rest ih =>
    rw [List.foldl_cons, ih, h]
    by_cases hc : counter ∈ names <;> simp [hc]

end Fields

section hide

variable {names : List String}

theorem hide_addCounter (child fields : Fields) (counter : String) :
    (addCounter child fields counter).hide names =
      if counter ∈ names then fields.hide names
      else addCounter (child.hide names) (fields.hide names) counter := by
  unfold addCounter
  by_cases hc : counter ∈ names
  · rw [if_pos hc]
    split
    · rfl
    · rw [Fields.hide_insert, if_pos hc]
  · rw [if_neg hc, Fields.get?_hide fields hc, Fields.get?_hide child hc]
    cases fields.get? counter with
    | none =>
      cases child.get? counter with
      | none => rfl
      | some theirs => simp [Fields.hide_insert, hc]
    | some mine => simp [Fields.hide_insert, hc]

theorem hide_zeroCounter (fields : Fields) (counter : String) :
    (StepResult.zeroCounter fields counter).hide names =
      if counter ∈ names then fields.hide names
      else StepResult.zeroCounter (fields.hide names) counter := by
  unfold StepResult.zeroCounter Fields.contains
  by_cases hc : counter ∈ names
  · rw [if_pos hc]
    split
    · rw [Fields.hide_insert, if_pos hc]
    · rfl
  · rw [if_neg hc, Fields.get?_hide fields hc]
    split
    · rw [Fields.hide_insert, if_neg hc]
    · rfl

end hide

/-- Folding respects what is the same but for counters other than the timestamp. -/
theorem Settings.respect_hide (settings : Settings) {hidden : List String}
    (hstamp : "updated_at" ∉ hidden) :
    settings.Respect settings fun metadata metadata' =>
      metadata.hide hidden = metadata'.hide hidden where
  required := rfl
  refl _ := rfl
  stamp {metadata metadata'} h := by
    unfold updatedAt?
    rw [← Fields.get?_hide metadata hstamp, h, Fields.get?_hide metadata' hstamp]
  dated h text := by rw [Fields.hide_insert, Fields.hide_insert, h]
  added {_ _ child child'} h hchild := by
    rw [Fields.hide_foldl (hide_addCounter child), Fields.hide_foldl (hide_addCounter child'), h,
      hchild]
  zeroed h := by
    rw [Fields.hide_foldl hide_zeroCounter, Fields.hide_foldl hide_zeroCounter, h]

def StepResult.hide (names : List String) (result : StepResult) : StepResult :=
  result.mapMetadata (Fields.hide names)

/-- The results are the same apart from some counters in their metadata. -/
def Alike (counters : List String) (first second : StepResult) : Prop :=
  first.hide counters = second.hide counters

namespace Alike

variable {hidden counters : List String} {first second : StepResult}

theorem refl (result : StepResult) : Alike hidden result result := rfl

theorem symm (h : Alike hidden first second) : Alike hidden second first := Eq.symm h

theorem trans {third : StepResult} (h : Alike hidden first second)
    (h' : Alike hidden second third) : Alike hidden first third := Eq.trans h h'

theorem iff_related : Alike hidden first second ↔
    first.Related (fun metadata metadata' => metadata.hide hidden = metadata'.hide hidden)
      second := by
  constructor
  · intro h
    unfold Alike StepResult.hide at h
    have hmetadata := congrArg StepResult.metadata? h
    rw [StepResult.metadata?_mapMetadata, StepResult.metadata?_mapMetadata] at hmetadata
    cases hfirst : first.metadata? with
    | none =>
      have hsecond : second.metadata? = none := by simpa [hfirst] using hmetadata.symm
      rw [StepResult.mapMetadata_of_none hfirst, StepResult.mapMetadata_of_none hsecond] at h
      rw [h]
      exact .refl second
    | some metadata =>
      rw [hfirst] at hmetadata
      obtain ⟨metadata', hsecond, hsame⟩ := Option.map_eq_some_iff.mp hmetadata.symm
      rw [StepResult.mapMetadata_of_some hfirst, StepResult.mapMetadata_of_some hsecond] at h
      have hwritten : second = first.setMetadata metadata' := by
        rw [← first.setMetadata_setMetadata (metadata.hide hidden), h,
          second.setMetadata_setMetadata, StepResult.setMetadata_self hsecond]
      rw [hwritten]
      exact .metadata hfirst hsame.symm
  · intro h
    unfold Alike StepResult.hide
    cases h with
    | refl => rfl
    | metadata hmetadata hsame =>
      rw [StepResult.mapMetadata_of_some hmetadata,
        StepResult.mapMetadata_of_some (StepResult.metadata?_setMetadata _ _),
        StepResult.setMetadata_setMetadata, hsame]

theorem of_mapMetadata {change : Fields → Fields}
    (h : ∀ metadata, (change metadata).hide hidden = metadata.hide hidden) (result : StepResult) :
    Alike hidden (result.mapMetadata change) result := by
  unfold Alike StepResult.hide
  rw [result.mapMetadata_mapMetadata]
  congr 1
  exact funext h

theorem filter_hidden (h : ∀ counter ∈ counters, counter ∈ hidden) :
    counters.filter (· ∉ hidden) = [] := by
  apply List.filter_eq_nil_iff.mpr
  intro counter hcounter
  simpa using h counter hcounter

theorem of_addEffort (h : ∀ counter ∈ counters, counter ∈ hidden) (result child : StepResult) :
    Alike hidden (result.addEffort child counters) result := by
  refine of_mapMetadata (fun metadata => ?_) result
  rw [Fields.hide_foldl (hide_addCounter _), filter_hidden h]
  rfl

theorem of_descend (h : ∀ counter ∈ counters, counter ∈ hidden) (folding : Interpreter.Folding) :
    Alike hidden (folding.descend counters).result folding.result := by
  unfold Interpreter.Folding.descend
  split
  · refine of_mapMetadata (fun metadata => ?_) folding.result
    rw [Fields.hide_foldl hide_zeroCounter, filter_hidden h]
    rfl
  · exact refl _

theorem of_addEfforts (h : ∀ counter ∈ counters, counter ∈ hidden) (result : StepResult)
    (children : List StepResult) :
    Alike hidden (result.addEfforts children counters) result := by
  induction children generalizing result with
  | nil => exact refl result
  | cons child rest ih => exact (ih _).trans (of_addEffort h result child)

theorem setList (h : Alike hidden first second) (list : String) (items : List Value) :
    Alike hidden (Interpreter.setList first list items) (Interpreter.setList second list items) :=
  iff_related.mpr ((iff_related.mp h).setList list items)

end Alike

end PlanFold
