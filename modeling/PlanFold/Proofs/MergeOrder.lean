import Mathlib.Data.List.Lattice
import PlanFold.Proofs.FoldingOrder
import PlanFold.Proofs.NullPayload

/-!
# The order of merges

Two payloads without a key in common are merged into a target in either order,
and the outcome differs in the order of keys at most. What a payload lands in
is settled by the target as it is found: a bare target into which a field
`content` is merged receives every later payload in that content. So neither
payload may have this key where the target is bare.

Folding a child in also keeps the later timestamp, in metadata which a payload
may write over. With two children the timestamp denotes the same instant in
either order, unless a payload brings metadata to a bare target and the other
child has a later timestamp.
-/

set_option autoImplicit false

namespace PlanFold

namespace Fields

def Reordered (fields fields' : Fields) : Prop :=
  fields.Perm fields' ∧ ∀ key, fields.get? key = fields'.get? key

theorem Reordered.refl (fields : Fields) : Reordered fields fields := ⟨.refl _, fun _ => rfl⟩

theorem Reordered.trans {fields fields' fields'' : Fields} (h : Reordered fields fields')
    (h' : Reordered fields' fields'') : Reordered fields fields'' :=
  ⟨h.1.trans h'.1, fun key => (h.2 key).trans (h'.2 key)⟩

theorem exists_rest {name : String} {held : Value} {fields : Fields}
    (h : fields.get? name = some held) : ∃ rest : Fields, fields.Perm ((name, held) :: rest) ∧
      ∀ value, (fields.insert name value).Perm ((name, value) :: rest) := by
  induction fields with
  | nil => cases h
  | cons field fields ih =>
    obtain ⟨key, old⟩ := field
    by_cases hk : key = name
    · subst hk
      obtain rfl : old = held := by simpa [get?] using h
      exact ⟨fields, .refl _, fun value => by simp [insert]⟩
    · obtain ⟨rest, hfields, hinsert⟩ := ih (by simpa [get?, hk] using h)
      refine ⟨(key, old) :: rest, (hfields.cons _).trans (.swap _ _ _), fun value => ?_⟩
      rw [insert, if_neg hk]
      exact ((hinsert value).cons _).trans (.swap _ _ _)

theorem Reordered.insert {fields fields' : Fields} (h : Reordered fields fields')
    (name : String) (value : Value) :
    Reordered (fields.insert name value) (fields'.insert name value) := by
  refine ⟨?_, fun key => by rw [get?_insert, get?_insert, h.2 key]⟩
  cases hget : fields.get? name with
  | none =>
    have hget' := (h.2 name).symm.trans hget
    rw [insert_of_notMem ((get?_eq_none_iff _ _).mp hget),
      insert_of_notMem ((get?_eq_none_iff _ _).mp hget')]
    exact h.1.append_right _
  | some held =>
    obtain ⟨rest, hfields, hinsert⟩ := exists_rest hget
    obtain ⟨rest', hfields', hinsert'⟩ := exists_rest ((h.2 name).symm.trans hget)
    have hrest : rest.Perm rest' := ((hfields.symm.trans h.1).trans hfields').cons_inv
    exact ((hinsert value).trans (hrest.cons _)).trans (hinsert' value).symm

theorem Reordered.merge {fields fields' : Fields} (h : Reordered fields fields')
    (others : Fields) : Reordered (fields.merge others) (fields'.merge others) := by
  induction others generalizing fields fields' with
  | nil => exact h
  | cons field others ih => exact ih (h.insert field.1 field.2)

theorem insert_merge_swap {name : String} {others : Fields} (h : name ∉ others.keys)
    (fields : Fields) (value : Value) : Reordered ((fields.insert name value).merge others)
      ((fields.merge others).insert name value) := by
  induction others generalizing fields with
  | nil => exact .refl _
  | cons field others ih =>
    obtain ⟨hne, hothers⟩ : name ≠ field.1 ∧ name ∉ keys others := by simpa [keys] using h
    have hswap : Reordered ((fields.insert name value).insert field.1 field.2)
        ((fields.insert field.1 field.2).insert name value) :=
      ⟨insert_perm hne _ _ _, get?_insert_comm hne _ _ _⟩
    exact (hswap.merge others).trans (ih hothers _)

theorem merge_swap {first second : Fields} (h : first.keys.Disjoint second.keys)
    (fields : Fields) :
    Reordered ((fields.merge first).merge second) ((fields.merge second).merge first) := by
  induction first generalizing fields with
  | nil => exact .refl _
  | cons field first ih =>
    obtain ⟨hname, hfirst⟩ : field.1 ∉ second.keys ∧ (keys first).Disjoint second.keys := by
      simpa [keys] using h
    exact (ih hfirst _).trans ((insert_merge_swap hname fields field.2).merge first)

theorem get?_merge_of_notMem {key : String} {others : Fields} (h : key ∉ others.keys)
    (fields : Fields) : (fields.merge others).get? key = fields.get? key := by
  induction others generalizing fields with
  | nil => rfl
  | cons field others ih =>
    obtain ⟨hne, hothers⟩ : key ≠ field.1 ∧ key ∉ keys others := by simpa [keys] using h
    rw [merge_cons, ih hothers, get?_insert_of_ne hne.symm]

theorem get?_merge_congr {key : String} {fields fields' : Fields} (others : Fields)
    (h : key ∈ others.keys ∨ fields.get? key = fields'.get? key) :
    (fields.merge others).get? key = (fields'.merge others).get? key := by
  induction others generalizing fields fields' with
  | nil =>
    rcases h with hmem | h
    · cases hmem
    · exact h
  | cons field others ih =>
    rw [merge_cons, merge_cons]
    refine ih ?_
    rw [get?_insert, get?_insert]
    by_cases hkey : field.1 = key
    · exact .inr (by rw [if_pos hkey, if_pos hkey])
    · rw [if_neg hkey, if_neg hkey]
      rcases h with hmem | h
      · exact .inl ((List.mem_cons.mp hmem).resolve_left (Ne.symm hkey))
      · exact .inr h

theorem keys_merge_congr {fields fields' : Fields} (h : fields.keys = fields'.keys)
    (others : Fields) : (fields.merge others).keys = (fields'.merge others).keys := by
  induction others generalizing fields fields' with
  | nil => exact h
  | cons field others ih =>
    refine ih ?_
    rw [keys_insert, keys_insert, h]

end Fields

inductive Value.Redated (kept : String → Prop) : Value → Value → Prop
  | refl (value : Value) : Redated kept value value
  | mapping {metadata metadata' : Fields} :
      (∀ key, kept key → metadata.get? key = metadata'.get? key) →
      Option.Rel Timestamp.SameInstant (stamp? metadata) (stamp? metadata') →
      Redated kept (.mapping metadata) (.mapping metadata')

theorem Value.Redated.sameInstant {kept : String → Prop} {metadata metadata' : Fields}
    (h : Redated kept (.mapping metadata) (.mapping metadata')) :
    Option.Rel Timestamp.SameInstant (stamp? metadata) (stamp? metadata') := by
  cases h with
  | refl =>
    cases stamp? metadata with
    | none => exact .none
    | some t => exact .some (.refl t)
  | mapping _ hinstant => exact hinstant

/-- Two targets are equal but for the order of keys, in the target itself and in its
content, and their metadata is related. -/
structure SameTarget (related : Value → Value → Prop) (first second : Fields) : Prop where
  keys : first.keys.Perm second.keys
  content : Option.Rel Value.Reordered (first.get? "content") (second.get? "content")
  metadata : Option.Rel related (first.get? "metadata") (second.get? "metadata")
  others : ∀ key, key ≠ "content" → key ≠ "metadata" → first.get? key = second.get? key

def merged (target fields : Fields) : Fields :=
  fillSlot target ((slotOf target).merge fields)

section merged

variable {target fields p q : Fields}

theorem merged_wrapped (h : target.contains "content" = true) (fields : Fields) :
    merged target fields = target.insert "content" (.mapping ((slotOf target).merge fields)) := by
  rw [merged, fillSlot, if_pos h]

theorem merged_bare (h : target.contains "content" = false) (fields : Fields) :
    merged target fields = target.merge fields := by
  rw [merged, fillSlot, if_neg (Bool.eq_false_iff.mp h), slotOf_bare h]

theorem Attach.land_merge_iff {attach : Attach} (hmode : attach.mode = .merge) {payload : Value}
    {out : Fields} : attach.land target payload = .ok out ↔
      HasSlot target ∧ payload.isNullOrMapping = true ∧ merged target payload.entries = out := by
  have hlanded : attach.landed target payload = merged target payload.entries := by
    simp only [landed, hmode, merged]
  rw [attach.land_ok_iff, hlanded, hmode, AttachMode.Fits, and_assoc]

theorem slotOf_written (target slot : Fields) :
    slotOf (target.insert "content" (.mapping slot)) = slot :=
  slotOf_mapping (Fields.get?_insert_self _ _ _)

theorem merged_merged_wrapped (h : target.contains "content" = true) (p q : Fields) :
    merged (merged target p) q =
      target.insert "content" (.mapping (((slotOf target).merge p).merge q)) := by
  rw [merged_wrapped h, merged_wrapped (Fields.contains_of_get? (Fields.get?_insert_self _ _ _)),
    slotOf_written, Fields.insert_insert]

theorem contains_merge_of_notMem (h : target.contains "content" = false)
    (hp : "content" ∉ p.keys) : (target.merge p).contains "content" = false := by
  rw [Fields.contains_congr (Fields.get?_merge_of_notMem hp target), h]

theorem merged_merged_bare (h : target.contains "content" = false) (hp : "content" ∉ p.keys)
    (q : Fields) : merged (merged target p) q = (target.merge p).merge q := by
  rw [merged_bare h, merged_bare (contains_merge_of_notMem h hp)]

theorem hasSlot_merged (h : target.contains "content" = true ∨ "content" ∉ p.keys) :
    HasSlot (merged target p) := by
  intro content hcontent
  cases hwrapped : target.contains "content" with
  | true =>
    rw [merged_wrapped hwrapped, Fields.get?_insert_self] at hcontent
    rw [← Option.some.inj hcontent]
    rfl
  | false =>
    have hbare := contains_merge_of_notMem hwrapped (h.resolve_left (by simp [hwrapped]))
    rw [merged_bare hwrapped] at hcontent
    rw [Fields.contains_of_get? hcontent] at hbare
    cases hbare

theorem rel_of_eq {related : Value → Value → Prop} (hrelated : ∀ value, related value value)
    {value value' : Option Value} (h : value = value') : Option.Rel related value value' := by
  subst h
  cases value with
  | none => exact .none
  | some value => exact .some (hrelated value)

def SlotSettled (target p q : Fields) : Prop :=
  target.contains "content" = true ∨ "content" ∉ p.keys ∧ "content" ∉ q.keys

theorem SlotSettled.symm (h : SlotSettled target p q) : SlotSettled target q p :=
  h.imp_right And.symm

theorem SlotSettled.hasSlot (h : SlotSettled target p q) : HasSlot (merged target p) :=
  hasSlot_merged (h.imp_right And.left)

/-- Payloads without a key in common are merged in either order. -/
theorem merged_swap (hdisjoint : p.keys.Disjoint q.keys) (h : SlotSettled target p q) :
    SameTarget Eq (merged (merged target p) q) (merged (merged target q) p) := by
  cases hwrapped : target.contains "content" with
  | true =>
    have hslots := Fields.merge_swap hdisjoint (slotOf target)
    rw [merged_merged_wrapped hwrapped, merged_merged_wrapped hwrapped]
    exact {
      keys := by rw [Fields.keys_insert, Fields.keys_insert]
      content := by
        rw [Fields.get?_insert_self, Fields.get?_insert_self]
        exact .some (.mapping hslots.1 hslots.2)
      metadata := rel_of_eq (fun _ => rfl) (by
        rw [Fields.get?_insert_of_ne (by decide), Fields.get?_insert_of_ne (by decide)])
      others := fun key hkey _ => by
        rw [Fields.get?_insert_of_ne hkey.symm, Fields.get?_insert_of_ne hkey.symm] }
  | false =>
    obtain ⟨hp, hq⟩ := h.resolve_left (by simp [hwrapped])
    have hfields := Fields.merge_swap hdisjoint target
    rw [merged_merged_bare hwrapped hp, merged_merged_bare hwrapped hq]
    exact {
      keys := hfields.1.map Prod.fst
      content := rel_of_eq Value.Reordered.refl (hfields.2 "content")
      metadata := rel_of_eq (fun _ => rfl) (hfields.2 "metadata")
      others := fun key _ _ => hfields.2 key }

end merged

def Value.mapFields (change : Fields → Fields) : Value → Value
  | .mapping fields => .mapping (change fields)
  | value => value

theorem StepResult.get?_metadata_mapMetadata (result : StepResult) (change : Fields → Fields) :
    (result.mapMetadata change).fields.get? "metadata" =
      (result.fields.get? "metadata").map (Value.mapFields change) := by
  have hmetadata : result.metadata? = (result.fields.get? "metadata").bind Value.fields? := rfl
  unfold mapMetadata setMetadata
  rw [hmetadata]
  cases hget : result.fields.get? "metadata" with
  | none => exact hget
  | some held =>
    cases held with
    | mapping metadata => exact Fields.get?_insert_self _ _ _
    | _ => exact hget

def StepResult.refilled (base : StepResult) (counters : List String) (child : StepResult)
    (slot : Fields) : StepResult :=
  (base.mapMetadata (absorbed counters child)).setContent (.mapping slot)

def Steady (counters : List String) (base a b : StepResult) (key : String) : Prop :=
  (key ∉ counters ∧ key ≠ "updated_at") ∨
    Counts (base.count? key) ∧ Counts (a.count? key) ∧ Counts (b.count? key)

section refilled

variable {counters : List String} {base a b : StepResult} {key : String}
  {slot slot' final final' : Fields}

theorem get?_absorbed_of_other (hcounter : key ∉ counters) (hkey : key ≠ "updated_at")
    (child : StepResult) (metadata : Fields) :
    (absorbed counters child metadata).get? key = metadata.get? key := by
  unfold absorbed
  rw [get?_newest hkey, get?_foldl_of_notMem (get?_addCounter_of_ne _) hcounter]

theorem get?_absorbed_steady {metadata : Fields} (hmetadata : base.metadata? = some metadata)
    (h : Steady counters base a b key) :
    (absorbed counters b (absorbed counters a metadata)).get? key =
      (absorbed counters a (absorbed counters b metadata)).get? key := by
  rcases h with ⟨hcounter, hkey⟩ | ⟨hbase, ha, hb⟩
  · simp only [get?_absorbed_of_other hcounter hkey]
  · unfold StepResult.count? at hbase
    rw [hmetadata] at hbase
    exact get?_absorbed_swap hbase ha hb

theorem keys_refilled (counters : List String) (base child : StepResult) (slot : Fields) :
    (base.refilled counters child slot).fields.keys =
      (base.setContent .null).fields.keys := by
  unfold StepResult.refilled StepResult.setContent
  simp only [Fields.keys_insert, StepResult.keys_mapMetadata]

theorem get?_refilled_content (counters : List String) (base child : StepResult)
    (slot : Fields) :
    (base.refilled counters child slot).fields.get? "content" = some (.mapping slot) :=
  Fields.get?_insert_self _ _ _

theorem get?_refilled (hcontent : key ≠ "content") (hmetadata : key ≠ "metadata")
    (counters : List String) (base child : StepResult) (slot : Fields) :
    (base.refilled counters child slot).fields.get? key = base.fields.get? key := by
  unfold StepResult.refilled StepResult.setContent
  rw [Fields.get?_insert_of_ne hcontent.symm, StepResult.get?_mapMetadata _ _ hmetadata]

theorem get?_refilled_metadata (counters : List String) (base child : StepResult)
    (slot : Fields) : (base.refilled counters child slot).fields.get? "metadata" =
      (base.fields.get? "metadata").map (Value.mapFields (absorbed counters child)) := by
  unfold StepResult.refilled StepResult.setContent
  rw [Fields.get?_insert_of_ne (by decide), StepResult.get?_metadata_mapMetadata]

/-- Two children change what a result holds for metadata, in one order and in the other. -/
theorem redated_swap (base : StepResult) {kept : String → Prop}
    (hkept : ∀ key, kept key → Steady counters base a b key) :
    Option.Rel (Value.Redated kept)
      (((base.fields.get? "metadata").map (Value.mapFields (absorbed counters a))).map
        (Value.mapFields (absorbed counters b)))
      (((base.fields.get? "metadata").map (Value.mapFields (absorbed counters b))).map
        (Value.mapFields (absorbed counters a))) := by
  cases hget : base.fields.get? "metadata" with
  | none => exact .none
  | some held =>
    cases held with
    | mapping metadata =>
      have hmetadata : base.metadata? = some metadata := by
        unfold StepResult.metadata?
        rw [hget]
        rfl
      exact .some (.mapping (fun key hkey => get?_absorbed_steady hmetadata (hkept key hkey))
        (stamp?_absorbed_swap counters a b metadata))
    | _ => exact .some (.refl _)

theorem refilled_swap {kept : String → Prop}
    (hkept : ∀ key, kept key → Steady counters base a b key)
    (hslots : Fields.Reordered final final') :
    SameTarget (Value.Redated kept)
      ((base.refilled counters a slot).refilled counters b final).fields
      ((base.refilled counters b slot').refilled counters a final').fields where
  keys := by
    simp only [keys_refilled, StepResult.setContent, Fields.keys_insert, keys_refilled]
    exact .refl _
  content := by
    rw [get?_refilled_content, get?_refilled_content]
    exact .some (.mapping hslots.1 hslots.2)
  metadata := by
    simp only [get?_refilled_metadata]
    exact redated_swap base hkept
  others key hcontent hmetadata := by
    simp only [get?_refilled hcontent hmetadata]

theorem merged_addEffort (base : StepResult) (h : base.fields.contains "content" = true)
    (counters : List String) (child : StepResult) (fields : Fields) :
    merged (keepNewest (base.addEffort child counters).fields child) fields =
      (base.refilled counters child ((slotOf base.fields).merge fields)).fields := by
  have htaken : (⟨keepNewest (base.addEffort child counters).fields child⟩ : StepResult) =
      base.mapMetadata (absorbed counters child) := by
    rw [keepNewest_eq]
    exact base.mapMetadata_mapMetadata _ _
  have hfields : keepNewest (base.addEffort child counters).fields child =
      (base.mapMetadata (absorbed counters child)).fields := congrArg StepResult.fields htaken
  have hget : (base.mapMetadata (absorbed counters child)).fields.get? "content" =
      base.fields.get? "content" := base.get?_mapMetadata _ (by decide)
  have hwrapped := (Fields.contains_congr hget).trans h
  rw [hfields, merged_wrapped hwrapped, slotOf_congr hget hwrapped]
  rfl

theorem slotOf_refilled (counters : List String) (base child : StepResult) (slot : Fields) :
    slotOf (base.refilled counters child slot).fields = slot := slotOf_written _ _

theorem contains_refilled (counters : List String) (base child : StepResult) (slot : Fields) :
    (base.refilled counters child slot).fields.contains "content" = true :=
  Fields.contains_of_get? (get?_refilled_content _ _ _ _)

end refilled

def mergedChild (target : Fields) (child : StepResult) (payload : Fields) : Fields :=
  merged (keepNewest target child) payload

/-- A payload that is merged into a bare target apart from another child: it brings no
content for the other to land in, and no metadata that the other would date anew. -/
def Apart (payload : Fields) (other : StepResult) : Prop :=
  "content" ∉ payload.keys ∧ ("metadata" ∈ payload.keys →
    ∀ target : Fields, keepNewest (target.merge payload) other = target.merge payload)

section mergedChild

variable {target p q : Fields} {a b : StepResult}

theorem keys_keepNewest (target : Fields) (source : StepResult) :
    (keepNewest target source).keys = target.keys := by
  have hkeys := StepResult.keys_mapMetadata ⟨target⟩ (newest source)
  rwa [← keepNewest_eq] at hkeys

theorem contains_keepNewest (target : Fields) (source : StepResult) :
    (keepNewest target source).contains "content" = target.contains "content" :=
  Fields.contains_congr (get?_content_keepNewest target source)

theorem mergedChild_wrapped (h : target.contains "content" = true) (child : StepResult)
    (payload : Fields) : mergedChild target child payload =
      (StepResult.refilled ⟨target⟩ [] child ((slotOf target).merge payload)).fields := by
  have hsame : (⟨target⟩ : StepResult).addEffort child [] = ⟨target⟩ :=
    StepResult.mapMetadata_self _ fun _ _ => rfl
  have hmerged := merged_addEffort ⟨target⟩ h [] child payload
  rwa [hsame] at hmerged

theorem mergedChild_bare (h : target.contains "content" = false) (child : StepResult)
    (payload : Fields) :
    mergedChild target child payload = (keepNewest target child).merge payload :=
  merged_bare ((contains_keepNewest target child).trans h) payload

theorem mergedChild_mergedChild_bare (h : target.contains "content" = false)
    (hp : "content" ∉ p.keys) (a b : StepResult) (q : Fields) :
    mergedChild (mergedChild target a p) b q =
      (keepNewest ((keepNewest target a).merge p) b).merge q := by
  rw [mergedChild_bare h, mergedChild_bare]
  exact contains_merge_of_notMem ((contains_keepNewest target a).trans h) hp

theorem keys_merge_keepNewest (target : Fields) (a b : StepResult) (p q : Fields) :
    ((keepNewest ((keepNewest target a).merge p) b).merge q).keys =
      ((target.merge p).merge q).keys :=
  Fields.keys_merge_congr ((keys_keepNewest _ _).trans
    (Fields.keys_merge_congr (keys_keepNewest _ _) p)) q

theorem get?_merge_keepNewest {key : String} (hkey : key ≠ "metadata") (target : Fields)
    (a b : StepResult) (p q : Fields) :
    ((keepNewest ((keepNewest target a).merge p) b).merge q).get? key =
      ((target.merge p).merge q).get? key :=
  Fields.get?_merge_congr q (.inr ((get?_keepNewest _ _ hkey).trans
    (Fields.get?_merge_congr p (.inr (get?_keepNewest _ _ hkey)))))

theorem get?_metadata_of_mem (hdisjoint : p.keys.Disjoint q.keys) (hmem : "metadata" ∈ p.keys)
    (hp : Apart p b) :
    ((keepNewest ((keepNewest target a).merge p) b).merge q).get? "metadata" =
      ((keepNewest ((keepNewest target b).merge q) a).merge p).get? "metadata" := by
  rw [hp.2 hmem, Fields.get?_merge_of_notMem (hdisjoint hmem)]
  exact Fields.get?_merge_congr p (.inl hmem)

theorem redated_of_notMem (hp : "metadata" ∉ p.keys) (hq : "metadata" ∉ q.keys) :
    Option.Rel (Value.Redated (· ≠ "updated_at"))
      (((keepNewest ((keepNewest target a).merge p) b).merge q).get? "metadata")
      (((keepNewest ((keepNewest target b).merge q) a).merge p).get? "metadata") := by
  have hget : ∀ (fields : Fields) (source : StepResult),
      (keepNewest fields source).get? "metadata" =
        (fields.get? "metadata").map (Value.mapFields (absorbed [] source)) := by
    intro fields source
    have hmetadata := StepResult.get?_metadata_mapMetadata ⟨fields⟩ (newest source)
    rwa [← keepNewest_eq] at hmetadata
  rw [Fields.get?_merge_of_notMem hq, hget, Fields.get?_merge_of_notMem hp, hget,
    Fields.get?_merge_of_notMem hp, hget, Fields.get?_merge_of_notMem hq, hget]
  exact redated_swap ⟨target⟩ fun key hkey => .inl ⟨List.not_mem_nil, hkey⟩

/-- Two children are merged into a target in either order: where the target has a content,
or where each payload stays apart from the other child. -/
theorem mergedChild_swap (hdisjoint : p.keys.Disjoint q.keys)
    (h : target.contains "content" = true ∨ Apart p b ∧ Apart q a) :
    SameTarget (Value.Redated (· ≠ "updated_at")) (mergedChild (mergedChild target a p) b q)
      (mergedChild (mergedChild target b q) a p) := by
  cases hwrapped : target.contains "content" with
  | true =>
    simp only [mergedChild_wrapped hwrapped, mergedChild_wrapped (contains_refilled _ _ _ _),
      slotOf_refilled]
    exact refilled_swap (fun key hkey => .inl ⟨List.not_mem_nil, hkey⟩)
      (Fields.merge_swap hdisjoint _)
  | false =>
    obtain ⟨hp, hq⟩ := h.resolve_left (by simp [hwrapped])
    have hfields := Fields.merge_swap hdisjoint target
    rw [mergedChild_mergedChild_bare hwrapped hp.1, mergedChild_mergedChild_bare hwrapped hq.1]
    exact {
      keys := by
        rw [keys_merge_keepNewest, keys_merge_keepNewest]
        exact hfields.1.map Prod.fst
      content := by
        rw [get?_merge_keepNewest (by decide), get?_merge_keepNewest (by decide)]
        exact rel_of_eq Value.Reordered.refl (hfields.2 _)
      metadata := by
        by_cases hmem : "metadata" ∈ p.keys
        · exact rel_of_eq .refl (get?_metadata_of_mem hdisjoint hmem hp)
        · by_cases hmem' : "metadata" ∈ q.keys
          · exact rel_of_eq .refl (get?_metadata_of_mem hdisjoint.symm hmem' hq).symm
          · exact redated_of_notMem hmem hmem'
      others := fun key _ hkey => by
        rw [get?_merge_keepNewest hkey, get?_merge_keepNewest hkey, hfields.2] }

end mergedChild

end PlanFold
