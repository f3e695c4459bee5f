import Mathlib.Algebra.BigOperators.Group.List.Basic
import PlanFold.Proofs.RelatedResults
import PlanFold.Proofs.PageSkip

/-!
# The order of two foldings

Two children are folded into a result under different keys. Whichever comes
first, the content has the same fields, the counts add up to the same sums, and
the timestamp denotes the same instant. The order shows in the order of keys
that are new, in sums of other values than counts, and in the text of a
timestamp when several texts denote the latest instant.
-/

set_option autoImplicit false

namespace PlanFold

theorem Fields.insert_perm {name other : String} (hne : name ≠ other) (fields : Fields)
    (value value' : Value) :
    ((fields.insert name value).insert other value').Perm
      ((fields.insert other value').insert name value) := by
  induction fields with
  | nil =>
    simp only [insert, hne, hne.symm, if_false]
    exact List.Perm.swap _ _ _
  | cons field rest ih =>
    obtain ⟨key, old⟩ := field
    by_cases hk : key = name
    · subst hk
      simp [insert, hne]
    · by_cases ho : key = other
      · subst ho
        simp [insert, hk]
      · simpa [insert, hk, ho] using ih

theorem Fields.get?_insert_comm {name other : String} (hne : name ≠ other) (fields : Fields)
    (value value' : Value) (key : String) :
    ((fields.insert name value).insert other value').get? key =
      ((fields.insert other value').insert name value).get? key := by
  simp only [get?_insert]
  by_cases hn : name = key
  · subst hn
    simp [hne.symm]
  · simp [hn]

inductive Value.Reordered : Value → Value → Prop
  | refl (value : Value) : Reordered value value
  | mapping {fields fields' : Fields} : fields.Perm fields' →
      (∀ key, fields.get? key = fields'.get? key) →
      Reordered (.mapping fields) (.mapping fields')

theorem Counts.eq_of_amount {count other : Option Value} (h : Counts count) (h' : Counts other)
    (hamount : amount count = amount other) (hnone : count = none ↔ other = none) :
    count = other := by
  cases count with
  | none => exact (hnone.mp rfl).symm
  | some value =>
    obtain ⟨m, hm⟩ := h.exists_whole (by simp)
    obtain ⟨n, hn⟩ := h'.exists_whole fun hother => by cases hnone.mpr hother
    rw [hm, hn] at hamount ⊢
    have hval : m.val = n.val := hamount
    cases m
    cases n
    cases hval
    rfl

theorem tallyAll_perm {own : Option Value} {received others : List (Option Value)}
    (hperm : received.Perm others) (hown : Counts own)
    (hreceived : ∀ count ∈ received, Counts count) :
    tallyAll own received = tallyAll own others := by
  have hothers : ∀ count ∈ others, Counts count :=
    fun count hcount => hreceived count (hperm.mem_iff.mpr hcount)
  obtain ⟨hcounts, hamount, hnone⟩ := tallyAll_counts hown hreceived
  obtain ⟨hcounts', hamount', hnone'⟩ := tallyAll_counts hown hothers
  refine hcounts.eq_of_amount hcounts' ?_ ?_
  · rw [hamount, hamount', (hperm.map amount).sum_eq]
  · simp only [hnone, hnone', hperm.mem_iff]

namespace Timestamp

def SameInstant (a b : Timestamp) : Prop := a.second = b.second ∧ a.nano = b.nano

def latest : Option Timestamp → Option Timestamp → Option Timestamp
  | some current, some candidate =>
    some (if candidate.isAfter current then candidate else current)
  | current, _ => current

theorem latest_none (current : Option Timestamp) : latest current none = current := by
  cases current <;> rfl

theorem SameInstant.refl (t : Timestamp) : t.SameInstant t := ⟨rfl, rfl⟩

theorem isAfter_iff (a b : Timestamp) :
    a.isAfter b = true ↔ b.second < a.second ∨ (a.second = b.second ∧ b.nano < a.nano) := by
  simp [isAfter]

/-- Two candidates taken in either order leave the same instant. -/
theorem latest_swap (current a b : Option Timestamp) :
    Option.Rel SameInstant (latest (latest current a) b) (latest (latest current b) a) := by
  cases current with
  | none => exact .none
  | some t =>
    cases a with
    | none =>
      rw [latest_none, latest_none]
      cases latest (some t) b with
      | none => exact .none
      | some last => exact .some (.refl last)
    | some a =>
      cases b with
      | none =>
        rw [latest_none, latest_none]
        exact .some (.refl _)
      | some b =>
        refine .some ?_
        unfold SameInstant
        by_cases hat : a.isAfter t <;> by_cases hbt : b.isAfter t <;> grind [isAfter_iff]

end Timestamp

def stamp? (metadata : Fields) : Option Timestamp :=
  (updatedAt? metadata).bind Timestamp.ofText?

def StepResult.timestamp? (result : StepResult) : Option Timestamp :=
  result.metadata?.bind stamp?

theorem stamp?_newest (source : StepResult) (metadata : Fields) :
    stamp? (newest source metadata) =
      Timestamp.latest (stamp? metadata) source.timestamp? := by
  have hsource : source.timestamp? =
      (source.metadata?.bind updatedAt?).bind Timestamp.ofText? := by
    unfold StepResult.timestamp?
    rw [Option.bind_assoc]
    rfl
  rw [hsource]
  unfold newest
  cases source.metadata?.bind updatedAt? with
  | none => exact (Timestamp.latest_none _).symm
  | some candidate =>
    unfold stamp?
    cases hcurrent : updatedAt? metadata with
    | none => simp [hcurrent, Timestamp.latest]
    | some current =>
      have hwritten : updatedAt? (metadata.insert "updated_at" (.string candidate)) =
          some candidate := by
        unfold updatedAt?
        rw [Fields.get?_insert_self]
        rfl
      simp only [Option.bind_some]
      unfold isNewer
      cases hold : Timestamp.ofText? current with
      | none => cases Timestamp.ofText? candidate <;> simp [hcurrent, hold, Timestamp.latest]
      | some t =>
        cases hnew : Timestamp.ofText? candidate with
        | none => simp [hcurrent, hold, Timestamp.latest]
        | some t' =>
          simp only [Timestamp.latest]
          split
          · rw [hwritten, Option.bind_some, hnew]
          · rw [hcurrent, Option.bind_some, hold]

theorem string?_tally (mine theirs : Option Value) :
    (tally mine theirs).bind Value.string? = none := by
  have hsum : (addCounts mine theirs).string? = none := by
    unfold addCounts
    split
    · rfl
    · split <;> rfl
  cases mine with
  | some _ => exact hsum
  | none =>
    cases theirs with
    | some _ => exact hsum
    | none => rfl

theorem updatedAt?_addCounters (counters : List String) (child metadata : Fields) :
    updatedAt? (counters.foldl (addCounter child) metadata) =
      if "updated_at" ∈ counters then none else updatedAt? metadata := by
  unfold updatedAt?
  split
  · rename_i hmem
    obtain ⟨n, hn⟩ := Nat.exists_eq_add_one.mpr (List.count_pos_iff.mpr hmem)
    rw [get?_addCounters, hn, List.replicate_succ', tallyAll_append]
    exact string?_tally _ _
  · rename_i hnot
    rw [get?_foldl_of_notMem (get?_addCounter_of_ne child) hnot]

theorem stamp?_addCounters (counters : List String) (child metadata : Fields) :
    stamp? (counters.foldl (addCounter child) metadata) =
      if "updated_at" ∈ counters then none else stamp? metadata := by
  unfold stamp?
  rw [updatedAt?_addCounters]
  split <;> rfl

def absorbed (counters : List String) (child : StepResult) (metadata : Fields) : Fields :=
  newest child (counters.foldl (addCounter (child.metadata?.getD [])) metadata)

section absorbed

variable {counters : List String} {a b : StepResult} {metadata : Fields} {counter : String}

theorem counts_replicate {count : Option Value} (h : Counts count) (n : Nat) :
    ∀ other ∈ List.replicate n count, Counts other := by
  intro other hother
  rwa [List.eq_of_mem_replicate hother]

theorem counts_addCounters (counters : List String) {child : StepResult} {fields : Fields}
    (h : Counts (fields.get? counter)) (hchild : Counts (child.count? counter)) :
    Counts ((counters.foldl (addCounter (child.metadata?.getD [])) fields).get? counter) := by
  rw [get?_addCounters, get?_metadata_getD]
  exact (tallyAll_counts h (counts_replicate hchild _)).1

theorem get?_absorbed (counters : List String) (hown : Counts (metadata.get? counter))
    (hchild : Counts (a.count? counter)) :
    Counts ((absorbed counters a metadata).get? counter) ∧
      (absorbed counters a metadata).get? counter = tallyAll (metadata.get? counter)
        (List.replicate (counters.count counter) (a.count? counter)) := by
  have hcounts := counts_addCounters counters hown hchild
  unfold absorbed
  rw [hcounts.get?_newest]
  refine ⟨hcounts, ?_⟩
  rw [get?_addCounters, get?_metadata_getD]

theorem get?_absorbed_swap (hown : Counts (metadata.get? counter))
    (ha : Counts (a.count? counter)) (hb : Counts (b.count? counter)) :
    (absorbed counters b (absorbed counters a metadata)).get? counter =
      (absorbed counters a (absorbed counters b metadata)).get? counter := by
  obtain ⟨hcounts, hfirst⟩ := get?_absorbed counters hown ha
  obtain ⟨hcounts', hfirst'⟩ := get?_absorbed counters hown hb
  rw [(get?_absorbed counters hcounts hb).2, (get?_absorbed counters hcounts' ha).2, hfirst,
    hfirst', ← tallyAll_append, ← tallyAll_append]
  refine tallyAll_perm List.perm_append_comm hown fun count hcount => ?_
  rcases List.mem_append.mp hcount with hcount | hcount
  · exact counts_replicate ha _ count hcount
  · exact counts_replicate hb _ count hcount

theorem stamp?_absorbed (counters : List String) (child : StepResult) (metadata : Fields) :
    stamp? (absorbed counters child metadata) = Timestamp.latest
      (if "updated_at" ∈ counters then none else stamp? metadata) child.timestamp? := by
  unfold absorbed
  rw [stamp?_newest, stamp?_addCounters]

theorem stamp?_absorbed_swap (counters : List String) (a b : StepResult) (metadata : Fields) :
    Option.Rel Timestamp.SameInstant
      (stamp? (absorbed counters b (absorbed counters a metadata)))
      (stamp? (absorbed counters a (absorbed counters b metadata))) := by
  simp only [stamp?_absorbed]
  split
  · exact .none
  · exact Timestamp.latest_swap _ _ _

end absorbed

def StepResult.relocated (base : StepResult) (counters : List String) (child : StepResult)
    (key : String) (payload : Value) : StepResult :=
  (base.mapMetadata (absorbed counters child)).setContent
    (.mapping ((slotOf base.fields).insert key payload))

section relocated

variable {counters : List String} {base a b : StepResult} {key other : String}
  {payload payload' : Value}

theorem content_relocated (base : StepResult) (counters : List String) (child : StepResult)
    (key : String) (payload : Value) : (base.relocated counters child key payload).content =
      .mapping ((slotOf base.fields).insert key payload) := by
  unfold StepResult.relocated
  rw [StepResult.content_setContent]

theorem slotOf_of_content {result : StepResult} {fields : Fields}
    (h : result.content = .mapping fields) : slotOf result.fields = fields :=
  slotOf_mapping (StepResult.get?_of_content h)

theorem hasSlot_relocated (base : StepResult) (counters : List String) (child : StepResult)
    (key : String) (payload : Value) :
    HasSlot (base.relocated counters child key payload).fields := by
  intro content hget
  unfold StepResult.relocated StepResult.setContent at hget
  rw [Fields.get?_insert_self] at hget
  cases hget
  rfl

theorem metadata?_relocated (base : StepResult) (counters : List String) (child : StepResult)
    (key : String) (payload : Value) : (base.relocated counters child key payload).metadata? =
      base.metadata?.map (absorbed counters child) := by
  unfold StepResult.relocated
  rw [StepResult.metadata?_setContent, StepResult.metadata?_mapMetadata]

theorem foldInto_relocate_iff {start : Option String} {child : StepResult} {out : Fields}
    (counters : List String) (hcontent : base.fields.contains "content" = true) :
    Attach.foldInto ⟨.relocate key, none, start⟩
        (keepNewest (base.addEffort child counters).fields child) child = .ok out ↔
      Attach.Takes ⟨.relocate key, none, start⟩ child ∧ HasSlot base.fields ∧
      base.relocated counters child key (Attach.contribution ⟨.relocate key, none, start⟩ child) =
        ⟨out⟩ := by
  have hget : (base.addEffort child counters).fields.get? "content" =
      base.fields.get? "content" := base.get?_mapMetadata _ (by decide)
  have hwrapped : (base.addEffort child counters).fields.contains "content" = true :=
    (Fields.contains_congr hget).trans hcontent
  have habsorbed : (base.addEffort child counters).mapMetadata (newest child) =
      base.mapMetadata (absorbed counters child) := base.mapMetadata_mapMetadata _ _
  rw [Attach.foldInto_wrapped_iff _ (by simp) hwrapped, fits_congr hget,
    slotOf_congr hget hwrapped, habsorbed]
  rfl

/-- Two results that differ at most in what the order of two foldings decides: the
order of keys in the content, sums of other values than counts, and which text
denotes the timestamp. -/
structure EitherOrder (counted : String → Prop) (first second : StepResult) : Prop where
  content : first.content.Reordered second.content
  counts : ∀ counter, counted counter → first.count? counter = second.count? counter
  timestamp : Option.Rel Timestamp.SameInstant first.timestamp? second.timestamp?

theorem EitherOrder.refl (counted : String → Prop) (result : StepResult) :
    EitherOrder counted result result where
  content := .refl _
  counts _ _ := rfl
  timestamp := by
    cases result.timestamp? with
    | none => exact .none
    | some t => exact .some (.refl t)

/-- Two children folded in under different keys, in one order and in the other. -/
theorem relocated_swap (hne : key ≠ other) {counted : String → Prop}
    (hcounted : ∀ counter, counted counter → Counts (base.count? counter) ∧
      Counts (a.count? counter) ∧ Counts (b.count? counter)) :
    EitherOrder counted
      ((base.relocated counters a key payload).relocated counters b other payload')
      ((base.relocated counters b other payload').relocated counters a key payload) where
  content := by
    simp only [content_relocated, slotOf_of_content (content_relocated _ _ _ _ _)]
    exact .mapping (Fields.insert_perm hne _ _ _) (Fields.get?_insert_comm hne _ _ _)
  counts counter hcounter := by
    obtain ⟨hbase, ha, hb⟩ := hcounted counter hcounter
    unfold StepResult.count? at hbase ⊢
    simp only [metadata?_relocated]
    cases hmetadata : base.metadata? with
    | none => rfl
    | some metadata =>
      rw [hmetadata] at hbase
      exact get?_absorbed_swap hbase ha hb
  timestamp := by
    unfold StepResult.timestamp?
    simp only [metadata?_relocated]
    cases base.metadata? with
    | none => exact .none
    | some metadata => exact stamp?_absorbed_swap counters a b metadata

end relocated

end PlanFold
