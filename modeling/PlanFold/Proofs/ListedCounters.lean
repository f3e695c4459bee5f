import PlanFold.Proofs.HiddenCounters
import PlanFold.Proofs.MergeOrder
import PlanFold.Proofs.Simulation

/-!
# How often counters are listed

Page counters are zeroed, so their list is as good as the set of its names.
Effort counters are added, and one that is listed twice is added twice: what
their list comes to is how often it has each name. Its order matters for the
order of new keys in metadata only.

So two settings with the same names lead to results that are equal as mappings
but for the effort counters that one of them lists more often than the other.
-/

set_option autoImplicit false

namespace PlanFold

open StepResult (zeroCounter)

theorem zeroCounter_again (fields : Fields) (counter : String) :
    zeroCounter (zeroCounter fields counter) counter = zeroCounter fields counter := by
  unfold zeroCounter
  split
  · rw [if_pos (Fields.contains_of_get? (Fields.get?_insert_self _ _ _)), Fields.insert_insert]
  · rfl

theorem contains_zeroCounter (fields : Fields) (counter other : String) :
    (zeroCounter fields counter).contains other = fields.contains other := by
  unfold zeroCounter
  split
  · exact Fields.contains_eq_of_keys_eq (Fields.keys_insert_of_contains ‹_› _) other
  · rfl

theorem zeroCounter_comm (fields : Fields) (counter other : String) :
    zeroCounter (zeroCounter fields counter) other =
      zeroCounter (zeroCounter fields other) counter := by
  by_cases hne : counter = other
  · rw [hne]
  · have hstep : ∀ first second, zeroCounter (zeroCounter fields first) second =
        if fields.contains second then (zeroCounter fields first).insert second (.ofWhole 0)
        else zeroCounter fields first := by
      intro first second
      rw [← contains_zeroCounter fields first second]
      rfl
    rw [hstep, hstep]
    unfold zeroCounter
    by_cases hc : fields.contains counter = true
    · by_cases ho : fields.contains other = true
      · simp only [hc, ho, if_true, Fields.insert_comm hne hc]
      · simp [hc, ho]
    · simp [hc]

/-- A counter that is zeroed anyway can be zeroed first. -/
theorem zeroCounters_absorb {counter : String} {counters : List String}
    (h : counter ∈ counters) (fields : Fields) :
    counters.foldl zeroCounter (zeroCounter fields counter) =
      counters.foldl zeroCounter fields := by
  induction counters generalizing fields with
  | nil => cases h
  | cons other rest ih =>
    rw [List.foldl_cons, List.foldl_cons]
    rcases List.mem_cons.mp h with rfl | hrest
    · rw [zeroCounter_again]
    · rw [zeroCounter_comm, ih hrest]

theorem zeroCounters_append {counters others : List String}
    (h : ∀ counter ∈ others, counter ∈ counters) (fields : Fields) :
    (others ++ counters).foldl zeroCounter fields = counters.foldl zeroCounter fields := by
  induction others generalizing fields with
  | nil => rfl
  | cons other rest ih =>
    have hrest := ih fun counter hcounter => h counter (by simp [hcounter])
    rw [List.cons_append, List.foldl_cons, hrest, zeroCounters_absorb (h other (by simp))]

theorem zeroCounters_congr {counters others : List String}
    (h : ∀ counter, counter ∈ counters ↔ counter ∈ others) (fields : Fields) :
    counters.foldl zeroCounter fields = others.foldl zeroCounter fields := by
  have : RightCommutative zeroCounter := ⟨zeroCounter_comm⟩
  calc counters.foldl zeroCounter fields
      = (others ++ counters).foldl zeroCounter fields :=
        (zeroCounters_append (fun counter => (h counter).mpr) fields).symm
    _ = (counters ++ others).foldl zeroCounter fields :=
        List.perm_append_comm.foldl_eq fields
    _ = others.foldl zeroCounter fields :=
        zeroCounters_append (fun counter => (h counter).mp) fields

theorem Fields.Reordered.zeroCounters {fields fields' : Fields} (h : fields.Reordered fields')
    (counters : List String) : (counters.foldl zeroCounter fields).Reordered
      (counters.foldl zeroCounter fields') := by
  induction counters generalizing fields fields' with
  | nil => exact h
  | cons counter rest ih =>
    refine ih ?_
    unfold zeroCounter
    rw [Fields.contains_congr (h.2 counter)]
    split
    · exact h.insert _ _
    · exact h

theorem updatedAt?_zeroCounters (counters : List String) (metadata : Fields) :
    updatedAt? (counters.foldl zeroCounter metadata) =
      if "updated_at" ∈ counters then none else updatedAt? metadata := by
  unfold updatedAt?
  rw [get?_foldl_zeroCounter]
  split
  · cases metadata.get? "updated_at" <;> rfl
  · rfl

theorem addCounter_eq (child fields : Fields) (counter : String) :
    addCounter child fields counter =
      match tally (fields.get? counter) (child.get? counter) with
      | some sum => fields.insert counter sum
      | none => fields := by
  unfold addCounter
  cases fields.get? counter with
  | none => cases child.get? counter <;> rfl
  | some mine => rfl

theorem addCounter_congr {child child' : Fields}
    (h : ∀ key, child.get? key = child'.get? key) : addCounter child = addCounter child' := by
  funext fields counter
  rw [addCounter_eq, addCounter_eq, h]

section addCounters

variable {fields fields' : Fields} {counters others : List String}

theorem Fields.Reordered.addCounters (h : fields.Reordered fields') (counters : List String)
    (child : Fields) : (counters.foldl (addCounter child) fields).Reordered
      (counters.foldl (addCounter child) fields') := by
  induction counters generalizing fields fields' with
  | nil => exact h
  | cons counter rest ih =>
    refine ih ?_
    rw [addCounter_eq, addCounter_eq, h.2]
    split
    · exact h.insert _ _
    · exact h

theorem addCounter_swap (child fields : Fields) (counter other : String) :
    (addCounter child (addCounter child fields counter) other).Reordered
      (addCounter child (addCounter child fields other) counter) := by
  by_cases hne : counter = other
  · rw [hne]
    exact .refl _
  · rw [addCounter_eq child (addCounter child fields counter),
      addCounter_eq child (addCounter child fields other),
      get?_addCounter_of_ne child fields counter hne,
      get?_addCounter_of_ne child fields other (Ne.symm hne),
      addCounter_eq child fields, addCounter_eq child fields]
    cases tally (fields.get? counter) (child.get? counter) with
    | none => exact .refl _
    | some sum =>
      cases tally (fields.get? other) (child.get? other) with
      | none => exact .refl _
      | some sum' =>
        exact ⟨Fields.insert_perm hne fields sum sum', Fields.get?_insert_comm hne fields sum sum'⟩

theorem addCounters_perm (hperm : counters.Perm others) (child fields : Fields) :
    (counters.foldl (addCounter child) fields).Reordered
      (others.foldl (addCounter child) fields) := by
  induction hperm generalizing fields with
  | nil => exact .refl fields
  | cons counter _ ih => exact ih _
  | swap counter other rest =>
    exact (addCounter_swap child fields other counter).addCounters rest child
  | trans _ _ ih ih' => exact (ih fields).trans (ih' fields)

end addCounters

theorem StepResult.Related.count? {first second : StepResult}
    (h : first.Related Fields.Reordered second) (counter : String) :
    first.count? counter = second.count? counter := by
  unfold StepResult.count?
  cases h with
  | refl => rfl
  | metadata hmetadata hrel =>
    rw [hmetadata, StepResult.metadata?_setMetadata]
    exact hrel.2 counter

/-- The settings require the same fields, and have the same names in their other lists,
in any order and however often. -/
structure Settings.SameNames (settings settings' : Settings) : Prop where
  required : settings.requiredFields = settings'.requiredFields
  effort : ∀ name, name ∈ settings.effortCounters ↔ name ∈ settings'.effortCounters
  pages : ∀ name, name ∈ settings.pageCountFields ↔ name ∈ settings'.pageCountFields

def Settings.uneven (settings settings' : Settings) : List String :=
  settings.effortCounters.filter fun name =>
    settings.effortCounters.count name ≠ settings'.effortCounters.count name

structure Fields.ReorderedBut (names : List String) (metadata metadata' : Fields) : Prop where
  others : (metadata.hide names).Reordered (metadata'.hide names)
  stamp : updatedAt? metadata = updatedAt? metadata'

theorem Fields.ReorderedBut.reordered {metadata metadata' : Fields}
    (h : ReorderedBut [] metadata metadata') : metadata.Reordered metadata' := by
  have hall : ∀ fields : Fields, fields.hide [] = fields := fun fields => by simp [Fields.hide]
  have hothers := h.others
  rwa [hall, hall] at hothers

namespace Settings

variable {settings settings' : Settings}

theorem SameNames.count_eq (h : settings.SameNames settings') {name : String}
    (hname : name ∉ settings.uneven settings') :
    settings.effortCounters.count name = settings'.effortCounters.count name := by
  by_cases hmem : name ∈ settings.effortCounters
  · by_contra hne
    exact hname (List.mem_filter.mpr ⟨hmem, by simpa using hne⟩)
  · rw [List.count_eq_zero_of_not_mem hmem,
      List.count_eq_zero_of_not_mem fun hmem' => hmem ((h.effort name).mpr hmem')]

theorem SameNames.evenly (h : settings.SameNames settings') :
    (settings.effortCounters.filter (· ∉ settings.uneven settings')).Perm
      (settings'.effortCounters.filter (· ∉ settings.uneven settings')) := by
  refine List.perm_iff_count.mpr fun name => ?_
  by_cases hname : name ∈ settings.uneven settings'
  · rw [List.count_eq_zero_of_not_mem (by simp [hname]),
      List.count_eq_zero_of_not_mem (by simp [hname])]
  · rw [List.count_filter (by simpa using hname), List.count_filter (by simpa using hname),
      h.count_eq hname]

theorem uneven_of_perm (h : settings.effortCounters.Perm settings'.effortCounters) :
    settings.uneven settings' = [] := by
  refine List.filter_eq_nil_iff.mpr fun name _ => ?_
  simp [h.count_eq name]

/-- Folding respects what is the same but for the counters that are listed unevenly. -/
theorem SameNames.respect (h : settings.SameNames settings') :
    settings.Respect settings' (Fields.ReorderedBut (settings.uneven settings')) where
  required := h.required
  refl metadata := ⟨.refl _, rfl⟩
  stamp hrel := hrel.stamp
  dated {metadata metadata'} hrel text := by
    refine ⟨?_, ?_⟩
    · rw [Fields.hide_insert, Fields.hide_insert]
      split
      · exact hrel.others
      · exact hrel.others.insert _ _
    · unfold updatedAt?
      rw [Fields.get?_insert_self, Fields.get?_insert_self]
  added {metadata metadata' child child'} hrel hchild := by
    refine ⟨?_, ?_⟩
    · rw [Fields.hide_foldl (hide_addCounter child), Fields.hide_foldl (hide_addCounter child'),
        ← addCounter_congr hchild.others.2]
      exact (hrel.others.addCounters _ _).trans (addCounters_perm h.evenly _ _)
    · rw [updatedAt?_addCounters, updatedAt?_addCounters, hrel.stamp]
      simp only [h.effort]
  zeroed {metadata metadata'} hrel := by
    refine ⟨?_, ?_⟩
    · rw [Fields.hide_foldl hide_zeroCounter, Fields.hide_foldl hide_zeroCounter,
        zeroCounters_congr fun counter => ?_]
      · exact hrel.others.zeroCounters _
      · simp only [List.mem_filter, h.pages]
    · rw [updatedAt?_zeroCounters, updatedAt?_zeroCounters, hrel.stamp]
      simp only [h.pages]

end Settings

namespace Interpreter

variable {host : Host} {settings settings' : Settings}

/-- Two settings with the same names lead a host without a merge-down hook through the
same calls to the same error, or to results that are equal as mappings but for the
counters that are not listed equally often. An effort counter of a child is added to
that of its parent once for each time it is listed. -/
theorem run_listed (hhook : host.mergeDown = none) (hsame : settings.SameNames settings')
    (plan : Plan) (state : State) (args : List Value) (history : History) :
    (run ⟨host, settings⟩ plan state args history).2 =
        (run ⟨host, settings'⟩ plan state args history).2 ∧
      SameOutcome (StepResult.Related (Fields.ReorderedBut (settings.uneven settings')))
        (run ⟨host, settings⟩ plan state args history).1
        (run ⟨host, settings'⟩ plan state args history).1 ∧
      (settings.effortCounters.Perm settings'.effortCounters →
        SameOutcome (StepResult.Related Fields.Reordered)
          (run ⟨host, settings⟩ plan state args history).1
          (run ⟨host, settings'⟩ plan state args history).1) ∧
      ∀ parent child : StepResult, parent.metadata? ≠ none → ∀ counter,
        (parent.addEffort child settings.effortCounters).count? counter =
          tallyAll (parent.count? counter)
            (List.replicate (settings.effortCounters.count counter) (child.count? counter)) := by
  let pair : Pairing host settings settings' := .identical True hsame.respect (absurd hhook)
  have hsuits : ∀ node, plan.Has node → pair.Suits node := fun _ _ => Pairing.suits_identical _
  obtain ⟨hcalls, hresult⟩ := run_sim rfl trivial hsuits rfl history
  refine ⟨hcalls, hresult, fun hperm => ?_, fun parent child hparent counter => ?_⟩
  · refine hresult.mono fun _ _ hrel => hrel.mono fun metadata metadata' hmetadata => ?_
    have heven : Fields.ReorderedBut (settings.uneven settings') metadata metadata' := hmetadata
    rw [Settings.uneven_of_perm hperm] at heven
    exact heven.reordered
  · obtain ⟨metadata, hmetadata⟩ := Option.ne_none_iff_exists'.mp hparent
    exact count?_addEffort_listed hmetadata child _ counter

/-- One list is in another order and one repeats a name: the new keys of the metadata are
in another order. -/
theorem run_listed_order :
    let order : StepResult := ⟨[("content", .bool true),
      ("metadata", .mapping [("page_count_live", .ofWhole 5)])]⟩
    let detail : StepResult := ⟨[("metadata", .mapping [("request_count", .ofWhole 1),
      ("cost", .ofWhole 2)])]⟩
    let child := (Plan.named "detail").attach .detached
    let plan : Plan := { ((Plan.named "order").attach .detached).fanOut .this child with
      skipsPageCount := true }
    let host := Host.byName [("order", order), ("detail", detail)]
    let settings : Settings :=
      ⟨["as"], ["cost", "request_count"], ["page_count_live", "page_count_live"]⟩
    let settings' : Settings := ⟨["as"], ["request_count", "cost"], ["page_count_live"]⟩
    let after : History := [.run ⟨plan.fields⟩ [], .run ⟨child.fields⟩ []]
    let final : StepResult := ⟨[("content", .bool true), ("metadata", .mapping
      [("page_count_live", .ofWhole 0), ("cost", .ofWhole 2), ("request_count", .ofWhole 1)])]⟩
    let final' : StepResult := ⟨[("content", .bool true), ("metadata", .mapping
      [("page_count_live", .ofWhole 0), ("request_count", .ofWhole 1), ("cost", .ofWhole 2)])]⟩
    host.mergeDown = none ∧ settings.SameNames settings' ∧
      settings.effortCounters.Perm settings'.effortCounters ∧
      run ⟨host, settings⟩ plan .empty [] [] = (.ok final, after) ∧
      run ⟨host, settings'⟩ plan .empty [] [] = (.ok final', after) ∧
      final.Related Fields.Reordered final' ∧ order.metadata? ≠ none ∧
      (order.addEffort detail settings.effortCounters).count? "cost" =
        tallyAll none [some (.ofWhole 2)] := by
  intro order detail child plan host settings settings' after final final'
  have hperm : settings.effortCounters.Perm settings'.effortCounters := .swap _ _ _
  have hsame : settings.SameNames settings' :=
    ⟨rfl, fun name => hperm.mem_iff, fun name => by simp [settings, settings']⟩
  have hrun : run ⟨host, settings⟩ plan .empty [] [] = (.ok final, after) := rfl
  have hrun' : run ⟨host, settings'⟩ plan .empty [] [] = (.ok final', after) := rfl
  have hhook : host.mergeDown = none := rfl
  have hmetadata : order.metadata? ≠ none := nofun
  obtain ⟨_, _, heven, hadded⟩ := run_listed hhook hsame plan .empty [] []
  have houtcome := heven hperm
  rw [hrun, hrun'] at houtcome
  cases houtcome with
  | ok hrel =>
    exact ⟨hhook, hsame, hperm, hrun, hrun', hrel, hmetadata,
      hadded order detail hmetadata "cost"⟩

/-- A counter that is listed twice is added twice, so its list is no set of names. -/
theorem run_listed_twice :
    let order : StepResult := ⟨[("content", .bool true),
      ("metadata", .mapping [("cost", .ofWhole 1)])]⟩
    let detail : StepResult := ⟨[("metadata", .mapping [("cost", .ofWhole 1)])]⟩
    let child := (Plan.named "detail").attach .detached
    let plan := ((Plan.named "order").attach .detached).fanOut .this child
    let host := Host.byName [("order", order), ("detail", detail)]
    let settings : Settings := ⟨["as"], ["cost", "cost"], []⟩
    let settings' : Settings := ⟨["as"], ["cost"], []⟩
    let final : StepResult := ⟨[("content", .bool true),
      ("metadata", .mapping [("cost", .ofWhole 3)])]⟩
    let final' : StepResult := ⟨[("content", .bool true),
      ("metadata", .mapping [("cost", .ofWhole 2)])]⟩
    host.mergeDown = none ∧ host.Memoryless ∧ settings.SameNames settings' ∧
      (run ⟨host, settings⟩ plan .empty [] []).1 = .ok final ∧
      (run ⟨host, settings'⟩ plan .empty [] []).1 = .ok final' ∧
      ¬SameOutcome (StepResult.Related Fields.Reordered)
        (run ⟨host, settings⟩ plan .empty [] []).1
        (run ⟨host, settings'⟩ plan .empty [] []).1 := by
  intro order detail child plan host settings settings' final final'
  have hsame : settings.SameNames settings' :=
    ⟨rfl, fun name => by simp [settings, settings'], fun name => Iff.rfl⟩
  have hrun : (run ⟨host, settings⟩ plan .empty [] []).1 = .ok final := rfl
  have hrun' : (run ⟨host, settings'⟩ plan .empty [] []).1 = .ok final' := rfl
  refine ⟨rfl, Host.memoryless_byName _, hsame, hrun, hrun', ?_⟩
  rw [hrun, hrun']
  intro houtcome
  cases houtcome with
  | ok hrel =>
    have hcount : amount (final.count? "cost") = amount (final'.count? "cost") :=
      congrArg amount (hrel.count? "cost")
    exact absurd hcount (by decide)

end Interpreter

end PlanFold
