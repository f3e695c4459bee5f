import PlanFold.Proofs.EffortLedger
import PlanFold.Proofs.WholeDifferences

/-!
# Effort that a child does not report

A counter that is absent from a child counts as zero and is added all the same.
Adding nothing keeps a whole number of 64 signed bits and a double, but not the
sign of a zero, a larger whole number, which turns into the nearest double, or
what is no number, which turns into zero. So children without effort leave a
node alone where its counters hold values of the first kind, and only there.
-/

set_option autoImplicit false

namespace PlanFold

open Numeric

namespace Numeric

theorem Binary64.add_zero (x : Double) : (finite x).add (.finite (.zero false)) =
    .finite (if x = .zero true then .zero false else x) := by
  have hsum : (finite x).add (.finite (.zero false)) = ofSigned false x.signed := by
    simp [add, Double.zero, Double.signed]
  rw [hsum]
  obtain ⟨negative, units, hgrid⟩ := x
  unfold ofSigned
  by_cases hzero : units = 0
  · subst hzero
    cases negative <;> simp [Double.signed, Double.zero]
  · have hsigned : Double.signed ⟨negative, units, hgrid⟩ ≠ 0 := by
      cases negative <;> simp [Double.signed] <;> omega
    have hnegative : decide (Double.signed ⟨negative, units, hgrid⟩ < 0) = negative := by
      cases negative <;> simp [Double.signed]
      omega
    have hne : (⟨negative, units, hgrid⟩ : Double) ≠ .zero true := by
      simp [Double.zero, hzero]
    rw [if_neg hsigned, hnegative, Double.natAbs_signed, ofUnits_onGrid _ hgrid, if_neg hne]

end Numeric

theorem Whole.onGrid_rounded (n : Whole) : OnGrid (rounded (n.val.natAbs * unitsInOne)) := by
  obtain ⟨digits, power, hfar, hone, hlimit⟩ := unitsLimit_pow
  have hlt : 2 ^ (digits + 64) < unitsLimit := by
    rw [hlimit]
    exact Nat.pow_lt_pow_right (by decide) (by omega)
  obtain ⟨x, hx, _⟩ := Binary64.ofInt_whole n hone hlt
  rw [Binary64.ofInt, Binary64.ofRatio, Binary64.ofUnits_one] at hx
  split at hx
  next hgrid => exact hgrid
  next => cases hx

def Whole.nearestDouble (n : Whole) : Double :=
  ⟨n.val < 0, rounded (n.val.natAbs * unitsInOne), n.onGrid_rounded⟩

theorem Whole.ofInt_eq (n : Whole) : Binary64.ofInt n.val = .finite n.nearestDouble := by
  rw [Binary64.ofInt, Binary64.ofRatio, Binary64.ofUnits_one, dif_pos n.onGrid_rounded]
  rfl

def Value.recounted : Value → Value
  | .number (.whole n) =>
    if n.val ≤ greatestSigned then .number (.whole n) else .number (.double n.nearestDouble)
  | .number (.double x) => .number (.double (if x = .zero true then .zero false else x))
  | _ => .number (.double (.zero false))

/-- A value that stays the same when nothing is added to it: a whole number of 64 signed
bits or a double other than the negative zero. -/
def Value.Steady : Value → Prop
  | .number (.whole n) => n.val ≤ greatestSigned
  | .number (.double x) => x ≠ .zero true
  | _ => False

section recounted

theorem Value.recounted_large {n : Whole} (h : ¬n.val ≤ greatestSigned) :
    recounted (.number (.whole n)) = .number (.double n.nearestDouble) := if_neg h

theorem Value.steady_double {x : Double} :
    Steady (.number (.double x)) ↔ x ≠ .zero true := Iff.rfl

theorem Whole.nearestDouble_ne {n : Whole} (h : ¬n.val ≤ greatestSigned) :
    n.nearestDouble ≠ .zero true := by
  have hpositive : ¬n.val < 0 := by
    unfold greatestSigned at h
    omega
  simp [nearestDouble, Double.zero, hpositive]

variable (value : Value)

theorem Value.steady_recounted : value.recounted.Steady := by
  have hzero : Double.zero false ≠ Double.zero true := by simp [Double.zero]
  cases value with
  | number n =>
    cases n with
    | whole n =>
      by_cases hfits : n.val ≤ greatestSigned
      · rw [recounted, if_pos hfits]
        exact hfits
      · rw [recounted_large hfits]
        exact Whole.nearestDouble_ne hfits
    | double x =>
      rw [recounted, steady_double]
      split
      next => exact hzero
      next hne => exact hne
  | _ => exact hzero

theorem Value.recounted_eq_iff : value.recounted = value ↔ value.Steady := by
  constructor
  · intro h
    rw [← h]
    exact value.steady_recounted
  · intro h
    cases value with
    | number n =>
      cases n with
      | whole n => exact if_pos h
      | double x => rw [recounted, if_neg h]
    | _ => exact h.elim

theorem addCounts_none : addCounts (some value) none = value.recounted := by
  have hdouble : ∀ x : Double, wholeCount? (some value) = none →
      doubleCount (some value) = .finite x → addCounts (some value) none =
        .number (.double (if x = .zero true then .zero false else x)) := by
    intro x hwhole hx
    unfold addCounts
    rw [hwhole, hx, show doubleCount none = .finite (.zero false) from Binary64.ofInt_zero,
      Binary64.add_zero]
    rfl
  cases value with
  | number n =>
    cases n with
    | whole n =>
      by_cases hfits : n.val ≤ greatestSigned
      · have hwhole : wholeCount? (some (.number (.whole n))) = some n.val := if_pos hfits
        have hsaturated : saturate (n.val + 0) = n.val := by
          have hleast := n.least
          unfold saturate
          omega
        unfold addCounts
        rw [hwhole, Value.recounted, if_pos hfits]
        show Value.number (.whole ⟨saturate (n.val + 0), _, _⟩) = _
        simp only [hsaturated]
      · rw [hdouble n.nearestDouble (if_neg hfits) n.ofInt_eq,
          if_neg (Whole.nearestDouble_ne hfits), Value.recounted_large hfits]
    | double x => exact hdouble x rfl rfl
  | _ => exact hdouble (.zero false) rfl Binary64.ofInt_zero

end recounted

section unreported

variable {parent child : StepResult} {counters : List String} {counter : String}

theorem map_recounted_eq_iff {count : Option Value} :
    count.map Value.recounted = count ↔ ∀ value, count = some value → value.Steady := by
  cases count with
  | none => simp
  | some value => simp [Value.recounted_eq_iff]

theorem map_recounted_twice (count : Option Value) :
    (count.map Value.recounted).map Value.recounted = count.map Value.recounted := by
  refine map_recounted_eq_iff.mpr fun value hvalue => ?_
  obtain ⟨held, _, rfl⟩ := Option.map_eq_some_iff.mp hvalue
  exact held.steady_recounted

theorem tallyAll_replicate_none (count : Option Value) (times : Nat) :
    tallyAll count (List.replicate times none) =
      if times = 0 then count else count.map Value.recounted := by
  induction times generalizing count with
  | zero => rfl
  | succ times ih =>
    have htally : tally count none = count.map Value.recounted := by
      cases count with
      | none => rfl
      | some value => exact congrArg some (addCounts_none value)
    rw [List.replicate_succ]
    show tallyAll (tally count none) _ = _
    rw [ih, htally, map_recounted_twice]
    simp

theorem count?_eq_none_of_metadata (h : parent.metadata? = none) (counter : String) :
    parent.count? counter = none := by
  rw [StepResult.count?, h]
  rfl

theorem count?_unreported (parent : StepResult) (counters : List String)
    (h : child.count? counter = none) : (parent.addEffort child counters).count? counter =
      if counter ∈ counters then (parent.count? counter).map Value.recounted
      else parent.count? counter := by
  cases hmetadata : parent.metadata? with
  | none =>
    have hchanged : (parent.addEffort child counters).metadata? = none := by
      unfold StepResult.addEffort
      rw [parent.metadata?_mapMetadata, hmetadata]
      rfl
    rw [count?_eq_none_of_metadata hmetadata, count?_eq_none_of_metadata hchanged]
    simp
  | some metadata =>
    rw [count?_addEffort_listed hmetadata, h, tallyAll_replicate_none]
    by_cases hmem : counter ∈ counters
    · rw [if_neg (List.count_pos_iff.mpr hmem).ne', if_pos hmem]
    · rw [if_pos (List.count_eq_zero.mpr hmem), if_neg hmem]

def StepResult.Steady (result : StepResult) (counters : List String) : Prop :=
  ∀ counter ∈ counters, ∀ value, result.count? counter = some value → value.Steady

theorem foldl_addCounter_self {effort metadata : Fields}
    (heffort : ∀ counter ∈ counters, effort.get? counter = none)
    (hsteady : ∀ counter ∈ counters, ∀ value, metadata.get? counter = some value →
      value.Steady) : counters.foldl (addCounter effort) metadata = metadata := by
  induction counters with
  | nil => rfl
  | cons counter rest ih =>
    have hone : addCounter effort metadata counter = metadata := by
      unfold addCounter
      rw [heffort counter (by simp)]
      cases hget : metadata.get? counter with
      | none => rfl
      | some value =>
        have hvalue := hsteady counter (by simp) value hget
        show metadata.insert counter (addCounts (some value) none) = metadata
        rw [addCounts_none, value.recounted_eq_iff.mpr hvalue, Fields.insert_get? hget]
    rw [List.foldl_cons, hone]
    exact ih (fun other hother => heffort other (by simp [hother]))
      fun other hother => hsteady other (by simp [hother])

theorem addEffort_eq_self_iff (h : ∀ counter ∈ counters, child.count? counter = none) :
    parent.addEffort child counters = parent ↔ parent.Steady counters := by
  constructor
  · intro hself counter hmem
    rw [← map_recounted_eq_iff]
    have hcount := count?_unreported parent counters (h counter hmem)
    rw [hself, if_pos hmem] at hcount
    exact hcount.symm
  · intro hsteady
    refine parent.mapMetadata_self fun metadata hmetadata => ?_
    refine foldl_addCounter_self (fun counter hmem => ?_) fun counter hmem value hget => ?_
    · rw [get?_metadata_getD, h counter hmem]
    · refine hsteady counter hmem value ?_
      rw [StepResult.count?, hmetadata]
      exact hget

theorem count?_unreported_all (parent : StepResult) (counters : List String)
    {children : List StepResult} (h : ∀ child ∈ children, child.count? counter = none) :
    (parent.addEfforts children counters).count? counter =
      if counter ∈ counters ∧ children ≠ [] then (parent.count? counter).map Value.recounted
      else parent.count? counter := by
  induction children generalizing parent with
  | nil => simp [StepResult.addEfforts]
  | cons child rest ih =>
    show ((parent.addEffort child counters).addEfforts rest counters).count? counter = _
    rw [ih _ fun other hother => h other (by simp [hother]),
      count?_unreported parent counters (h child (by simp))]
    by_cases hmem : counter ∈ counters
    · rw [if_pos hmem, map_recounted_twice, ite_self, if_pos ⟨hmem, List.cons_ne_nil _ _⟩]
    · simp [hmem]

/-- Children without effort, however many, leave a node as it is where it holds steady
values. -/
theorem addEfforts_eq_self_iff {children : List StepResult} (hne : children ≠ [])
    (h : ∀ child ∈ children, ∀ counter ∈ counters, child.count? counter = none) :
    parent.addEfforts children counters = parent ↔ parent.Steady counters := by
  constructor
  · intro hself counter hmem
    have hcount := count?_unreported_all parent counters fun child hchild =>
      h child hchild counter hmem
    rw [hself, if_pos ⟨hmem, hne⟩] at hcount
    exact map_recounted_eq_iff.mp hcount.symm
  · intro hsteady
    clear hne
    induction children with
    | nil => rfl
    | cons child rest ih =>
      show (parent.addEffort child counters).addEfforts rest counters = parent
      rw [(addEffort_eq_self_iff (h child (by simp))).mpr hsteady]
      exact ih fun other hother => h other (by simp [hother])

/-- A child that does not report a counter leaves it as it is in its parent, absent or a
steady value, or where the counter is not listed; any other value is recounted. So
children that report no effort leave the whole parent as it is exactly where all listed
counters hold steady values. -/
theorem addEffort_unreported (parent : StepResult) (counters : List String) :
    (∀ child counter, child.count? counter = none →
      (parent.addEffort child counters).count? counter =
          (if counter ∈ counters then (parent.count? counter).map Value.recounted
          else parent.count? counter) ∧
        ((parent.addEffort child counters).count? counter = parent.count? counter ↔
          (counter ∈ counters → ∀ value, parent.count? counter = some value → value.Steady))) ∧
    ∀ children, (∀ child ∈ children, ∀ counter ∈ counters, child.count? counter = none) →
      (parent.addEfforts children counters = parent ↔
        children = [] ∨ parent.Steady counters) := by
  constructor
  · intro child counter hchild
    have hcount := count?_unreported parent counters hchild
    refine ⟨hcount, ?_⟩
    rw [hcount, ← map_recounted_eq_iff]
    by_cases hmem : counter ∈ counters <;> simp [hmem]
  · intro children hchildren
    by_cases hne : children = []
    · simp [hne, StepResult.addEfforts]
    · simp [hne, addEfforts_eq_self_iff hne hchildren]

/-- Fraction, sign and size of steady values do not matter, nor does a counter that is
not listed. -/
theorem addEffort_unreported_steady :
    let half : Double := ⟨true, Nat.pow 2 1073, by decide +kernel⟩
    let parent : StepResult := ⟨[("metadata", .mapping
      [("request_count", .ofWhole 9223372036854775807), ("cost", .number (.double half)),
        ("note", .string "cake")])]⟩
    let child : StepResult := ⟨[("metadata", .mapping [("note", .ofWhole 1)])]⟩
    let counters := ["request_count", "cost", "page_count_live"]
    child.count? "request_count" = none ∧
      (parent.addEffort child counters).count? "request_count" =
        some (.ofWhole 9223372036854775807) ∧
      (∀ other ∈ [child, .empty], ∀ counter ∈ counters, other.count? counter = none) ∧
      parent.addEfforts [child, .empty] counters = parent := by
  intro half parent child counters
  have hchild : child.count? "request_count" = none := rfl
  have hnone : ∀ other ∈ [child, .empty], ∀ counter ∈ counters, other.count? counter = none := by
    simp only [List.forall_mem_cons, counters]
    exact ⟨⟨rfl, rfl, rfl, nofun⟩, ⟨rfl, rfl, rfl, nofun⟩, nofun⟩
  have hhalf : half ≠ .zero true := by
    intro h
    exact absurd (congrArg Double.units h) (by decide +kernel)
  have hcount : ∀ value, parent.count? "request_count" = some value → value.Steady := by
    rintro value ⟨⟩
    show saturate 9223372036854775807 ≤ greatestSigned
    decide
  have hsteady : parent.Steady counters := by
    unfold StepResult.Steady
    simp only [List.forall_mem_cons, counters]
    refine ⟨hcount, ?_, nofun, nofun⟩
    rintro value ⟨⟩
    exact hhalf
  obtain ⟨hone, hall⟩ := addEffort_unreported parent counters
  exact ⟨hchild, (hone child "request_count" hchild).2.mpr fun _ => hcount, hnone,
    (hall [child, .empty] hnone).mpr (.inr hsteady)⟩

/-- Of the greatest number of 64 bits only the nearest double is left, and of a text
nothing is. -/
theorem addEffort_unreported_changed :
    let greatest : Whole := ⟨18446744073709551615, by decide, by decide⟩
    let parent : StepResult := ⟨[("metadata", .mapping
      [("request_count", .number (.whole greatest)), ("note", .string "cake")])]⟩
    let after := parent.addEffort .empty ["request_count", "note"]
    StepResult.empty.count? "request_count" = none ∧ StepResult.empty.count? "note" = none ∧
      (∃ x : Double, x.units = 18446744073709551616 * unitsInOne ∧
        after.count? "request_count" = some (.number (.double x))) ∧
      after.count? "request_count" ≠ parent.count? "request_count" ∧
      after.count? "note" = some (.number (.double (.zero false))) ∧
      after.count? "note" ≠ parent.count? "note" := by
  intro greatest parent after
  have hcount : after.count? "request_count" = some (.number (.double greatest.nearestDouble)) := by
    have hlarge : ¬greatest.val ≤ greatestSigned := by decide
    show (parent.addEffort .empty _).count? "request_count" = _
    rw [count?_unreported parent _ rfl, if_pos (by simp)]
    exact congrArg some (Value.recounted_large hlarge)
  have hnote : after.count? "note" = some (.number (.double (.zero false))) := by
    show (parent.addEffort .empty _).count? "note" = _
    rw [count?_unreported parent _ rfl, if_pos (by simp)]
    rfl
  have hunits : greatest.nearestDouble.units = 18446744073709551616 * unitsInOne := by
    decide +kernel
  refine ⟨rfl, rfl, ⟨_, hunits, hcount⟩, ?_, hnote, ?_⟩
  · rw [hcount]
    rintro ⟨⟩
  · rw [hnote]
    rintro ⟨⟩

end unreported

end PlanFold
