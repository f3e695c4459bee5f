import Mathlib.Algebra.Ring.Int.Defs
import Mathlib.Data.List.Nodup
import PlanFold.Proofs.FanOutFrame

/-!
# The ledger of effort counters

The count a node returns is its own count plus the counts of the child results
it received, each once, however they were folded in. A count here is a whole
number that is not negative; an absent one is zero. Sums are cut off at the
greatest number of 64 signed bits, and it does not matter where.
-/

set_option autoImplicit false

namespace PlanFold

def tally : Option Value → Option Value → Option Value
  | none, none => none
  | mine, theirs => some (addCounts mine theirs)

def Counts : Option Value → Prop
  | none => True
  | some (.number (.whole n)) => 0 ≤ n.val ∧ n.val ≤ greatestSigned
  | some _ => False

def amount : Option Value → Int
  | some (.number (.whole n)) => n.val
  | _ => 0

theorem Counts.whole {count : Option Value} (h : Counts count) :
    wholeCount? count = some (amount count) ∧ 0 ≤ amount count ∧
      amount count ≤ greatestSigned := by
  cases count with
  | none => exact ⟨rfl, by decide, by decide⟩
  | some value =>
    cases value with
    | number n =>
      cases n with
      | whole n =>
        have hsigned : n.signed? = some n.val := if_pos h.2
        exact ⟨hsigned, h.1, h.2⟩
      | double x => exact False.elim h
    | _ => exact False.elim h

theorem Counts.exists_whole {count : Option Value} (h : Counts count) (hsome : count ≠ none) :
    ∃ n, count = some (.number (.whole n)) := by
  cases count with
  | none => exact absurd rfl hsome
  | some value =>
    cases value with
    | number n =>
      cases n with
      | whole n => exact ⟨n, rfl⟩
      | double x => exact False.elim h
    | _ => exact False.elim h

theorem addCounts_of_counts {mine theirs : Option Value} (h : Counts mine)
    (h' : Counts theirs) : addCounts mine theirs = .ofWhole (amount mine + amount theirs) := by
  unfold addCounts
  rw [h.whole.1, h'.whole.1]

theorem amount_ofWhole {n : Int} (h : 0 ≤ n) :
    amount (some (.ofWhole n)) = min greatestSigned n := by
  show saturate n = min greatestSigned n
  have hleast : leastSigned ≤ 0 := by decide
  have hgreatest : (0 : Int) ≤ greatestSigned := by decide
  unfold saturate
  omega

theorem counts_ofWhole {n : Int} (h : 0 ≤ n) : Counts (some (.ofWhole n)) := by
  have hvalue : (Whole.saturated n).val = min greatestSigned n := amount_ofWhole h
  show 0 ≤ (Whole.saturated n).val ∧ (Whole.saturated n).val ≤ greatestSigned
  have hgreatest : (0 : Int) ≤ greatestSigned := by decide
  rw [hvalue]
  omega

theorem Counts.tally {mine theirs : Option Value} (h : Counts mine) (h' : Counts theirs) :
    Counts (tally mine theirs) ∧
      amount (PlanFold.tally mine theirs) = min greatestSigned (amount mine + amount theirs) ∧
      (PlanFold.tally mine theirs = none ↔ mine = none ∧ theirs = none) := by
  have hpos : 0 ≤ amount mine + amount theirs := Int.add_nonneg h.whole.2.1 h'.whole.2.1
  have hsum := addCounts_of_counts h h'
  cases mine with
  | none =>
    cases theirs with
    | none => exact ⟨trivial, rfl, by simp [PlanFold.tally]⟩
    | some value =>
      simp only [PlanFold.tally, hsum]
      exact ⟨counts_ofWhole hpos, amount_ofWhole hpos, by simp⟩
  | some value =>
    simp only [PlanFold.tally, hsum]
    exact ⟨counts_ofWhole hpos, amount_ofWhole hpos, by simp⟩

def tallyAll (own : Option Value) (received : List (Option Value)) : Option Value :=
  received.foldl tally own

theorem tallyAll_append (own : Option Value) (received others : List (Option Value)) :
    tallyAll own (received ++ others) = tallyAll (tallyAll own received) others :=
  List.foldl_append

theorem amounts_nonneg {received : List (Option Value)} (h : ∀ count ∈ received, Counts count) :
    0 ≤ (received.map amount).sum := by
  induction received with
  | nil => decide
  | cons count rest ih =>
    have hfirst := (h count (by simp)).whole.2.1
    have hrest := ih fun other ho => h other (by simp [ho])
    rw [List.map_cons, List.sum_cons]
    omega

/-- Cutting off each sum on the way comes to cutting off the last one. -/
theorem tallyAll_counts {own : Option Value} {received : List (Option Value)}
    (hown : Counts own) (hreceived : ∀ count ∈ received, Counts count) :
    Counts (tallyAll own received) ∧
      amount (tallyAll own received) =
        min greatestSigned (amount own + (received.map amount).sum) ∧
      (tallyAll own received = none ↔ own = none ∧ ∀ count ∈ received, count = none) := by
  -- the own count is generalised: it is the sum so far, itself a count by `Counts.tally`
  induction received generalizing own with
  | nil =>
    have hbound := hown.whole.2.2
    refine ⟨hown, ?_, by simp [tallyAll]⟩
    show amount own = min greatestSigned (amount own + 0)
    omega
  | cons count rest ih =>
    obtain ⟨hcounts, hamount, hnone⟩ := hown.tally (hreceived count (by simp))
    have hrest : ∀ other ∈ rest, Counts other := fun other ho => hreceived other (by simp [ho])
    obtain ⟨hcounts', hamount', hnone'⟩ := ih hcounts hrest
    have hpos := amounts_nonneg hrest
    refine ⟨hcounts', ?_, ?_⟩
    · rw [hamount] at hamount'
      rw [List.map_cons, List.sum_cons]
      show amount (tallyAll (tally own count) rest) = _
      omega
    · show tallyAll (tally own count) rest = none ↔ _
      rw [hnone', hnone]
      simp [and_assoc]

namespace StepResult

def count? (result : StepResult) (counter : String) : Option Value :=
  result.metadata?.bind fun metadata => Fields.get? counter metadata

end StepResult

section counter

variable {counter : String}

theorem get?_addCounter (child fields : Fields) (other : String) :
    (addCounter child fields other).get? counter =
      if other = counter then tally (fields.get? counter) (child.get? counter)
      else fields.get? counter := by
  unfold addCounter
  by_cases ho : other = counter
  · subst ho
    rw [if_pos rfl]
    cases hf : fields.get? other with
    | none =>
      cases child.get? other with
      | none => exact hf
      | some theirs => exact Fields.get?_insert_self _ _ _
    | some mine => exact Fields.get?_insert_self _ _ _
  · rw [if_neg ho]
    cases fields.get? other with
    | none =>
      cases child.get? other with
      | none => rfl
      | some theirs => exact Fields.get?_insert_of_ne ho _ _
    | some mine => exact Fields.get?_insert_of_ne ho _ _

theorem get?_foldl_of_notMem {counters : List String} {change : Fields → String → Fields}
    (hchange : ∀ fields other, other ≠ counter →
      (change fields other).get? counter = fields.get? counter)
    (h : counter ∉ counters) (fields : Fields) :
    (counters.foldl change fields).get? counter = fields.get? counter := by
  induction counters generalizing fields with
  | nil => rfl
  | cons other rest ih =>
    have hne : other ≠ counter := fun e => h (by simp [e])
    have hrest : counter ∉ rest := fun hm => h (by simp [hm])
    rw [List.foldl_cons, ih hrest, hchange fields other hne]

theorem get?_addCounter_of_ne (child fields : Fields) (other : String) (h : other ≠ counter) :
    (addCounter child fields other).get? counter = fields.get? counter := by
  rw [get?_addCounter, if_neg h]

theorem get?_addCounters (counters : List String) (child fields : Fields) :
    (counters.foldl (addCounter child) fields).get? counter =
      tallyAll (fields.get? counter)
        (List.replicate (counters.count counter) (child.get? counter)) := by
  induction counters generalizing fields with
  | nil => rfl
  | cons other rest ih =>
    rw [List.foldl_cons, ih, get?_addCounter]
    by_cases ho : other = counter
    · subst ho
      rw [if_pos rfl, List.count_cons_self, List.replicate_succ]
      rfl
    · rw [if_neg ho, List.count_cons_of_ne ho]

theorem get?_metadata_getD (child : StepResult) :
    (child.metadata?.getD []).get? counter = child.count? counter := by
  unfold StepResult.count?
  cases child.metadata? <;> rfl

theorem count?_mapMetadata (result : StepResult) {change : Fields → Fields}
    (h : ∀ metadata, (change metadata).get? counter = metadata.get? counter) :
    (result.mapMetadata change).count? counter = result.count? counter := by
  unfold StepResult.count?
  rw [result.metadata?_mapMetadata]
  cases result.metadata? with
  | none => rfl
  | some metadata => exact h metadata

theorem count?_addEffort_listed {result : StepResult} {metadata : Fields}
    (hmetadata : result.metadata? = some metadata) (child : StepResult) (counters : List String)
    (counter : String) : (result.addEffort child counters).count? counter =
      tallyAll (result.count? counter)
        (List.replicate (counters.count counter) (child.count? counter)) := by
  have hadded : (result.addEffort child counters).count? counter =
      (counters.foldl (addCounter (child.metadata?.getD [])) metadata).get? counter := by
    unfold StepResult.count? StepResult.addEffort
    rw [result.metadata?_mapMetadata, hmetadata]
    rfl
  have hown : result.count? counter = metadata.get? counter := by
    unfold StepResult.count?
    rw [hmetadata]
    rfl
  rw [hadded, get?_addCounters, get?_metadata_getD, hown]

theorem count?_addEffort {counters : List String} (hdistinct : counters.Nodup)
    (hmem : counter ∈ counters) {result : StepResult} {metadata : Fields}
    (hmetadata : result.metadata? = some metadata) (child : StepResult) :
    (result.addEffort child counters).count? counter =
      tally (result.count? counter) (child.count? counter) := by
  have honce : counters.count counter = 1 := List.count_eq_one_of_mem hdistinct hmem
  rw [count?_addEffort_listed hmetadata, honce]
  rfl

theorem count?_addEfforts {counters : List String} (hdistinct : counters.Nodup)
    (hmem : counter ∈ counters) {result : StepResult} {metadata : Fields}
    (hmetadata : result.metadata? = some metadata) (children : List StepResult) :
    (result.addEfforts children counters).count? counter =
      tallyAll (result.count? counter) (children.map fun child => child.count? counter) := by
  induction children generalizing result metadata with
  | nil => rfl
  | cons child rest ih =>
    have hnext : (result.addEffort child counters).metadata? =
        some (counters.foldl (addCounter (child.metadata?.getD [])) metadata) := by
      unfold StepResult.addEffort
      rw [result.metadata?_mapMetadata, hmetadata]
      rfl
    show ((result.addEffort child counters).addEfforts rest counters).count? counter = _
    rw [ih hnext, count?_addEffort hdistinct hmem hmetadata]
    rfl

theorem get?_zeroCounter_of_ne (fields : Fields) (other : String) (h : other ≠ counter) :
    (StepResult.zeroCounter fields other).get? counter = fields.get? counter := by
  unfold StepResult.zeroCounter
  split
  · exact Fields.get?_insert_of_ne h _ _
  · rfl

theorem get?_newest (h : counter ≠ "updated_at") (source : StepResult) (metadata : Fields) :
    (newest source metadata).get? counter = metadata.get? counter := by
  unfold newest
  split
  · split
    · exact Fields.get?_insert_of_ne h.symm _ _
    · rfl
  · rfl

theorem count?_rewritten (h : counter ≠ "updated_at") {before after : StepResult}
    (hwritten : Rewritten before after) : after.count? counter = before.count? counter := by
  rcases hwritten with rfl | ⟨_, source, value, rfl⟩
  · rfl
  · have hcontent : ((before.mapMetadata (newest source)).setContent value).count? counter =
        (before.mapMetadata (newest source)).count? counter := by
      unfold StepResult.count?
      rw [StepResult.metadata?_setContent]
    rw [hcontent, count?_mapMetadata before (get?_newest h source)]

end counter

namespace Interpreter

variable {interpreter : Interpreter} {node : Node} {counter : String}

theorem count?_descend {folding : Folding} {counters : List String}
    (hskip : folding.skipPending = false ∨ counter ∉ counters) :
    (folding.descend counters).result.count? counter = folding.result.count? counter := by
  unfold Folding.descend
  cases hpending : folding.skipPending with
  | false => rfl
  | true =>
    have hnot : counter ∉ counters := hskip.resolve_left (by simp [hpending])
    exact count?_mapMetadata folding.result (get?_foldl_of_notMem get?_zeroCounter_of_ne hnot)

theorem count?_carried {folding folding' : Folding} {directive : Scope × Branch}
    {history after : History} {received : List StepResult} {metadata : Fields}
    (hhook : interpreter.host.mergeDown = none)
    (hdistinct : interpreter.settings.effortCounters.Nodup)
    (hmem : counter ∈ interpreter.settings.effortCounters) (hstamp : counter ≠ "updated_at")
    (hskip : folding.skipPending = false ∨ counter ∉ interpreter.settings.pageCountFields)
    (hmetadata : folding.result.metadata? = some metadata)
    (h : Carried interpreter node folding directive history received folding' after) :
    folding'.result.count? counter = tallyAll (folding.result.count? counter)
      (received.map fun child => child.count? counter) := by
  obtain ⟨_, start, hstart, hwritten⟩ := carried_result hhook h
  have hdescended : start.count? counter = folding.result.count? counter ∧
      ∃ changed, start.metadata? = some changed := by
    rcases hstart with rfl | rfl
    · exact ⟨rfl, metadata, hmetadata⟩
    · obtain ⟨changed, hchanged, _⟩ :=
        (framed_descend interpreter.settings folding).metadata metadata hmetadata
      exact ⟨count?_descend hskip, changed, hchanged⟩
  obtain ⟨hcount, changed, hchanged⟩ := hdescended
  rw [count?_rewritten hstamp hwritten, count?_addEfforts hdistinct hmem hchanged, hcount]

theorem count?_carriedAll {folding folding' : Folding} {directives : List (Scope × Branch)}
    {history after : History} {received : List StepResult} {metadata : Fields}
    (hhook : interpreter.host.mergeDown = none)
    (hdistinct : interpreter.settings.effortCounters.Nodup)
    (hmem : counter ∈ interpreter.settings.effortCounters) (hstamp : counter ≠ "updated_at")
    (hskip : folding.skipPending = false ∨ counter ∉ interpreter.settings.pageCountFields)
    (hmetadata : folding.result.metadata? = some metadata)
    (h : CarriedAll interpreter node folding directives history received folding' after) :
    (folding'.skipPending = false ∨ counter ∉ interpreter.settings.pageCountFields) ∧
      folding'.result.count? counter = tallyAll (folding.result.count? counter)
        (received.map fun child => child.count? counter) := by
  induction h generalizing metadata with
  | nil => exact ⟨hskip, rfl⟩
  | cons hone _ ih =>
    have hcount := count?_carried hhook hdistinct hmem hstamp hskip hmetadata hone
    obtain ⟨changed, hchanged, _⟩ := (framed_carried hhook hone).metadata metadata hmetadata
    obtain ⟨hskip', hcount'⟩ := ih (.inl (carried_result hhook hone).1) hchanged
    refine ⟨hskip', ?_⟩
    rw [hcount', hcount, List.map_append, tallyAll_append]

theorem ran_count? {args : List Value} {plan : Plan} {state : State}
    {history stepped after : History} {binding : String} {own final : StepResult}
    {received : List StepResult} {metadata : Fields}
    (hhook : interpreter.host.mergeDown = none)
    (hdistinct : interpreter.settings.effortCounters.Nodup)
    (hmem : counter ∈ interpreter.settings.effortCounters) (hstamp : counter ≠ "updated_at")
    (hskip : plan.skipsPageCount = false ∨ counter ∉ interpreter.settings.pageCountFields)
    (hmetadata : own.metadata? = some metadata)
    (hran : Ran interpreter args plan state history binding own stepped received final after) :
    final.count? counter =
      tallyAll (own.count? counter) (received.map fun child => child.count? counter) := by
  obtain ⟨folding, hall, hfinal⟩ := hran.children
  obtain ⟨hskip', hcount⟩ :=
    count?_carriedAll hhook hdistinct hmem hstamp hskip hmetadata hall
  rw [← hfinal]
  exact (count?_descend hskip').trans hcount

/-- The sum of a counter over a node and the child results it received. -/
theorem ran_sum {args : List Value} {plan : Plan} {state : State} {history stepped after : History}
    {binding : String} {own final : StepResult} {received : List StepResult} {metadata : Fields}
    (hhook : interpreter.host.mergeDown = none)
    (hdistinct : interpreter.settings.effortCounters.Nodup)
    (hmem : counter ∈ interpreter.settings.effortCounters) (hstamp : counter ≠ "updated_at")
    (hskip : plan.skipsPageCount = false ∨ counter ∉ interpreter.settings.pageCountFields)
    (hmetadata : own.metadata? = some metadata) (hown : Counts (own.count? counter))
    (hreceived : ∀ child ∈ received, Counts (child.count? counter))
    (hran : Ran interpreter args plan state history binding own stepped received final after) :
    (final.count? counter = none ↔
      own.count? counter = none ∧ ∀ child ∈ received, child.count? counter = none) ∧
    (final.count? counter ≠ none → ∃ n : Whole,
      final.count? counter = some (.number (.whole n)) ∧
      n.val = min greatestSigned (amount (own.count? counter) +
        (received.map fun child => amount (child.count? counter)).sum)) := by
  have hcount := ran_count? hhook hdistinct hmem hstamp hskip hmetadata hran
  have hreceived' : ∀ count ∈ received.map fun child => child.count? counter, Counts count := by
    intro count hc
    obtain ⟨child, hchild, rfl⟩ := List.mem_map.mp hc
    exact hreceived child hchild
  obtain ⟨hcounts, hamount, hnone⟩ := tallyAll_counts hown hreceived'
  rw [← hcount] at hcounts hamount hnone
  constructor
  · rw [hnone]
    simp
  · intro hsome
    obtain ⟨n, hn⟩ := hcounts.exists_whole hsome
    refine ⟨n, hn, ?_⟩
    rw [hn, List.map_map] at hamount
    exact hamount

/-- In a run that succeeds the effort every node returns is its own and that of the
child results it received, each counted once; a node without metadata counts
nothing. -/
theorem runPlan_effort {args : List Value} {root : Entry} {final : StepResult} {after : History}
    (hhook : interpreter.host.mergeDown = none)
    (hdistinct : interpreter.settings.effortCounters.Nodup)
    (hrun : runPlan interpreter args root.plan root.state root.history = .ok final after) :
    ∀ trail entry, Path interpreter args root trail entry →
      (∃ binding own stepped received result last,
        runPlan interpreter args entry.plan entry.state entry.history = .ok result last ∧
        Ran interpreter args entry.plan entry.state entry.history binding own stepped received
          result last) ∧
      ∀ binding own stepped received result last,
        Ran interpreter args entry.plan entry.state entry.history binding own stepped received
          result last →
        (own.metadata? = none →
          result.metadata? = none ∧
            result.fields.get? "metadata" = own.fields.get? "metadata") ∧
        ∀ metadata counter, own.metadata? = some metadata →
          counter ∈ interpreter.settings.effortCounters → counter ≠ "updated_at" →
          (entry.plan.skipsPageCount = false ∨
            counter ∉ interpreter.settings.pageCountFields) →
          Counts (own.count? counter) → (∀ child ∈ received, Counts (child.count? counter)) →
          (∃ changed, result.metadata? = some changed) ∧
          (result.count? counter = none ↔
            own.count? counter = none ∧ ∀ child ∈ received, child.count? counter = none) ∧
          (result.count? counter ≠ none → ∃ n : Whole,
            result.count? counter = some (.number (.whole n)) ∧
            n.val = min greatestSigned (amount (own.count? counter) +
              (received.map fun child => amount (child.count? counter)).sum)) := by
  intro trail entry hpath
  constructor
  · obtain ⟨result, last, hresult⟩ := hpath.succeeds hrun
    obtain ⟨binding, own, stepped, received, hran⟩ := ran_of_ok hresult
    exact ⟨binding, own, stepped, received, result, last, hresult, hran⟩
  · intro binding own stepped received result last hran
    have hframed := ran_framed hhook hran
    constructor
    · intro hnone
      have hsame := hframed.plain hnone
      refine ⟨?_, hsame⟩
      unfold StepResult.metadata? at hnone ⊢
      rw [hsame, hnone]
    · intro metadata counter hmetadata hmem hstamp hskip hown hreceived
      obtain ⟨changed, hchanged, _⟩ := hframed.metadata metadata hmetadata
      exact ⟨⟨changed, hchanged⟩,
        ran_sum hhook hdistinct hmem hstamp hskip hmetadata hown hreceived hran⟩

/-- Of two elements one has a default and the other a detached child. -/
theorem runPlan_effort_each :
    let order : StepResult := ⟨[("content", .mapping [("lines", .list [.bool true, .null])]),
      ("metadata", .mapping [("request_count", .ofWhole 1)])]⟩
    let line : StepResult := ⟨[("metadata", .mapping [("request_count", .ofWhole 2)])]⟩
    let child : Plan :=
      { (Plan.named "line").attach .detached with defaultRule := some (.null, .null) }
    let plan := ((Plan.named "order").attach .detached).fanOut (.each "lines") child
    let interpreter : Interpreter := ⟨.scripted [order, line], .standard⟩
    let stepped : History := [.run ⟨plan.fields⟩ []]
    let after : History := [.run ⟨plan.fields⟩ [], .run ⟨child.fields⟩ []]
    let final : StepResult := ⟨[("content", .mapping [("lines", .list [.bool true, .null])]),
      ("metadata", .mapping [("request_count", .ofWhole 3)])]⟩
    interpreter.host.mergeDown = none ∧ interpreter.settings.effortCounters.Nodup ∧
      runPlan interpreter [] plan .empty [] = .ok final after ∧
      Ran interpreter [] plan .empty [] "order" order stepped [line] final after ∧
      ∃ n : Whole, final.count? "request_count" = some (.number (.whole n)) ∧
        n.val = min greatestSigned (1 + 2) := by
  intro order line child plan interpreter stepped after final
  have hhook : interpreter.host.mergeDown = none := rfl
  have hdistinct : interpreter.settings.effortCounters.Nodup := by decide
  have hrun : runPlan interpreter [] plan .empty [] = .ok final after := rfl
  have hran : Ran interpreter [] plan .empty [] "order" order stepped [line] final after :=
    ⟨rfl, rfl, ⟨final, false⟩,
      .cons (.each rfl rfl (.child rfl rfl rfl (.default rfl rfl .nil))) .nil, rfl⟩
  let root : Entry := ⟨plan, .empty, []⟩
  obtain ⟨_, hlaw⟩ := runPlan_effort hhook hdistinct hrun [] root .root
  obtain ⟨_, hcounts⟩ := hlaw _ _ _ _ _ _ hran
  have hown : Counts (order.count? "request_count") := by
    show (0 : Int) ≤ 1 ∧ 1 ≤ greatestSigned
    decide
  have hreceived : ∀ result ∈ [line], Counts (result.count? "request_count") := by
    intro result hresult
    rw [List.mem_singleton.mp hresult]
    show (0 : Int) ≤ 2 ∧ 2 ≤ greatestSigned
    decide
  obtain ⟨_, _, hcount⟩ := hcounts [("request_count", .ofWhole 1)] "request_count" rfl
    (by decide) (by decide) (.inl rfl) hown hreceived
  exact ⟨hhook, hdistinct, hrun, hran, hcount (Option.some_ne_none _)⟩

end Interpreter

end PlanFold
