import PlanFold.Proofs.EffortLedger

/-!
# Skipping page counts

A node that skips page counts gives up its own count once a child is to run, or
at its end when no directive has kept it. What decides is the fate of its
directives, and the first one alone: a directive that is passed over keeps the
count, and one that descends gives it up. A first scope without an element to
run on keeps the count too, where the description of the flag asks for zero.

The counts of the children received are added in every case.
-/

set_option autoImplicit false

namespace PlanFold

def Scope.Starved (scope : Scope) (result : StepResult) : Prop :=
  result.content.isNull = true ∨
    ∃ list, scope.list? = some list ∧ ((result.content.field? list).getD .null).isNull = true

theorem Counts.get?_newest {counter : String} {metadata : Fields}
    (h : Counts (metadata.get? counter)) (source : StepResult) :
    (newest source metadata).get? counter = metadata.get? counter := by
  by_cases hc : counter = "updated_at"
  · subst hc
    have hnone : updatedAt? metadata = none := by
      unfold updatedAt?
      cases hget : metadata.get? "updated_at" with
      | none => rfl
      | some value =>
        obtain ⟨n, hn⟩ := Counts.exists_whole (hget ▸ h) (by simp)
        cases hn
        rfl
    unfold newest
    rw [hnone]
    cases source.metadata?.bind updatedAt? <;> rfl
  · exact PlanFold.get?_newest hc source metadata

theorem get?_foldl_zeroCounter (counters : List String) (fields : Fields) (counter : String) :
    (counters.foldl StepResult.zeroCounter fields).get? counter =
      if counter ∈ counters then (fields.get? counter).map fun _ => .ofWhole 0
      else fields.get? counter := by
  induction counters generalizing fields with
  | nil => rfl
  | cons other rest ih =>
    have hfirst : (StepResult.zeroCounter fields other).get? counter =
        if other = counter then (fields.get? counter).map fun _ => .ofWhole 0
        else fields.get? counter := by
      unfold StepResult.zeroCounter Fields.contains
      by_cases ho : other = counter
      · subst ho
        cases hget : fields.get? other <;> simp [hget, Fields.get?_insert]
      · split <;> simp [Fields.get?_insert, ho]
    rw [List.foldl_cons, ih, hfirst]
    by_cases ho : other = counter
    · cases fields.get? counter <;> simp [ho]
    · simp [ho, Ne.symm ho]

theorem get?_zeroCounters {counter : String} {counters : List String} (h : counter ∈ counters)
    {fields : Fields} (hin : fields.contains counter = true) :
    (counters.foldl StepResult.zeroCounter fields).get? counter = some (.ofWhole 0) := by
  obtain ⟨value, hvalue⟩ := Option.isSome_iff_exists.mp hin
  rw [get?_foldl_zeroCounter, if_pos h, hvalue]
  rfl

theorem Counts.count?_rewritten {counter : String} {before after : StepResult}
    (h : Counts (before.count? counter)) (hwritten : Rewritten before after) :
    after.count? counter = before.count? counter := by
  rcases hwritten with rfl | ⟨_, source, value, rfl⟩
  · rfl
  · unfold StepResult.count? at h ⊢
    rw [StepResult.metadata?_setContent, StepResult.metadata?_mapMetadata]
    cases hm : before.metadata? with
    | none => rfl
    | some metadata =>
      rw [hm] at h
      exact Counts.get?_newest h source

namespace Interpreter

inductive Fate where
  | passedOver
  | descended
  | idle
deriving DecidableEq

def Fate.Of (node : Node) (result : StepResult) (directive : Scope × Branch) : Fate → Prop
  | .passedOver => directive.1.Starved result
  | .descended => (∃ branch bound, RunsOnce node result directive branch bound) ∨
      ∃ list items, directive.1 = .each list ∧
        result.content.field? list = some (.list items)
  | .idle => ∃ list items, directive.1 = .first list ∧
      result.content.field? list = some (.list items) ∧
      (∀ item ∈ items, Selection.isPrimary node.plan.partition item = false) ∧
      (items = [] ∨ node.fallback = none)

inductive Fated (interpreter : Interpreter) (node : Node) :
    Folding → List (Scope × Branch) → History → List Fate → Prop
  | nil {folding : Folding} {history : History} : Fated interpreter node folding [] history []
  | cons {folding folding' : Folding} {directive : Scope × Branch}
      {rest : List (Scope × Branch)} {history between : History} {fate : Fate}
      {fates : List Fate} :
      fate.Of node folding.result directive →
      direct interpreter node folding directive history = .ok folding' between →
      Fated interpreter node folding' rest between fates →
      Fated interpreter node folding (directive :: rest) history (fate :: fates)

/-- Some directive is passed over, and none before it descends. -/
def Spared (fates : List Fate) : Prop :=
  ∃ before rest, fates = before ++ .passedOver :: rest ∧ .descended ∉ before

def Keeping (fates : List Fate) : Prop := Spared fates ∨ fates.head? = some .idle

variable {interpreter : Interpreter} {node : Node} {counter : String}

def Choice.fate : Choice → Fate
  | .passOver => .passedOver
  | .once _ _ => .descended
  | .nothing => .idle
  | .each _ _ => .descended

theorem starved_of_items {result : StepResult} {scope : Scope} {list : String}
    (hscope : scope.list? = some list) (h : listItems result list = .ok none) :
    scope.Starved result := by
  refine .inr ⟨list, hscope, ?_⟩
  unfold listItems at h
  split at h
  · rename_i hfield
    rw [hfield]
    rfl
  · rename_i hfield
    rw [hfield]
    rfl
  · cases h
  · cases h

theorem starved_of_choose {result : StepResult} {directive : Scope × Branch}
    (h : choose node result directive = .ok .passOver) : directive.1.Starved result := by
  obtain ⟨scope, branch⟩ := directive
  have hlist : ∀ {list : String} {f : List Value → Choice}, scope.list? = some list →
      (∀ items, f items ≠ .passOver) →
      ((listItems result list).map fun items => items.elim .passOver f) = .ok .passOver →
      scope.Starved result := by
    intro list f hscope hf hmap
    cases hitems : listItems result list with
    | error e =>
      rw [hitems] at hmap
      cases hmap
    | ok found =>
      cases found with
      | none => exact starved_of_items hscope hitems
      | some items =>
        rw [hitems] at hmap
        exact absurd (Except.ok.inj hmap) (hf items)
  unfold choose at h
  cases scope with
  | this =>
    cases hnull : result.content.isNull with
    | true => exact .inl hnull
    | false => simp [hnull] at h
  | first list =>
    refine hlist rfl ?_ h
    intro items hchoice
    unfold chooseFirst at hchoice
    split at hchoice <;> cases hchoice
  | each list => exact hlist rfl (by simp) h

theorem idle_of_choose {result : StepResult} {directive : Scope × Branch}
    (h : choose node result directive = .ok .nothing) :
    ∃ list items, directive.1 = .first list ∧
      result.content.field? list = some (.list items) ∧
      (∀ item ∈ items, Selection.isPrimary node.plan.partition item = false) ∧
      (items = [] ∨ node.fallback = none) := by
  obtain ⟨scope, branch⟩ := directive
  unfold choose at h
  cases scope with
  | this => cases hnull : result.content.isNull <;> simp [hnull] at h
  | first list =>
    obtain ⟨items, hitems, hchoice⟩ := items_of_map h (by simp)
    refine ⟨list, items, rfl, listItems_some hitems, ?_⟩
    unfold chooseFirst at hchoice
    cases hfind : items.find? (Selection.isPrimary node.plan.partition) with
    | some element =>
      rw [hfind] at hchoice
      cases hchoice
    | none =>
      refine ⟨fun item hitem => by simpa using List.find?_eq_none.mp hfind item hitem, ?_⟩
      rw [hfind] at hchoice
      cases items with
      | nil => exact .inl rfl
      | cons item rest =>
        cases hfallback : node.fallback with
        | none => exact .inr rfl
        | some fallback =>
          rw [hfallback] at hchoice
          cases hchoice
  | each list =>
    obtain ⟨items, _, hchoice⟩ := items_of_map h (by simp)
    cases hchoice

theorem fate_of_choose {result : StepResult} {directive : Scope × Branch} {choice : Choice}
    (h : choose node result directive = .ok choice) : choice.fate.Of node result directive := by
  cases choice with
  | passOver => exact starved_of_choose h
  | once branch bound => exact .inl ⟨branch, bound, runsOnce_of_choose h⟩
  | nothing => exact idle_of_choose h
  | each list items => exact .inr ⟨list, items, each_of_choose h⟩

theorem choose_of_starved {result : StepResult} {directive : Scope × Branch}
    (h : directive.1.Starved result) : choose node result directive = .ok .passOver := by
  obtain ⟨scope, branch⟩ := directive
  have hitems : ∀ {list : String}, scope.list? = some list →
      listItems result list = .ok none := by
    intro list hscope
    unfold listItems
    rcases h with hnull | ⟨other, hother, hnull⟩
    · cases hc : result.content with
      | null => rfl
      | _ => simp [hc, Value.isNull] at hnull
    · have hsame : other = list := Option.some.inj (hother.symm.trans hscope)
      subst hsame
      cases hfield : result.content.field? other with
      | none => rfl
      | some value =>
        rw [hfield] at hnull
        cases value with
        | null => rfl
        | _ => cases hnull
  unfold choose
  cases scope with
  | this =>
    rcases h with hnull | ⟨_, hlist, _⟩
    · simp only [hnull, if_true]
    · cases hlist
  | first list =>
    simp only [hitems rfl]
    rfl
  | each list =>
    simp only [hitems rfl]
    rfl

theorem choose_of_idle {result : StepResult} {directive : Scope × Branch} {list : String}
    {items : List Value} (hscope : directive.1 = .first list)
    (hfield : result.content.field? list = some (.list items))
    (hresidual : ∀ item ∈ items, Selection.isPrimary node.plan.partition item = false)
    (hnone : items = [] ∨ node.fallback = none) :
    choose node result directive = .ok .nothing := by
  have hfind : items.find? (Selection.isPrimary node.plan.partition) = none := by
    apply List.find?_eq_none.mpr
    intro item hitem
    simp [hresidual item hitem]
  unfold choose
  rw [hscope]
  simp only [listItems_of_field hfield, Except.map, Option.elim, chooseFirst, hfind]
  rcases hnone with rfl | hnone
  · rfl
  · rw [hnone]
    cases items <;> rfl

theorem choose_of_fate {result : StepResult} {directive : Scope × Branch} {fate : Fate}
    (h : fate.Of node result directive) :
    ∃ choice, choose node result directive = .ok choice ∧ choice.fate = fate := by
  cases fate with
  | passedOver => exact ⟨_, choose_of_starved h, rfl⟩
  | descended =>
    rcases h with ⟨branch, bound, hruns⟩ | ⟨list, items, hscope, hfield⟩
    · exact ⟨_, choose_of_runsOnce hruns, rfl⟩
    · exact ⟨_, choose_of_each hscope hfield, rfl⟩
  | idle =>
    obtain ⟨list, items, hscope, hfield, hresidual, hnone⟩ := h
    exact ⟨_, choose_of_idle hscope hfield hresidual hnone, rfl⟩

theorem counts_tallied {own : Option Value} {received : List StepResult} (hown : Counts own)
    (hreceived : ∀ child ∈ received, Counts (child.count? counter)) :
    Counts (tallyAll own (received.map fun child => child.count? counter)) := by
  refine (tallyAll_counts hown ?_).1
  intro count hcount
  obtain ⟨child, hchild, rfl⟩ := List.mem_map.mp hcount
  exact hreceived child hchild

/-- A result that is the start with the effort of children and then rewritten
holds the tally of their counts. -/
theorem count?_received {start after : StepResult} {received : List StepResult}
    (hdistinct : interpreter.settings.effortCounters.Nodup)
    (hmem : counter ∈ interpreter.settings.effortCounters) {metadata : Fields}
    (hmetadata : start.metadata? = some metadata) (hstart : Counts (start.count? counter))
    (hreceived : ∀ child ∈ received, Counts (child.count? counter))
    (h : Rewritten (start.addEfforts received interpreter.settings.effortCounters) after) :
    after.count? counter = tallyAll (start.count? counter)
      (received.map fun child => child.count? counter) := by
  have htally := count?_addEfforts hdistinct hmem hmetadata received
  have hcounts := counts_tallied hstart hreceived
  rw [← htally] at hcounts
  rw [hcounts.count?_rewritten h, htally]

theorem count?_settled {folding folding' : Folding} {directives : List (Scope × Branch)}
    {history after : History} {received : List StepResult} {metadata : Fields}
    (hhook : interpreter.host.mergeDown = none)
    (hdistinct : interpreter.settings.effortCounters.Nodup)
    (hmem : counter ∈ interpreter.settings.effortCounters)
    (hsettled : folding.skipPending = false)
    (hmetadata : folding.result.metadata? = some metadata)
    (hown : Counts (folding.result.count? counter))
    (hreceived : ∀ child ∈ received, Counts (child.count? counter))
    (h : CarriedAll interpreter node folding directives history received folding' after) :
    folding'.skipPending = false ∧
      folding'.result.count? counter = tallyAll (folding.result.count? counter)
        (received.map fun child => child.count? counter) := by
  induction h generalizing metadata with
  | nil => exact ⟨hsettled, rfl⟩
  | @cons folding folding₁ _ directive rest _ _ _ received others hone _ ih =>
    have hfirst : ∀ child ∈ received, Counts (child.count? counter) :=
      fun child hc => hreceived child (List.mem_append_left _ hc)
    obtain ⟨hsettled', start, hstart, hwritten⟩ := carried_result hhook hone
    have hsame : start = folding.result := by
      rcases hstart with rfl | rfl
      · rfl
      · unfold Folding.descend
        rw [hsettled]
        rfl
    subst hsame
    have hcount := count?_received hdistinct hmem hmetadata hown hfirst hwritten
    obtain ⟨changed, hchanged, _⟩ := (framed_carried hhook hone).metadata metadata hmetadata
    have hcounts : Counts (folding₁.result.count? counter) := by
      rw [hcount]
      exact counts_tallied hown hfirst
    obtain ⟨hlast, hcount'⟩ := ih hsettled' hchanged hcounts
      fun child hc => hreceived child (List.mem_append_right _ hc)
    refine ⟨hlast, ?_⟩
    rw [hcount', hcount, List.map_append, tallyAll_append]

theorem fated_of_ok {directives : List (Scope × Branch)} {folding folding' : Folding}
    {history after : History}
    (h : directAll interpreter node folding directives history = .ok folding' after) :
    ∃ fates, Fated interpreter node folding directives history fates := by
  induction directives generalizing folding history with
  | nil => exact ⟨[], .nil⟩
  | cons directive rest ih =>
    obtain ⟨folding₁, between, hone, hrest⟩ := Run.bind_ok_iff.mp h
    obtain ⟨fates, hfates⟩ := ih hrest
    have hact := hone
    rw [direct_eq] at hact
    obtain ⟨choice, hchoice, _⟩ := Run.ofExcept_bind_ok_iff.mp hact
    exact ⟨choice.fate :: fates, .cons (fate_of_choose hchoice) hone hfates⟩

theorem not_keeping_of_descended {fates : List Fate} (h : fates.head? = some .descended) :
    ¬Keeping fates := by
  rintro (⟨before, rest, rfl, hnone⟩ | hidle)
  · cases before with
    | nil => cases h
    | cons first others => exact hnone (by simp [Option.some.inj h])
  · rw [h] at hidle
    cases hidle

theorem keeping_of_passedOver {fates : List Fate} (h : fates.head? = some .passedOver) :
    Keeping fates := by
  cases fates with
  | nil => cases h
  | cons first rest =>
    refine .inl ⟨[], rest, ?_, List.not_mem_nil⟩
    rw [Option.some.inj h]
    rfl

/-- The first choice decides both: where a directive sets out, and whether the own
counts are kept. -/
theorem keeping_or_not {choice : Choice} {fates : List Fate} (folding : Folding)
    (counters : List String) (h : fates.head? = some choice.fate) :
    (choice.start counters folding = folding.result ∧ Keeping fates) ∨
      (choice.start counters folding = (folding.descend counters).result ∧ ¬Keeping fates) := by
  cases choice with
  | passOver => exact .inl ⟨rfl, keeping_of_passedOver h⟩
  | once branch bound => exact .inr ⟨rfl, not_keeping_of_descended h⟩
  | nothing => exact .inl ⟨rfl, .inr h⟩
  | each list items => exact .inr ⟨rfl, not_keeping_of_descended h⟩

theorem not_keeping_nil : ¬Keeping [] := by
  rintro (⟨before, rest, hfates, _⟩ | hidle)
  · simp at hfates
  · cases hidle

theorem count?_zeroed {folding : Folding} {counters : List String} {metadata : Fields}
    (hpending : folding.skipPending = true) (hmetadata : folding.result.metadata? = some metadata)
    (hmem : counter ∈ counters) (hsome : folding.result.count? counter ≠ none) :
    (folding.descend counters).result.count? counter = some (.ofWhole 0) := by
  have hin : metadata.contains counter = true := by
    unfold StepResult.count? at hsome
    rw [hmetadata] at hsome
    exact Option.isSome_iff_ne_none.mpr hsome
  unfold Folding.descend
  rw [if_pos hpending]
  unfold StepResult.count? StepResult.zeroPageCounts
  rw [StepResult.metadata?_mapMetadata, hmetadata]
  exact get?_zeroCounters hmem hin

theorem amount_received {start : Option Value} {received : List StepResult}
    {result : StepResult} (hstart : Counts start) (hsome : start ≠ none)
    (hreceived : ∀ child ∈ received, Counts (child.count? counter))
    (hcount : result.count? counter =
      tallyAll start (received.map fun child => child.count? counter)) :
    ∃ n : Whole, result.count? counter = some (.number (.whole n)) ∧
      n.val = min greatestSigned (amount start +
        (received.map fun child => amount (child.count? counter)).sum) := by
  have hcounts : ∀ count ∈ received.map fun child => child.count? counter, Counts count := by
    intro count hc
    obtain ⟨child, hchild, rfl⟩ := List.mem_map.mp hc
    exact hreceived child hchild
  obtain ⟨htotal, hamount, hnone⟩ := tallyAll_counts hstart hcounts
  rw [← hcount] at htotal hamount hnone
  obtain ⟨n, hn⟩ := htotal.exists_whole fun h => hsome (hnone.mp h).1
  rw [hn, List.map_map] at hamount
  exact ⟨n, hn, hamount⟩

/-- The own page count is kept or given up as the fates of the directives say, and
the counts received are added to it. -/
theorem count?_pending {folding folding' : Folding} {directives : List (Scope × Branch)}
    {history after : History} {received : List StepResult} {metadata : Fields}
    (hhook : interpreter.host.mergeDown = none)
    (hdistinct : interpreter.settings.effortCounters.Nodup)
    (hmem : counter ∈ interpreter.settings.effortCounters)
    (hpage : counter ∈ interpreter.settings.pageCountFields)
    (hpending : folding.skipPending = true)
    (hmetadata : folding.result.metadata? = some metadata)
    (hsome : folding.result.count? counter ≠ none)
    (hown : Counts (folding.result.count? counter))
    (hreceived : ∀ child ∈ received, Counts (child.count? counter))
    (h : CarriedAll interpreter node folding directives history received folding' after)
    {fates : List Fate} (hfates : Fated interpreter node folding directives history fates) :
    ∃ own, Counts own ∧ own ≠ none ∧
      (folding'.close interpreter).count? counter =
        tallyAll own (received.map fun child => child.count? counter) ∧
      (Keeping fates → own = folding.result.count? counter) ∧
      (¬Keeping fates → own = some (.ofWhole 0)) := by
  have hzero : Counts (some (.ofWhole 0)) := counts_ofWhole (by decide)
  cases h with
  | nil =>
    cases hfates
    refine ⟨_, hzero, by simp, count?_zeroed hpending hmetadata hpage hsome, ?_, fun _ => rfl⟩
    intro hkeeping
    exact absurd hkeeping not_keeping_nil
  | @cons _ folding₁ _ directive rest _ _ _ received others hone hrest =>
    -- the first directive settles the matter, whatever it does
    obtain ⟨choice, hchoice, hsettled, hwritten⟩ := carried_start hhook hone
    have hfate : fates.head? = some choice.fate := by
      cases hfates with
      | cons hof _ _ =>
        obtain ⟨choice', hchoice', rfl⟩ := choose_of_fate hof
        rw [hchoice] at hchoice'
        cases hchoice'
        rfl
    have hfirst : ∀ child ∈ received, Counts (child.count? counter) :=
      fun child hc => hreceived child (List.mem_append_left _ hc)
    have hothers : ∀ child ∈ others, Counts (child.count? counter) :=
      fun child hc => hreceived child (List.mem_append_right _ hc)
    obtain ⟨changed, hchanged, _⟩ := (framed_carried hhook hone).metadata metadata hmetadata
    have hsum : ∀ {start : Fields},
        (choice.start interpreter.settings.pageCountFields folding).metadata? = some start →
        Counts ((choice.start interpreter.settings.pageCountFields folding).count? counter) →
        (folding'.close interpreter).count? counter =
          tallyAll ((choice.start interpreter.settings.pageCountFields folding).count? counter)
            ((received ++ others).map fun child => child.count? counter) := by
      intro start hstart hcounts
      have hcount := count?_received hdistinct hmem hstart hcounts hfirst hwritten
      have hcounts₁ : Counts (folding₁.result.count? counter) := by
        rw [hcount]
        exact counts_tallied hcounts hfirst
      obtain ⟨hlast, hcount'⟩ :=
        count?_settled hhook hdistinct hmem hsettled hchanged hcounts₁ hothers hrest
      unfold Folding.close
      rw [count?_descend (.inl hlast), hcount', hcount, List.map_append, tallyAll_append]
    rcases keeping_or_not folding interpreter.settings.pageCountFields hfate with
      ⟨hstart, hkeeping⟩ | ⟨hstart, hnot⟩
    · rw [hstart] at hsum
      exact ⟨_, hown, hsome, hsum hmetadata hown, fun _ => rfl, fun hnot => absurd hkeeping hnot⟩
    · obtain ⟨zeroed, hzeroed, _⟩ :=
        (framed_descend interpreter.settings folding).metadata metadata hmetadata
      rw [hstart, count?_zeroed hpending hmetadata hpage hsome] at hsum
      exact ⟨_, hzero, by simp, hsum hzeroed hzero, fun hkeeping => absurd hkeeping hnot,
        fun _ => rfl⟩

/-- In a run that succeeds, a node that skips page counts adds what its children
return to its own count when that is spared, and returns what they return
alone when it is not. Only a first scope that stands before all other
directives and is idle keeps the own count though nothing spared it. -/
theorem runPlan_pageCount {args : List Value} {root : Entry} {final : StepResult}
    {after : History} (hhook : interpreter.host.mergeDown = none)
    (hdistinct : interpreter.settings.effortCounters.Nodup)
    (hrun : runPlan interpreter args root.plan root.state root.history = .ok final after) :
    ∀ trail entry, Path interpreter args root trail entry →
      (∃ binding own stepped received fates result last,
        runPlan interpreter args entry.plan entry.state entry.history = .ok result last ∧
        Ran interpreter args entry.plan entry.state entry.history binding own stepped received
          result last ∧
        Fated interpreter (nodeOf interpreter args entry.plan entry.state binding own)
          (nodeOf interpreter args entry.plan entry.state binding own).start
          (branches interpreter args entry.plan.children) stepped fates) ∧
      ∀ binding own stepped received fates result last,
        Ran interpreter args entry.plan entry.state entry.history binding own stepped received
          result last →
        Fated interpreter (nodeOf interpreter args entry.plan entry.state binding own)
          (nodeOf interpreter args entry.plan entry.state binding own).start
          (branches interpreter args entry.plan.children) stepped fates →
        entry.plan.skipsPageCount = true →
        ∀ counter, counter ∈ interpreter.settings.pageCountFields →
          counter ∈ interpreter.settings.effortCounters → own.count? counter ≠ none →
          Counts (own.count? counter) → (∀ child ∈ received, Counts (child.count? counter)) →
          ∃ n : Whole, result.count? counter = some (.number (.whole n)) ∧
            (Spared fates → n.val = min greatestSigned (amount (own.count? counter) +
              (received.map fun child => amount (child.count? counter)).sum)) ∧
            (¬Spared fates → fates.head? ≠ some .idle → n.val = min greatestSigned
              (received.map fun child => amount (child.count? counter)).sum) ∧
            (fates.head? = some .idle → n.val = min greatestSigned
              (amount (own.count? counter) +
                (received.map fun child => amount (child.count? counter)).sum)) := by
  intro trail entry hpath
  constructor
  · obtain ⟨result, last, hresult⟩ := hpath.succeeds hrun
    obtain ⟨binding, own, stepped, folding, hvalid, hstep, hdirected, hclose⟩ :=
      stages_of_ok hresult
    obtain ⟨received, hall⟩ := carriedAll_of_ok hdirected
    obtain ⟨fates, hfates⟩ := fated_of_ok hdirected
    exact ⟨binding, own, stepped, received, fates, result, last, hresult,
      ⟨hvalid, hstep, folding, hall, hclose⟩, hfates⟩
  · intro binding own stepped received fates result last hran hfates hskips counter hpage hmem
      hsome hown hreceived
    obtain ⟨folding, hall, hclose⟩ := hran.children
    obtain ⟨metadata, hmetadata, _⟩ := Option.bind_eq_some_iff.mp
      (Option.eq_some_of_isSome (Option.isSome_iff_ne_none.mpr hsome))
    obtain ⟨start, hstart, hstartSome, hcount, hkept, hgiven⟩ :=
      count?_pending hhook hdistinct hmem hpage hskips hmetadata hsome hown hreceived hall hfates
    rw [hclose] at hcount
    obtain ⟨n, hn, hval⟩ := amount_received hstart hstartSome hreceived hcount
    refine ⟨n, hn, ?_, ?_, ?_⟩
    · intro hspared
      rw [hval, hkept (.inl hspared)]
      rfl
    · intro hspared hidle
      rw [hval, hgiven (not_or.mpr ⟨hspared, hidle⟩)]
      show min greatestSigned (0 + _) = _
      rw [zero_add]
    · intro hidle
      rw [hval, hkept (.inr hidle)]
      rfl

/-- The list of a first scope is absent, so the own count is spared, and the child
that runs then adds to it. -/
theorem runPlan_pageCount_spared :
    let order : StepResult := ⟨[("content", .mapping [("id", .null)]),
      ("metadata", .mapping [("page_count_live", .ofWhole 5)])]⟩
    let detail : StepResult := ⟨[("metadata", .mapping [("page_count_live", .ofWhole 2)])]⟩
    let child := (Plan.named "detail").attach .detached
    let plan : Plan := { (((Plan.named "order").attach .detached).fanOut (.first "lines")
      child).fanOut .this child with skipsPageCount := true }
    let interpreter : Interpreter := ⟨.scripted [order, detail], .standard⟩
    let stepped : History := [.run ⟨plan.fields⟩ []]
    let after : History := [.run ⟨plan.fields⟩ [], .run ⟨child.fields⟩ []]
    let final : StepResult := ⟨[("content", .mapping [("id", .null)]),
      ("metadata", .mapping [("page_count_live", .ofWhole 7)])]⟩
    interpreter.host.mergeDown = none ∧ interpreter.settings.effortCounters.Nodup ∧
      runPlan interpreter [] plan .empty [] = .ok final after ∧
      Ran interpreter [] plan .empty [] "order" order stepped [detail] final after ∧
      Fated interpreter (nodeOf interpreter [] plan .empty "order" order)
        (nodeOf interpreter [] plan .empty "order" order).start
        (branches interpreter [] plan.children) stepped [.passedOver, .descended] ∧
      Spared [.passedOver, .descended] ∧ ∃ n : Whole,
        final.count? "page_count_live" = some (.number (.whole n)) ∧
          n.val = min greatestSigned (5 + 2) := by
  intro order detail child plan interpreter stepped after final
  have hhook : interpreter.host.mergeDown = none := rfl
  have hdistinct : interpreter.settings.effortCounters.Nodup := by decide
  have hrun : runPlan interpreter [] plan .empty [] = .ok final after := rfl
  have hran : Ran interpreter [] plan .empty [] "order" order stepped [detail] final after :=
    ⟨rfl, rfl, ⟨final, false⟩, .cons (.passOver rfl) (.cons (.once rfl rfl rfl rfl) .nil), rfl⟩
  have hfates : Fated interpreter (nodeOf interpreter [] plan .empty "order" order)
      (nodeOf interpreter [] plan .empty "order" order).start
      (branches interpreter [] plan.children) stepped [.passedOver, .descended] :=
    .cons (.inr ⟨"lines", rfl, rfl⟩) rfl (.cons (.inl ⟨_, _, .this rfl rfl⟩) rfl .nil)
  have hspared : Spared [.passedOver, .descended] := ⟨[], [.descended], rfl, by simp⟩
  have hown : Counts (order.count? "page_count_live") := counts_ofWhole (n := 5) (by decide)
  have hreceived : ∀ result ∈ [detail], Counts (result.count? "page_count_live") := by
    intro result hresult
    rw [List.mem_singleton.mp hresult]
    exact counts_ofWhole (n := 2) (by decide)
  let root : Entry := ⟨plan, .empty, []⟩
  obtain ⟨_, hlaw⟩ := runPlan_pageCount hhook hdistinct hrun [] root .root
  obtain ⟨n, hn, hsum, _⟩ := hlaw _ _ _ _ _ _ _ hran hfates rfl "page_count_live" (by decide)
    (by decide) (Option.some_ne_none _) hown hreceived
  exact ⟨hhook, hdistinct, hrun, hran, hfates, hspared, n, hn, hsum hspared⟩

/-- A node that skips page counts has one child, for the first element of a list
without elements. The list is there and no child runs, so nothing spares the own
count and it should be zero; it is kept. -/
theorem runPlan_pageCount_idle :
    let order : StepResult := ⟨[("content", .mapping [("lines", .list [])]),
      ("metadata", .mapping [("page_count_live", .ofWhole 5)])]⟩
    let child := (Plan.named "line").attach ⟨.merge, none, none⟩
    let plan : Plan :=
      { ((Plan.named "order").attach .detached).fanOut (.first "lines") child with
        skipsPageCount := true }
    let interpreter : Interpreter := ⟨.scripted [order], .standard⟩
    let after : History := [.run ⟨plan.fields⟩ []]
    interpreter.host.mergeDown = none ∧ interpreter.settings.effortCounters.Nodup ∧
      "page_count_live" ∈ interpreter.settings.pageCountFields ∧
      "page_count_live" ∈ interpreter.settings.effortCounters ∧
      runPlan interpreter [] plan .empty [] = .ok order after ∧
      Ran interpreter [] plan .empty [] "order" order after [] order after ∧
      Fated interpreter (nodeOf interpreter [] plan .empty "order" order)
        (nodeOf interpreter [] plan .empty "order" order).start
        (branches interpreter [] plan.children) after [.idle] ∧
      ¬Spared [.idle] ∧ order.count? "page_count_live" = some (.ofWhole 5) ∧
      Counts (order.count? "page_count_live") ∧
      order.count? "page_count_live" ≠ some (.ofWhole 0) := by
  intro order child plan interpreter after
  have hspared : ¬Spared [.idle] := by
    rintro ⟨before, rest, hfates, _⟩
    cases before with
    | nil => cases hfates
    | cons first others => simp at hfates
  have hcount : order.count? "page_count_live" = some (.ofWhole 5) := rfl
  refine ⟨rfl, by decide, by decide, by decide, rfl, ?_, ?_, hspared, hcount, ?_, ?_⟩
  · exact ⟨rfl, rfl, ⟨order, false⟩, .cons (.nothing rfl rfl rfl) .nil, rfl⟩
  · exact .cons ⟨"lines", [], rfl, rfl, by simp, .inl rfl⟩ rfl .nil
  · exact hcount ▸ counts_ofWhole (by decide)
  · rw [hcount]
    intro h
    have hval : (5 : Int) = 0 := congrArg amount h
    exact absurd hval (by decide)

end Interpreter

end PlanFold
