import PlanFold.Proofs.Directives

/-!
# The element of a first scope

The elements of a list that satisfy a predicate, and the others, are the list
taken apart; the earliest of the first kind is selected, or else the fallback or
nothing. So a fallback is selected only where there is one, and a directive on a
list that is there goes one way: it brings one child result, null when nothing
is selected, and folds it in once under the directive of the plan it is from.
-/

set_option autoImplicit false

namespace PlanFold

namespace Selection

structure Split (predicate : Option Predicate) (items primary residual : List Value) : Prop where
  primary_sublist : primary.Sublist items
  residual_sublist : residual.Sublist items
  primary_holds : ∀ element ∈ primary, isPrimary predicate element = true
  residual_fails : ∀ element ∈ residual, isPrimary predicate element = false
  complete : (primary ++ residual).Perm items

variable {predicate : Option Predicate} {items primary residual : List Value}
  {hasFallback : Bool}

theorem partition_eq (predicate : Option Predicate) (items : List Value) :
    partition predicate items =
      (items.filter (isPrimary predicate), items.filter (not ∘ isPrimary predicate)) :=
  List.partition_eq_filter_filter

theorem split_filter (predicate : Option Predicate) (items : List Value) :
    Split predicate items (items.filter (isPrimary predicate))
      (items.filter (not ∘ isPrimary predicate)) where
  primary_sublist := List.filter_sublist
  residual_sublist := List.filter_sublist
  primary_holds _ hmem := (List.mem_filter.mp hmem).2
  residual_fails _ hmem := by simpa using (List.mem_filter.mp hmem).2
  complete := List.filter_append_perm (isPrimary predicate) items

theorem eq_filter_of_sublist {part others : List Value} {test : Value → Bool}
    (hpart : part.Sublist items) (hholds : ∀ element ∈ part, test element = true)
    (hothers : ∀ element ∈ others, test element = false)
    (hperm : (part ++ others).Perm items) : part = items.filter test := by
  have hkept : part.filter test = part := List.filter_eq_self.mpr hholds
  have hdropped : others.filter test = [] :=
    List.filter_eq_nil_iff.mpr fun element hmem => by simp [hothers element hmem]
  have hlength : part.length = (items.filter test).length := by
    rw [← (hperm.filter test).length_eq, List.filter_append, hkept, hdropped, List.append_nil]
  have hsub := hpart.filter test
  rw [hkept] at hsub
  exact hsub.eq_of_length hlength

theorem partition_eq_iff :
    partition predicate items = (primary, residual) ↔ Split predicate items primary residual := by
  rw [partition_eq, Prod.mk.injEq]
  constructor
  · rintro ⟨rfl, rfl⟩
    exact split_filter predicate items
  · intro h
    have hholds : ∀ element ∈ residual, (not ∘ isPrimary predicate) element = true :=
      fun element hmem => by simp [h.residual_fails element hmem]
    have hfails : ∀ element ∈ primary, (not ∘ isPrimary predicate) element = false :=
      fun element hmem => by simp [h.primary_holds element hmem]
    have hprimary := eq_filter_of_sublist h.primary_sublist h.primary_holds h.residual_fails
      h.complete
    have hresidual := eq_filter_of_sublist h.residual_sublist hholds hfails
      (List.perm_append_comm.trans h.complete)
    exact ⟨hprimary.symm, hresidual.symm⟩

theorem partition_none (items : List Value) : partition none items = (items, []) := by
  rw [partition_eq]
  simp [isPrimary]

theorem select_primary_iff_find? {element : Value} :
    select predicate items hasFallback = .primary element ↔
      items.find? (isPrimary predicate) = some element := by
  rw [select_eq]
  cases items.find? (isPrimary predicate) with
  | some found => simp
  | none => cases hasFallback && !items.isEmpty <;> simp

theorem select_primary_iff {element : Value} :
    select predicate items hasFallback = .primary element ↔
      ∃ before after, items = before ++ element :: after ∧
        isPrimary predicate element = true ∧
        ∀ earlier ∈ before, isPrimary predicate earlier = false := by
  rw [select_primary_iff_find?, List.find?_eq_some_iff_append]
  simp only [Bool.not_eq_true']
  constructor
  · rintro ⟨hprimary, before, after, hitems, hbefore⟩
    exact ⟨before, after, hitems, hprimary, hbefore⟩
  · rintro ⟨before, after, hitems, hprimary, hbefore⟩
    exact ⟨hprimary, before, after, hitems, hbefore⟩

theorem residual_iff : (∀ element ∈ items, isPrimary predicate element = false) ↔
    ∀ element, select predicate items hasFallback ≠ .primary element := by
  simp only [ne_eq, select_primary_iff_find?, ← Option.eq_none_iff_forall_ne_some,
    List.find?_eq_none, Bool.not_eq_true]

theorem select_of_residual (h : ∀ element ∈ items, isPrimary predicate element = false) :
    select predicate items hasFallback =
      if hasFallback && !items.isEmpty then .fallback else .nothing := by
  have hnone : items.find? (isPrimary predicate) = none :=
    List.find?_eq_none.mpr fun element hmem => by simp [h element hmem]
  rw [select_eq, hnone]

theorem select_fallback_iff : select predicate items hasFallback = .fallback ↔
    items ≠ [] ∧ (∀ element ∈ items, isPrimary predicate element = false) ∧
      hasFallback = true := by
  constructor
  · intro h
    have hresidual : ∀ element ∈ items, isPrimary predicate element = false :=
      residual_iff.mpr fun element => by rw [h]; simp
    rw [select_of_residual hresidual] at h
    refine ⟨?_, hresidual, ?_⟩ <;> cases items <;> cases hasFallback <;> simp_all
  · rintro ⟨hitems, hresidual, rfl⟩
    rw [select_of_residual hresidual]
    simp [hitems]

theorem select_nothing_iff : select predicate items hasFallback = .nothing ↔
    (∀ element ∈ items, isPrimary predicate element = false) ∧
      (items = [] ∨ hasFallback = false) := by
  constructor
  · intro h
    have hresidual : ∀ element ∈ items, isPrimary predicate element = false :=
      residual_iff.mpr fun element => by rw [h]; simp
    rw [select_of_residual hresidual] at h
    refine ⟨hresidual, ?_⟩
    cases items <;> cases hasFallback <;> simp_all
  · rintro ⟨hresidual, hitems⟩
    rw [select_of_residual hresidual]
    rcases hitems with rfl | rfl <;> simp

end Selection

namespace Interpreter

def directFirstOr (stray : Run Folding) (interpreter : Interpreter) (node : Node)
    (folding : Folding) (list : String) (branch : Branch) : Run Folding := do
  match ← Run.ofExcept (listItems folding.result list) with
  | none => pure folding.passOver
  | some items =>
    match Selection.select node.plan.partition items node.fallback.isSome, node.fallback with
    | .primary element, _ => foldChild interpreter node folding branch element
    | .fallback, some fallback => foldChild interpreter node folding fallback node.own.toValue
    | .fallback, none => stray
    | .nothing, _ => foldNothing interpreter folding branch

structure Offer where
  target : StepResult
  child : StepResult
  plan : Plan

def runs? (node : Node) (branch : Branch) : Selection → Option (Branch × Value)
  | .primary element => some (branch, element)
  | .fallback => node.fallback.map fun fallback => (fallback, node.own.toValue)
  | .nothing => none

def offerChild (interpreter : Interpreter) (node : Node) (folding : Folding) (branch : Branch)
    (bound : Value) : Run Offer := do
  let child ← runChild node branch bound
  let target := (folding.descend interpreter.settings.pageCountFields).result
  pure ⟨target.addEffort child interpreter.settings.effortCounters, child, branch.plan⟩

def offer (interpreter : Interpreter) (node : Node) (folding : Folding) (branch : Branch)
    (selection : Selection) : Run Offer :=
  match runs? node branch selection with
  | some (chosen, bound) => offerChild interpreter node folding chosen bound
  | none => pure ⟨folding.result, .empty, branch.plan⟩

def Offer.take (interpreter : Interpreter) (offer : Offer) : Run Folding := do
  let attach ← Run.ofExcept offer.plan.attachDirective
  if attach.mode = .detached then pure ⟨offer.target, false⟩
  else do
    let fields ← integrate interpreter.host attach offer.target.fields offer.child
    pure ⟨⟨fields⟩, false⟩

/-- The directive of a first scope, with one place at which anything is folded in. -/
def directFirstOnce (interpreter : Interpreter) (node : Node) (folding : Folding)
    (list : String) (branch : Branch) : Run Folding := do
  match ← Run.ofExcept (listItems folding.result list) with
  | none => pure folding.passOver
  | some items => do
    let offered ← offer interpreter node folding branch
      (Selection.select node.plan.partition items node.fallback.isSome)
    offered.take interpreter

variable {interpreter : Interpreter} {node : Node} {folding : Folding} {branch : Branch}

theorem fallback_of_selected (node : Node) (items : List Value)
    (h : Selection.select node.plan.partition items node.fallback.isSome = .fallback) :
    ∃ fallback, node.fallback = some fallback :=
  Option.isSome_iff_exists.mp (Selection.select_fallback_iff.mp h).2.2

theorem directFirst_eq_or (stray : Run Folding) : directFirst = directFirstOr stray := by
  funext interpreter node folding list branch
  unfold directFirst directFirstOr
  refine bind_congr fun found => ?_
  cases found with
  | none => rfl
  | some items =>
    have hfound := fallback_of_selected node items
    revert hfound
    dsimp only
    generalize Selection.select node.plan.partition items node.fallback.isSome = selection
    generalize node.fallback = fallback
    intro hfound
    cases selection with
    | primary element => rfl
    | fallback =>
      obtain ⟨fallback, rfl⟩ := hfound rfl
      rfl
    | nothing => rfl

theorem take_eq (offer : Offer) : offer.take interpreter = (do
    let attach ← Run.ofExcept offer.plan.attachDirective
    let fields ← integrate interpreter.host attach offer.target.fields offer.child
    pure ⟨⟨fields⟩, false⟩) := by
  unfold Offer.take
  refine bind_congr fun attach => ?_
  split
  next hmode =>
    unfold integrate
    rw [if_pos hmode]
    rfl
  next => rfl

theorem foldChild_eq_take (bound : Value) : foldChild interpreter node folding branch bound =
    offerChild interpreter node folding branch bound >>= Offer.take interpreter := by
  have hskip := skipPending_descend folding interpreter.settings.pageCountFields
  unfold foldChild offerChild
  simp only [bind_assoc, pure_bind, take_eq, hskip]

theorem foldNothing_eq_take : foldNothing interpreter folding branch =
    Offer.take interpreter ⟨folding.result, .empty, branch.plan⟩ := by
  rw [take_eq]
  rfl

theorem directFirst_eq_once : directFirst = directFirstOnce := by
  funext interpreter node folding list branch
  rw [directFirst_eq_or (pure folding)]
  unfold directFirstOr directFirstOnce
  refine bind_congr fun found => ?_
  cases found with
  | none => rfl
  | some items =>
    have hfound := fallback_of_selected node items
    revert hfound
    dsimp only
    generalize Selection.select node.plan.partition items node.fallback.isSome = selection
    intro hfound
    cases selection with
    | primary element => exact foldChild_eq_take element
    | fallback =>
      obtain ⟨fallback, hfallback⟩ := hfound rfl
      simp only [offer, runs?, hfallback, Option.map_some]
      exact foldChild_eq_take _
    | nothing => exact foldNothing_eq_take

/-- The null result is offered where no element is primary and no fallback takes its place. -/
theorem runs?_eq_none_iff {items : List Value} :
    runs? node branch (Selection.select node.plan.partition items node.fallback.isSome) = none ↔
      (∀ element ∈ items, Selection.isPrimary node.plan.partition element = false) ∧
        (items = [] ∨ node.fallback = none) := by
  have hnone : node.fallback = none ↔ node.fallback.isSome = false := by simp
  rw [hnone, ← Selection.select_nothing_iff]
  have hfound := fallback_of_selected node items
  revert hfound
  generalize Selection.select node.plan.partition items node.fallback.isSome = selection
  intro hfound
  cases selection with
  | primary element => simp [runs?]
  | fallback =>
    obtain ⟨fallback, hfallback⟩ := hfound rfl
    simp [runs?, hfallback]
  | nothing => simp [runs?]

/-- A list is split in order and without loss. Selected is the earliest primary element,
or the fallback for residual elements, or nothing; so in no run does it matter what would
be done if a fallback were selected that the node does not have. A first scope whose list
is there folds in once: the result of the selected plan under that plan's directive, and
the null result under the child's directive when nothing is selected. -/
theorem directFirst_selects :
    (∀ predicate items primary residual,
      Selection.partition predicate items = (primary, residual) ↔
        Selection.Split predicate items primary residual) ∧
    (∀ items, Selection.partition none items = (items, [])) ∧
    (∀ predicate items hasFallback,
      (∀ element, Selection.select predicate items hasFallback = .primary element ↔
        ∃ before after, items = before ++ element :: after ∧
          Selection.isPrimary predicate element = true ∧
          ∀ earlier ∈ before, Selection.isPrimary predicate earlier = false) ∧
      (Selection.select predicate items hasFallback = .fallback ↔
        items ≠ [] ∧ (∀ element ∈ items, Selection.isPrimary predicate element = false) ∧
          hasFallback = true) ∧
      (Selection.select predicate items hasFallback = .nothing ↔
        (∀ element ∈ items, Selection.isPrimary predicate element = false) ∧
          (items = [] ∨ hasFallback = false))) ∧
    (∀ stray, directFirst = directFirstOr stray) ∧
    directFirst = directFirstOnce ∧
    ∀ node branch items,
      runs? node branch (Selection.select node.plan.partition items node.fallback.isSome) = none ↔
        (∀ element ∈ items, Selection.isPrimary node.plan.partition element = false) ∧
          (items = [] ∨ node.fallback = none) :=
  ⟨fun _ _ _ _ => Selection.partition_eq_iff, Selection.partition_none,
    fun _ _ _ => ⟨fun _ => Selection.select_primary_iff, Selection.select_fallback_iff,
      Selection.select_nothing_iff⟩,
    directFirst_eq_or, directFirst_eq_once, fun _ _ _ => runs?_eq_none_iff⟩

end Interpreter

end PlanFold
