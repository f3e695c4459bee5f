import PlanFold.Proofs.MergeOrder
import PlanFold.Proofs.SiblingOrder

/-!
# Merging siblings

Two children in a row that both merge can be exchanged when neither depends on
what the other merges. They may merge into one target, without a key in
common: the result of their node, or every element of a list. Or they write
different fields of the content: what a child brings to the result is a number
of fields, and what it makes of a list is one.

That a child does not depend on the other is said of what it returns, with the
other's part in the content and without it, whatever was called before.
-/

set_option autoImplicit false

namespace PlanFold

def Attach.brought (attach : Attach) (child : StepResult) : Fields :=
  (attach.contribution child).entries

structure Attach.Merges (attach : Attach) (child : StepResult) : Prop where
  mode : attach.mode = .merge
  takes : attach.Takes child
  fields : (attach.contribution child).isNullOrMapping = true

namespace Interpreter

variable {interpreter : Interpreter} {node : Node} {folding : Folding} {attach attach' : Attach}
  {a b child : StepResult} {content : Fields} {directive directive' : Scope × Branch}
  {history after : History}

theorem integrate_merge {host : Host} (hhook : host.mergeDown = none) (h : attach.Merges child)
    {target : Fields} (hslot : HasSlot target) (history : History) :
    integrate host attach target child history =
      .ok (mergedChild target child (attach.brought child)) history := by
  obtain ⟨hmode, htakes, hfields⟩ := h
  have hpayload : attach.payload child = .ok (attach.contribution child) :=
    (attach.payload_ok_iff _ _).mpr ⟨htakes, rfl⟩
  have hfits : HasSlot (keepNewest target child) :=
    ((fits_keepNewest target child .merge .null).mpr ⟨hslot, rfl⟩).1
  rw [integrate_eq hhook, if_neg (by rw [hmode]; decide), Attach.foldInto, hpayload]
  exact Run.ofExcept_ok_iff.mpr
    ⟨(Attach.land_merge_iff hmode).mpr ⟨hfits, hfields, rfl⟩, rfl⟩

def Brings (node : Node) (content : Fields) (directive : Scope × Branch) (attach : Attach)
    (child : StepResult) : Prop :=
  ∃ branch bound, choose node (.ofContent (.mapping content)) directive = .ok (.once branch bound) ∧
    branch.plan.attachDirective = .ok attach ∧
    ∀ history, ∃ after, runChild node branch bound history = .ok child after

theorem choose_congr {result result' : StepResult} (h : result.content = result'.content)
    (directive : Scope × Branch) :
    choose node result directive = choose node result' directive := by
  unfold choose listItems
  rw [h]

def Folding.refilled (folding : Folding) (settings : Settings) (child : StepResult)
    (slot : Fields) : Folding :=
  ⟨(folding.descend settings.pageCountFields).result.refilled settings.effortCounters child slot,
    false⟩

theorem content_refilled (folding : Folding) (settings : Settings) (child : StepResult)
    (slot : Fields) :
    (folding.refilled settings child slot).result.content = .mapping slot :=
  StepResult.content_setContent _ _

theorem direct_brings (hhook : interpreter.host.mergeDown = none)
    (hcontent : folding.result.content = .mapping content) (h : attach.Merges child)
    (hbrings : Brings node content directive attach child) (history : History) :
    ∃ after, direct interpreter node folding directive history =
      .ok (folding.refilled interpreter.settings child (content.merge (attach.brought child)))
        after := by
  obtain ⟨branch, bound, hchoice, hattach, hruns⟩ := hbrings
  obtain ⟨after, hchild⟩ := hruns history
  let base := (folding.descend interpreter.settings.pageCountFields).result
  have hbase : base.content = .mapping content := (content_descend _ _).trans hcontent
  have hwrapped : base.fields.contains "content" = true :=
    Fields.contains_of_get? (StepResult.get?_of_content hbase)
  have hget : (base.addEffort child interpreter.settings.effortCounters).fields.get? "content" =
      some (.mapping content) :=
    (base.get?_mapMetadata _ (by decide)).trans (StepResult.get?_of_content hbase)
  have hslot : HasSlot (base.addEffort child interpreter.settings.effortCounters).fields := by
    intro held hheld
    cases hget.symm.trans hheld
    rfl
  have hfold := integrate_merge hhook h hslot after
  rw [mergedChild, merged_addEffort _ hwrapped, slotOf_of_content hbase] at hfold
  have hchosen : choose node folding.result directive =
      choose node (.ofContent (.mapping content)) directive := choose_congr hcontent directive
  refine ⟨after, ?_⟩
  rw [direct_eq, hchosen, hchoice]
  show foldChild interpreter node folding branch bound history = _
  unfold foldChild
  refine Run.bind_ok_iff.mpr ⟨child, after, hchild, ?_⟩
  rw [hattach]
  refine Run.ofExcept_bind_ok_iff.mpr ⟨_, rfl, ?_⟩
  refine Run.bind_ok_iff.mpr ⟨_, after, hfold, ?_⟩
  rw [skipPending_descend]
  rfl

theorem directAll_two {one two : Folding} {between : History}
    (hone : direct interpreter node folding directive history = .ok one between)
    (htwo : direct interpreter node one directive' between = .ok two after) :
    directAll interpreter node folding [directive, directive'] history = .ok two after :=
  Run.bind_ok_iff.mpr ⟨one, between, hone, Run.bind_ok_iff.mpr ⟨two, after, htwo, rfl⟩⟩

structure BothBring (node : Node) (content : Fields) (directive directive' : Scope × Branch)
    (attach attach' : Attach) (a b : StepResult) : Prop where
  merges : attach.Merges a
  merges' : attach'.Merges b
  disjoint : (attach.brought a).keys.Disjoint (attach'.brought b).keys
  before : Brings node content directive attach a
  before' : Brings node content directive' attach' b
  behind : Brings node (content.merge (attach'.brought b)) directive attach a
  behind' : Brings node (content.merge (attach.brought a)) directive' attach' b

theorem BothBring.symm (h : BothBring node content directive directive' attach attach' a b) :
    BothBring node content directive' directive attach' attach b a :=
  ⟨h.merges', h.merges, h.disjoint.symm, h.before', h.before, h.behind', h.behind⟩

theorem BothBring.directAll (hhook : interpreter.host.mergeDown = none)
    (hcontent : folding.result.content = .mapping content)
    (h : BothBring node content directive directive' attach attach' a b) (history : History) :
    ∃ after, directAll interpreter node folding [directive, directive'] history =
      .ok ((folding.refilled interpreter.settings a (content.merge (attach.brought a))).refilled
        interpreter.settings b
          ((content.merge (attach.brought a)).merge (attach'.brought b))) after := by
  obtain ⟨between, hfirst⟩ := direct_brings hhook hcontent h.merges h.before history
  obtain ⟨after, hsecond⟩ :=
    direct_brings hhook (content_refilled _ _ _ _) h.merges' h.behind' between
  exact ⟨after, directAll_two hfirst hsecond⟩

def Supplies (node : Node) (branch : Branch) (element : Fields) (child : StepResult) : Prop :=
  ∀ history, ∃ after, Supplied node branch (.mapping element) history child after

theorem updated_of_supplies (hhook : interpreter.host.mergeDown = none) {branch : Branch}
    {ι : Type} {element : ι → Fields} {child : ι → StepResult} {lines : List ι}
    (h : ∀ line ∈ lines, HasSlot (element line) ∧ attach.Merges (child line) ∧
      Supplies node branch (element line) (child line)) (history : History) :
    ∃ children after, Updated interpreter node branch attach
      (lines.map fun line => .mapping (element line)) history children
      (lines.map fun line => .mapping
        (mergedChild (element line) (child line) (attach.brought (child line)))) after := by
  induction lines generalizing history with
  | nil => exact ⟨[], history, .nil⟩
  | cons line lines ih =>
    obtain ⟨hslot, hmerges, hsupplies⟩ := h line (List.mem_cons_self ..)
    obtain ⟨between, hsupplied⟩ := hsupplies history
    obtain ⟨children, after, hrest⟩ :=
      ih (fun other hmem => h other (List.mem_cons_of_mem _ hmem)) between
    have hfold := integrate_merge hhook hmerges hslot between
    exact ⟨_, after, .cons hsupplied (Run.bind_ok_iff.mpr ⟨_, _, hfold, rfl⟩) hrest⟩

structure Line where
  element : Fields
  first : StepResult
  second : StepResult

namespace Line

def swap (line : Line) : Line := ⟨line.element, line.second, line.first⟩

def once (line : Line) (attach : Attach) : Fields :=
  mergedChild line.element line.first (attach.brought line.first)

def twice (line : Line) (attach attach' : Attach) : Fields :=
  mergedChild (line.once attach) line.second (attach'.brought line.second)

/-- Two children merge into an element what they return with or without what the other has
merged; and the element has a content, or each payload stays apart from the other child. -/
structure Exchanges (line : Line) (node : Node) (branch branch' : Branch)
    (attach attach' : Attach) : Prop where
  accepts : AttachMode.merge.accepts line.element = true
  merges : attach.Merges line.first
  merges' : attach'.Merges line.second
  disjoint : (attach.brought line.first).keys.Disjoint (attach'.brought line.second).keys
  settled : line.element.contains "content" = true ∨
    Apart (attach.brought line.first) line.second ∧
      Apart (attach'.brought line.second) line.first
  before : Supplies node branch line.element line.first
  before' : Supplies node branch' line.element line.second
  behind : Supplies node branch (line.swap.once attach') line.first
  behind' : Supplies node branch' (line.once attach) line.second

variable {line : Line} {lines : List Line} {branch branch' : Branch}

theorem Exchanges.symm (h : line.Exchanges node branch branch' attach attach') :
    line.swap.Exchanges node branch' branch attach' attach :=
  ⟨h.accepts, h.merges', h.merges, h.disjoint.symm, h.settled.imp_right And.symm, h.before',
    h.before, h.behind', h.behind⟩

theorem Exchanges.hasSlot (h : line.Exchanges node branch branch' attach attach') :
    HasSlot (line.once attach) :=
  hasSlot_merged (h.settled.imp (contains_keepNewest _ _).trans fun hapart => hapart.1.1)

theorem Exchanges.twice (h : line.Exchanges node branch branch' attach attach') :
    SameTarget (Value.Redated (· ≠ "updated_at")) (line.twice attach attach')
      (line.swap.twice attach' attach) :=
  mergedChild_swap h.disjoint h.settled

end Line

section elements

variable {branch branch' : Branch} {lines : List Line} {list : String}

theorem directAll_lines (hhook : interpreter.host.mergeDown = none)
    (hcontent : folding.result.content = .mapping content)
    (hlist : content.get? list = some (.list (lines.map fun line => .mapping line.element)))
    (hattach : branch.plan.attachDirective = .ok attach)
    (hattach' : branch'.plan.attachDirective = .ok attach')
    (h : ∀ line ∈ lines, line.Exchanges node branch branch' attach attach') (history : History) :
    ∃ folding' after,
      directAll interpreter node folding [(.each list, branch), (.each list, branch')] history =
        .ok folding' after ∧
      folding'.result.content = .mapping (content.insert list
        (.list (lines.map fun line => .mapping (line.twice attach attach')))) := by
  have hfirst : ∀ line ∈ lines, HasSlot line.element ∧ attach.Merges line.first ∧
      Supplies node branch line.element line.first := fun line hmem =>
    ⟨hasSlot_of_accepts (h line hmem).accepts, (h line hmem).merges, (h line hmem).before⟩
  have hsecond : ∀ line ∈ lines, HasSlot (line.once attach) ∧ attach'.Merges line.second ∧
      Supplies node branch' (line.once attach) line.second := fun line hmem =>
    ⟨(h line hmem).hasSlot, (h line hmem).merges', (h line hmem).behind'⟩
  obtain ⟨_, between, hupdated⟩ := updated_of_supplies hhook hfirst history
  obtain ⟨folding₁, hone, hcontent₁⟩ := direct_of_updated hcontent hlist hattach hupdated
  obtain ⟨_, after, hupdated'⟩ := updated_of_supplies hhook hsecond between
  obtain ⟨folding₂, htwo, hcontent₂⟩ :=
    direct_of_updated hcontent₁ (Fields.get?_insert_self _ _ _) hattach' hupdated'
  rw [Fields.insert_insert] at hcontent₂
  exact ⟨folding₂, after, directAll_two hone htwo, hcontent₂⟩

end elements

inductive Writes (node : Node) (content : Fields) : Scope × Branch → Fields → Prop
  | fields {directive : Scope × Branch} {attach : Attach} {child : StepResult} :
      attach.Merges child → Brings node content directive attach child →
      Writes node content directive (attach.brought child)
  | elements {list : String} {branch : Branch} {attach : Attach}
      {lines : List (Fields × StepResult)} : branch.plan.attachDirective = .ok attach →
      content.get? list = some (.list (lines.map fun line => .mapping line.1)) →
      (∀ line ∈ lines, AttachMode.merge.accepts line.1 = true ∧ attach.Merges line.2 ∧
        Supplies node branch line.1 line.2) →
      Writes node content (.each list, branch) [(list, .list (lines.map fun line =>
        .mapping (mergedChild line.1 line.2 (attach.brought line.2))))]

theorem direct_writes (hhook : interpreter.host.mergeDown = none)
    (hcontent : folding.result.content = .mapping content) {fields : Fields}
    (h : Writes node content directive fields) (history : History) :
    ∃ folding' after, direct interpreter node folding directive history = .ok folding' after ∧
      folding'.result.content = .mapping (content.merge fields) := by
  cases h with
  | fields hmerges hbrings =>
    obtain ⟨after, hdirect⟩ := direct_brings hhook hcontent hmerges hbrings history
    exact ⟨_, after, hdirect, content_refilled _ _ _ _⟩
  | elements hattach hlist hlines =>
    obtain ⟨_, after, hupdated⟩ := updated_of_supplies hhook (fun line hmem =>
      ⟨hasSlot_of_accepts (hlines line hmem).1, (hlines line hmem).2⟩) history
    obtain ⟨folding', hdirect, hwritten⟩ := direct_of_updated hcontent hlist hattach hupdated
    exact ⟨folding', after, hdirect, hwritten⟩

structure BothWrite (node : Node) (content : Fields) (directive directive' : Scope × Branch)
    (fields fields' : Fields) : Prop where
  disjoint : fields.keys.Disjoint fields'.keys
  before : Writes node content directive fields
  before' : Writes node content directive' fields'
  behind : Writes node (content.merge fields') directive fields
  behind' : Writes node (content.merge fields) directive' fields'

section write

variable {fields fields' : Fields}

theorem BothWrite.symm (h : BothWrite node content directive directive' fields fields') :
    BothWrite node content directive' directive fields' fields :=
  ⟨h.disjoint.symm, h.before', h.before, h.behind', h.behind⟩

theorem BothWrite.directAll (hhook : interpreter.host.mergeDown = none)
    (hcontent : folding.result.content = .mapping content)
    (h : BothWrite node content directive directive' fields fields') (history : History) :
    ∃ folding' after, directAll interpreter node folding [directive, directive'] history =
        .ok folding' after ∧
      folding'.result.content = .mapping ((content.merge fields).merge fields') := by
  obtain ⟨folding₁, between, hfirst, hcontent₁⟩ := direct_writes hhook hcontent h.before history
  obtain ⟨folding₂, after, hsecond, hcontent₂⟩ := direct_writes hhook hcontent₁ h.behind' between
  exact ⟨folding₂, after, directAll_two hfirst hsecond, hcontent₂⟩

end write

def Node.among (node : Node) (children : List (Scope × Plan)) : Node :=
  { node with plan := { node.plan with children := children } }

theorem foldElements_among (node : Node) (children : List (Scope × Plan)) (branch : Branch)
    (result : StepResult) (items : List Value) :
    foldElements interpreter (node.among children) branch attach result items =
      foldElements interpreter node branch attach result items := by
  induction items generalizing result with
  | nil => rfl
  | cons element rest ih =>
    unfold foldElements
    simp only [ih]
    rfl

/-- A node does not look at the children of its plan when it carries out directives. -/
theorem directAll_among (node : Node) (children : List (Scope × Plan)) (folding : Folding)
    (directives : List (Scope × Branch)) :
    directAll interpreter (node.among children) folding directives =
      directAll interpreter node folding directives := by
  induction directives generalizing folding with
  | nil => rfl
  | cons directive rest ih =>
    have hdirect : direct interpreter (node.among children) folding directive =
        direct interpreter node folding directive := by
      obtain ⟨scope, branch⟩ := directive
      cases scope with
      | this => rfl
      | first list => rfl
      | each list =>
        unfold direct directEach
        simp only [foldElements_among]
    unfold directAll
    simp only [hdirect, ih]

def Reaches (interpreter : Interpreter) (args : List Value) (plan : Plan) (state : State)
    (history : History) (children : List (Scope × Plan)) (node : Node) (folding : Folding)
    (after : History) : Prop :=
  ∃ binding own stepped, plan.validate state interpreter.settings.requiredFields = .ok binding ∧
    runStep interpreter plan state args history = .ok own stepped ∧
    node = nodeOf interpreter args plan state binding own ∧
    directAll interpreter node node.start (branches interpreter args children) stepped =
      .ok folding after

section reaches

variable {args : List Value} {plan : Plan} {state : State} {before behind : List (Scope × Plan)}
  {folding' : Folding} {between : History}

theorem Reaches.among
    (h : Reaches interpreter args plan state history before node folding after)
    (children : List (Scope × Plan)) :
    Reaches interpreter args { plan with children := children } state history before
      (node.among children) folding after := by
  obtain ⟨binding, own, stepped, hvalid, hstep, rfl, hall⟩ := h
  exact ⟨binding, own, stepped, hvalid, hstep, rfl,
    (congrFun (directAll_among _ _ _ _) stepped).trans hall⟩

theorem Reaches.append {children : List (Scope × Plan)}
    (h : Reaches interpreter args plan state history before node folding between)
    (hnext : directAll interpreter node folding (branches interpreter args children) between =
      .ok folding' after) :
    Reaches interpreter args plan state history (before ++ children) node folding' after := by
  obtain ⟨binding, own, stepped, hvalid, hstep, hnode, hall⟩ := h
  refine ⟨binding, own, stepped, hvalid, hstep, hnode, ?_⟩
  rw [branches_append, directAll_append]
  exact Run.bind_ok_iff.mpr ⟨folding, between, hall, hnext⟩

theorem Reaches.runPlan
    (h : Reaches interpreter args plan state history plan.children node folding after) :
    runPlan interpreter args plan state history = .ok (folding.close interpreter) after := by
  obtain ⟨binding, own, stepped, hvalid, hstep, rfl, hall⟩ := h
  exact ok_of_stages hvalid hstep hall

end reaches

def Swaps (interpreter : Interpreter) (args : List Value) (plan : Plan) (state : State)
    (history : History) (before : List (Scope × Plan)) (first second : Scope × Plan)
    (behind : List (Scope × Plan)) (related : StepResult → StepResult → Prop) : Prop :=
  let exchanged : Plan := { plan with children := before ++ second :: first :: behind }
  ∃ node node' folding folding' after after',
    Reaches interpreter args plan state history (before ++ [first, second]) node folding after ∧
    Reaches interpreter args exchanged state history (before ++ [second, first]) node' folding'
      after' ∧
    related folding.result folding'.result ∧
    (behind = [] → ∃ final final', runPlan interpreter args plan state history = .ok final after ∧
      runPlan interpreter args exchanged state history = .ok final' after' ∧ related final final')

section swaps

variable {args : List Value} {plan : Plan} {state : State} {before behind : List (Scope × Plan)}
  {first second : Scope × Plan} {folding₁ folding₂ : Folding} {between after₁ after₂ : History}
  {related : StepResult → StepResult → Prop}

theorem swaps_of_directAll (hchildren : plan.children = before ++ first :: second :: behind)
    (h : Reaches interpreter args plan state history before node folding between)
    (hone : directAll interpreter node folding (branches interpreter args [first, second]) between =
      .ok folding₁ after₁)
    (htwo : directAll interpreter node folding (branches interpreter args [second, first]) between =
      .ok folding₂ after₂)
    (hrelated : related folding₁.result folding₂.result)
    (hclosed : related (folding₁.close interpreter) (folding₂.close interpreter)) :
    Swaps interpreter args plan state history before first second behind related := by
  let exchanged : Plan := { plan with children := before ++ second :: first :: behind }
  have hreaches := h.append hone
  have hreaches' := (h.among exchanged.children).append
    ((congrFun (directAll_among _ _ _ _) between).trans htwo)
  refine ⟨_, _, _, _, _, _, hreaches, hreaches', hrelated, ?_⟩
  rintro rfl
  rw [← hchildren] at hreaches
  have hrun' : runPlan interpreter args exchanged state history =
      .ok (folding₂.close interpreter) after₂ := Reaches.runPlan hreaches'
  exact ⟨_, _, hreaches.runPlan, hrun', hclosed⟩

theorem swaps_of_bothBring (hhook : interpreter.host.mergeDown = none) {scope scope' : Scope}
    {x y : Plan} (hchildren : plan.children = before ++ (scope, x) :: (scope', y) :: behind)
    (h : Reaches interpreter args plan state history before node folding between)
    (hcontent : folding.result.content = .mapping content)
    (hboth : BothBring node content (scope, ⟨x, runPlan interpreter args x⟩)
      (scope', ⟨y, runPlan interpreter args y⟩) attach attach' a b) :
    Swaps interpreter args plan state history before (scope, x) (scope', y) behind
      fun result result' => SameTarget (Value.Redated (Steady interpreter.settings.effortCounters
        (folding.close interpreter) a b)) result.fields result'.fields := by
  obtain ⟨after₁, hone⟩ := hboth.directAll hhook hcontent between
  obtain ⟨after₂, htwo⟩ := hboth.symm.directAll hhook hcontent between
  have hfields := Fields.merge_swap hboth.disjoint content
  refine swaps_of_directAll hchildren h hone htwo ?_ ?_
  · exact refilled_swap (fun _ hkey => hkey) hfields
  · exact refilled_swap (fun _ hkey => hkey) hfields

theorem swaps_of_lines (hhook : interpreter.host.mergeDown = none) {list : String}
    {lines : List Line} {x y : Plan}
    (hchildren : plan.children = before ++ (.each list, x) :: (.each list, y) :: behind)
    (h : Reaches interpreter args plan state history before node folding between)
    (hcontent : folding.result.content = .mapping content)
    (hlist : content.get? list = some (.list (lines.map fun line => .mapping line.element)))
    (hattach : x.attachDirective = .ok attach) (hattach' : y.attachDirective = .ok attach')
    (hlines : ∀ line ∈ lines, line.Exchanges node ⟨x, runPlan interpreter args x⟩
      ⟨y, runPlan interpreter args y⟩ attach attach') :
    Swaps interpreter args plan state history before (.each list, x) (.each list, y) behind
      fun result result' => ∃ elements elements' : List Fields,
        result.content = .mapping (content.insert list (.list (elements.map .mapping))) ∧
        result'.content = .mapping (content.insert list (.list (elements'.map .mapping))) ∧
        List.Forall₂ (SameTarget (Value.Redated (· ≠ "updated_at"))) elements elements' := by
  have hswapped : ∀ line ∈ lines.map Line.swap, line.Exchanges node ⟨y, runPlan interpreter args y⟩
      ⟨x, runPlan interpreter args x⟩ attach' attach := by
    intro line hmem
    obtain ⟨other, hother, rfl⟩ := List.mem_map.mp hmem
    exact (hlines other hother).symm
  have hlist' : content.get? list =
      some (.list ((lines.map Line.swap).map fun line => .mapping line.element)) := by
    rw [List.map_map]
    exact hlist
  obtain ⟨folding₁, after₁, hone, hcontent₁⟩ :=
    directAll_lines hhook hcontent hlist hattach hattach' hlines between
  obtain ⟨folding₂, after₂, htwo, hcontent₂⟩ :=
    directAll_lines hhook hcontent hlist' hattach' hattach hswapped between
  let elements := lines.map fun line => line.twice attach attach'
  let elements' := lines.map fun line => line.swap.twice attach' attach
  have helements : folding₁.result.content =
      .mapping (content.insert list (.list (elements.map .mapping))) := by
    rw [hcontent₁, List.map_map]
    rfl
  have helements' : folding₂.result.content =
      .mapping (content.insert list (.list (elements'.map .mapping))) := by
    rw [hcontent₂, List.map_map, List.map_map]
    rfl
  have hsame : List.Forall₂ (SameTarget (Value.Redated (· ≠ "updated_at"))) elements elements' := by
    rw [List.forall₂_map_left_iff, List.forall₂_map_right_iff, List.forall₂_same]
    exact fun line hmem => (hlines line hmem).twice
  exact swaps_of_directAll hchildren h hone htwo ⟨_, _, helements, helements', hsame⟩
    ⟨_, _, (content_descend _ _).trans helements, (content_descend _ _).trans helements', hsame⟩

theorem swaps_of_bothWrite (hhook : interpreter.host.mergeDown = none) {scope scope' : Scope}
    {x y : Plan} {fields fields' : Fields}
    (hchildren : plan.children = before ++ (scope, x) :: (scope', y) :: behind)
    (h : Reaches interpreter args plan state history before node folding between)
    (hcontent : folding.result.content = .mapping content)
    (hboth : BothWrite node content (scope, ⟨x, runPlan interpreter args x⟩)
      (scope', ⟨y, runPlan interpreter args y⟩) fields fields') :
    Swaps interpreter args plan state history before (scope, x) (scope', y) behind
      fun result result' => result.content.Reordered result'.content := by
  obtain ⟨folding₁, after₁, hone, hcontent₁⟩ := hboth.directAll hhook hcontent between
  obtain ⟨folding₂, after₂, htwo, hcontent₂⟩ := hboth.symm.directAll hhook hcontent between
  have hfields := Fields.merge_swap hboth.disjoint content
  have hsame : folding₁.result.content.Reordered folding₂.result.content := by
    rw [hcontent₁, hcontent₂]
    exact .mapping hfields.1 hfields.2
  refine swaps_of_directAll hchildren h hone htwo hsame ?_
  rwa [Folding.close, Folding.close, content_descend, content_descend]

end swaps

/-- Payloads without a key in common are merged in either order, into a target that has a
content or when neither has a key `content`; the outcome is the same but for the order of
keys. So two children in a row may be declared in either order when without a hook both
merge, with no key in common, into the result of their node or into each element of one
list, or write different fields of the content, and both return what they return without
the other. Metadata is then the same but for the text of its timestamp, and for sums that
are no counts. -/
theorem merge_exchange (interpreter : Interpreter) (hhook : interpreter.host.mergeDown = none) :
    (∀ (attach attach' : Attach) (target : Fields) (p q : Value), attach.mode = .merge →
      attach'.mode = .merge → AttachMode.merge.accepts target = true →
      p.isNullOrMapping = true → q.isNullOrMapping = true →
      p.entries.keys.Disjoint q.entries.keys → SlotSettled target p.entries q.entries →
      ∃ first final second final', attach.land target p = .ok first ∧
        attach'.land first q = .ok final ∧ attach'.land target q = .ok second ∧
        attach.land second p = .ok final' ∧ SameTarget Eq final final') ∧
    ∀ args (plan : Plan) state history before behind node folding between (content : Fields)
      (x y : Plan) attach attach',
      Reaches interpreter args plan state history before node folding between →
      folding.result.content = .mapping content →
      (∀ scope scope' a b, plan.children = before ++ (scope, x) :: (scope', y) :: behind →
        BothBring node content (scope, ⟨x, runPlan interpreter args x⟩)
          (scope', ⟨y, runPlan interpreter args y⟩) attach attach' a b →
        Swaps interpreter args plan state history before (scope, x) (scope', y) behind
          fun result result' => SameTarget (Value.Redated (Steady
            interpreter.settings.effortCounters (folding.close interpreter) a b))
            result.fields result'.fields) ∧
      (∀ list (lines : List Line),
        plan.children = before ++ (.each list, x) :: (.each list, y) :: behind →
        content.get? list = some (.list (lines.map fun line => .mapping line.element)) →
        x.attachDirective = .ok attach → y.attachDirective = .ok attach' →
        (∀ line ∈ lines, line.Exchanges node ⟨x, runPlan interpreter args x⟩
          ⟨y, runPlan interpreter args y⟩ attach attach') →
        Swaps interpreter args plan state history before (.each list, x) (.each list, y) behind
          fun result result' => ∃ elements elements' : List Fields,
            result.content = .mapping (content.insert list (.list (elements.map .mapping))) ∧
            result'.content = .mapping (content.insert list (.list (elements'.map .mapping))) ∧
            List.Forall₂ (SameTarget (Value.Redated (· ≠ "updated_at"))) elements elements') ∧
      ∀ scope scope' fields fields',
        plan.children = before ++ (scope, x) :: (scope', y) :: behind →
        BothWrite node content (scope, ⟨x, runPlan interpreter args x⟩)
          (scope', ⟨y, runPlan interpreter args y⟩) fields fields' →
        Swaps interpreter args plan state history before (scope, x) (scope', y) behind
          fun result result' => result.content.Reordered result'.content := by
  refine ⟨?_, ?_⟩
  · intro attach attach' target p q hmode hmode' haccepts hp hq hdisjoint hsettled
    have hslot := hasSlot_of_accepts haccepts
    exact ⟨_, _, _, _, (Attach.land_merge_iff hmode).mpr ⟨hslot, hp, rfl⟩,
      (Attach.land_merge_iff hmode').mpr ⟨hsettled.hasSlot, hq, rfl⟩,
      (Attach.land_merge_iff hmode').mpr ⟨hslot, hq, rfl⟩,
      (Attach.land_merge_iff hmode).mpr ⟨hsettled.symm.hasSlot, hp, rfl⟩,
      merged_swap hdisjoint hsettled⟩
  · intro args plan state history before behind node folding between content x y attach attach'
      hreaches hcontent
    refine ⟨fun scope scope' a b hchildren hboth => ?_,
      fun list lines hchildren hlist hattach hattach' hlines => ?_,
      fun scope scope' fields fields' hchildren hboth => ?_⟩
    · exact swaps_of_bothBring hhook hchildren hreaches hcontent hboth
    · exact swaps_of_lines hhook hchildren hreaches hcontent hlist hattach hattach' hlines
    · exact swaps_of_bothWrite hhook hchildren hreaches hcontent hboth

/-- A price and a stock are merged into an order in either order, a price and a count into
its lines, of which one has a content, and a price into the order and a count into the lines. -/
theorem merge_exchange_order :
    let attach : Attach := ⟨.merge, none, none⟩
    let price : Value := .mapping [("price", .null)]
    let stock : Value := .mapping [("content", .null), ("stock", .null)]
    let count : Value := .mapping [("count", .null)]
    let lines : List Value := [.mapping [("id", .null)], .mapping [("content", .null)]]
    let order : StepResult := .ofContent (.mapping [("lines", .list lines)])
    let interpreter : Interpreter := ⟨.byName [("order", order), ("price", .ofContent price),
      ("stock", .ofContent stock), ("count", .ofContent count)], .standard⟩
    let child : String → Plan := fun name => (Plan.named name).attach attach
    let root : List (Scope × Plan) → Plan := fun children =>
      { (Plan.named "order").attach .detached with children := children }
    let wrapped : Fields := [("content", .null)]
    interpreter.host.mergeDown = none ∧
      (∃ first final second final', attach.land wrapped price = .ok first ∧
        attach.land first stock = .ok final ∧ attach.land wrapped stock = .ok second ∧
        attach.land second price = .ok final' ∧ SameTarget Eq final final') ∧
      (∃ final final' after after',
        runPlan interpreter [] (root [(.this, child "price"), (.this, child "stock")]) .empty [] =
          .ok final after ∧
        runPlan interpreter [] (root [(.this, child "stock"), (.this, child "price")]) .empty [] =
          .ok final' after' ∧
        SameTarget (Value.Redated (Steady interpreter.settings.effortCounters order
          (.ofContent price) (.ofContent stock))) final.fields final'.fields) ∧
      (∃ final final' after after', ∃ elements elements' : List Fields,
        runPlan interpreter []
          (root [(.each "lines", child "price"), (.each "lines", child "count")]) .empty [] =
          .ok final after ∧
        runPlan interpreter []
          (root [(.each "lines", child "count"), (.each "lines", child "price")]) .empty [] =
          .ok final' after' ∧
        final.content = .mapping [("lines", .list (elements.map .mapping))] ∧
        final'.content = .mapping [("lines", .list (elements'.map .mapping))] ∧
        List.Forall₂ (SameTarget (Value.Redated (· ≠ "updated_at"))) elements elements') ∧
      ∃ final final' after after',
        runPlan interpreter []
          (root [(.this, child "price"), (.each "lines", child "count")]) .empty [] =
          .ok final after ∧
        runPlan interpreter []
          (root [(.each "lines", child "count"), (.this, child "price")]) .empty [] =
          .ok final' after' ∧
        final.content.Reordered final'.content := by
  intro attach price stock count lines order interpreter child root wrapped
  obtain ⟨hland, hrun⟩ := merge_exchange interpreter rfl
  let node := fun children => nodeOf interpreter [] (root children) .empty "order" order
  have hreaches : ∀ children, Reaches interpreter [] (root children) .empty [] []
      (node children) ⟨order, false⟩ [.run ⟨(root children).fields⟩ []] :=
    fun children => ⟨"order", order, _, rfl, rfl, rfl, rfl⟩
  have hdisjoint : (["price"] : List String).Disjoint ["content", "stock"] := by simp
  have hdisjoint' : (["price"] : List String).Disjoint ["count"] := by simp
  have hmerges : ∀ fields, attach.Merges (.ofContent (.mapping fields)) :=
    fun fields => ⟨rfl, by simp [Attach.Takes, attach], rfl⟩
  have hboth : BothBring (node [(.this, child "price"), (.this, child "stock")])
      [("lines", .list lines)] (.this, ⟨child "price", runPlan interpreter [] (child "price")⟩)
      (.this, ⟨child "stock", runPlan interpreter [] (child "stock")⟩) attach attach
      (.ofContent price) (.ofContent stock) := by
    refine ⟨hmerges _, hmerges _, hdisjoint, ?_, ?_, ?_, ?_⟩ <;>
      exact ⟨_, _, rfl, rfl, fun history => ⟨_, rfl⟩⟩
  have hlines : ∀ line ∈ [Line.mk [("id", .null)] (.ofContent price) (.ofContent count),
      ⟨[("content", .null)], .ofContent price, .ofContent count⟩],
      line.Exchanges (node [(.each "lines", child "price"), (.each "lines", child "count")])
        ⟨child "price", runPlan interpreter [] (child "price")⟩
        ⟨child "count", runPlan interpreter [] (child "count")⟩ attach attach := by
    intro line hmem
    simp only [List.mem_cons, List.not_mem_nil, or_false] at hmem
    rcases hmem with rfl | rfl
    · refine ⟨rfl, hmerges _, hmerges _, hdisjoint', .inr ⟨⟨by decide, fun _ _ => rfl⟩, by decide,
        fun _ _ => rfl⟩, ?_, ?_, ?_, ?_⟩ <;> exact fun history => ⟨_, .run rfl rfl rfl⟩
    · refine ⟨rfl, hmerges _, hmerges _, hdisjoint', .inl rfl, ?_, ?_, ?_, ?_⟩ <;>
        exact fun history => ⟨_, .run rfl rfl rfl⟩
  let counted : List (Fields × StepResult) :=
    [([("id", .null)], .ofContent count), ([("content", .null)], .ofContent count)]
  have hboth' : BothWrite (node [(.this, child "price"), (.each "lines", child "count")])
      [("lines", .list lines)] (.this, ⟨child "price", runPlan interpreter [] (child "price")⟩)
      (.each "lines", ⟨child "count", runPlan interpreter [] (child "count")⟩)
      [("price", .null)] [("lines", .list (counted.map fun line =>
        .mapping (mergedChild line.1 line.2 (attach.brought line.2))))] := by
    have hcounts : ∀ line ∈ counted, AttachMode.merge.accepts line.1 = true ∧
        attach.Merges line.2 ∧
        Supplies (node [(.this, child "price"), (.each "lines", child "count")])
          ⟨child "count", runPlan interpreter [] (child "count")⟩ line.1 line.2 := by
      intro line hmem
      simp only [counted, List.mem_cons, List.not_mem_nil, or_false] at hmem
      rcases hmem with rfl | rfl <;>
        exact ⟨rfl, hmerges _, fun history => ⟨_, .run rfl rfl rfl⟩⟩
    have hprice := hmerges [("price", .null)]
    refine ⟨?_, .fields hprice ?_, .elements rfl rfl hcounts, .fields hprice ?_,
      .elements rfl rfl hcounts⟩
    · show (["price"] : List String).Disjoint ["lines"]
      simp
    all_goals exact ⟨_, _, rfl, rfl, fun history => ⟨_, rfl⟩⟩
  obtain ⟨_, _, _, _, after, after', _, _, _, hthis⟩ :=
    (hrun [] _ .empty [] [] [] _ _ _ _ _ _ attach attach (hreaches _) rfl).1 _ _ _ _ rfl hboth
  obtain ⟨final, final', hfirst, hsecond, hsame⟩ := hthis rfl
  obtain ⟨_, _, _, _, last, last', _, _, _, heach⟩ :=
    (hrun [] _ .empty [] [] [] _ _ _ _ _ _ attach attach (hreaches _) rfl).2.1 _ _ rfl rfl rfl
      rfl hlines
  obtain ⟨other, other', hone, htwo, elements, elements', hcontent, hcontent', hall⟩ := heach rfl
  obtain ⟨_, _, _, _, end₁, end₂, _, _, _, hmixed⟩ :=
    (hrun [] _ .empty [] [] [] _ _ _ _ _ _ attach attach (hreaches _) rfl).2.2 _ _ _ _ rfl hboth'
  obtain ⟨mixed, mixed', hpriced, hcounted, hcontents⟩ := hmixed rfl
  exact ⟨rfl, hland attach attach wrapped price stock rfl rfl rfl rfl rfl hdisjoint (.inl rfl),
    ⟨final, final', after, after', hfirst, hsecond, hsame⟩,
    ⟨other, other', last, last', elements, elements', hone, htwo, hcontent, hcontent', hall⟩,
    mixed, mixed', end₁, end₂, hpriced, hcounted, hcontents⟩

/-- Into a line without a content, one child merges a key `content` and one another key. The
second payload lands in the content that the first one brought, or beside it. And metadata
that one child merges is dated anew by a later child that comes second, and not first. -/
theorem merge_exchange_bare :
    let attach : Attach := ⟨.merge, none, none⟩
    let p : Value := .mapping [("content", .mapping [("a", .null)])]
    let q : Value := .mapping [("b", .null)]
    let dated : String → Value := fun text => .mapping [("updated_at", .string text)]
    let inside : Fields := [("content", .mapping [("a", .null), ("b", .null)])]
    let beside : Fields := [("b", .null), ("content", .mapping [("a", .null)])]
    let renewed : Fields := [("metadata", dated "2025-01-01T00:00:00Z"), ("b", .null)]
    let kept : Fields := [("b", .null), ("metadata", dated "2024-01-01T00:00:00Z")]
    let order : Fields → StepResult := fun line =>
      .ofContent (.mapping [("lines", .list [.mapping line])])
    let interpreter : Interpreter := ⟨.byName [("order", order []), ("p", .ofContent p),
      ("q", .ofContent q),
      ("date", .ofContent (.mapping [("metadata", dated "2024-01-01T00:00:00Z")])),
      ("later", ⟨[("content", q), ("metadata", dated "2025-01-01T00:00:00Z")]⟩)], .standard⟩
    let child : String → Scope × Plan :=
      fun name => (.each "lines", (Plan.named name).attach attach)
    let root : List (Scope × Plan) → Plan := fun children =>
      { (Plan.named "order").attach .detached with children := children }
    AttachMode.merge.accepts [] = true ∧ p.entries.keys.Disjoint q.entries.keys ∧
      (∃ first second, attach.land [] p = .ok first ∧ attach.land first q = .ok inside ∧
        attach.land [] q = .ok second ∧ attach.land second p = .ok beside) ∧
      (∃ after, runPlan interpreter [] (root [child "p", child "q"]) .empty [] =
        .ok (order inside) after) ∧
      (∃ after, runPlan interpreter [] (root [child "q", child "p"]) .empty [] =
        .ok (order beside) after) ∧
      (∀ related, ¬SameTarget related inside beside) ∧
      (∃ after, runPlan interpreter [] (root [child "date", child "later"]) .empty [] =
        .ok (order renewed) after) ∧
      (∃ after, runPlan interpreter [] (root [child "later", child "date"]) .empty [] =
        .ok (order kept) after) ∧
      ∀ readable, ¬SameTarget (Value.Redated readable) renewed kept := by
  intro attach p q dated inside beside renewed kept order interpreter child root
  have hdisjoint : (["content"] : List String).Disjoint ["b"] := by simp
  refine ⟨rfl, hdisjoint, ⟨_, _, rfl, rfl, rfl, rfl⟩, ⟨_, rfl⟩, ⟨_, rfl⟩, ?_, ⟨_, rfl⟩,
    ⟨_, rfl⟩, ?_⟩
  · intro related h
    have hlength := h.keys.length_eq
    cases hlength
  · intro readable h
    have hmetadata : Option.Rel (Value.Redated readable)
        (some (.mapping [("updated_at", .string "2025-01-01T00:00:00Z")]))
        (some (.mapping [("updated_at", .string "2024-01-01T00:00:00Z")])) := h.metadata
    cases hmetadata with
    | some hdated =>
      have hstamps : Option.Rel Timestamp.SameInstant (some ⟨63902908800, 0, 0⟩)
          (some ⟨63871286400, 0, 0⟩) := hdated.sameInstant
      cases hstamps with
      | some hsame => cases hsame.1

end Interpreter

end PlanFold
