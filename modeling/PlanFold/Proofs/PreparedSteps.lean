import PlanFold.Proofs.Checks
import PlanFold.Proofs.ReferenceForms

/-!
# What becomes of the fields of a plan

A field that is structural, or no mapping with the key `ref`, is in the step as
it is in the plan. A reference yields the attribute of its container, less its
duration, and that value is not looked at again. The container is what the host
supplies, or else what the path has bound.

A reference that yields no value has the first of its faults as the error: in
its form, at the host, in its container, in its attribute, in its duration. Of a
plan, the first field without a value decides. What the host has been asked by
then are the containers of the references before.
-/

set_option autoImplicit false

namespace PlanFold.Interpreter

variable (host : Host) (state : State) (args : List Value)

def supplied (history : History) (name : String) : Except String (Option Value) :=
  match host.unpack with
  | some unpack => unpack history name args
  | none => .ok none

inductive Holds (history : History) (name : String) : Value → Prop
  | host {found : Value} : supplied host args history name = .ok (some found) →
      Holds history name found
  | bound {found : Value} : supplied host args history name = .ok none →
      state.get? name = some found → Holds history name found

inductive Reduces (item : Value) : Option String → Except PlanError Value → Prop
  | nothing : Reduces item none (.ok item)
  | duration {text : String} {duration : Duration} {reduced : Value} :
      Duration.ofText? text = some duration → duration.subtractFrom? item = some reduced →
      Reduces item (some text) (.ok reduced)
  | unread {text : String} : Duration.ofText? text = none →
      Reduces item (some text) (.error (.invalidDuration text))
  | unbounded {text : String} {duration : Duration} :
      Duration.ofText? text = some duration → duration.subtractFrom? item = none →
      Reduces item (some text) (.error (.unboundedShift text))

inductive ReferenceYields (history : History) (reference : Reference) :
    Except PlanError Value → Prop
  | refused {text : String} : supplied host args history reference.container = .error text →
      ReferenceYields history reference (.error (.host text))
  | unknownContainer : supplied host args history reference.container = .ok none →
      state.get? reference.container = none →
      ReferenceYields history reference (.error (.unknownContainer reference.container))
  | unknownAttribute {found : Value} : Holds host state args history reference.container found →
      reference.member.bind found.field? = none →
      ReferenceYields history reference (.error (.unknownAttribute reference.container
        (reference.member.getD "") ((found.fields?.map Fields.keys).getD [])))
  | member {found item : Value} {outcome : Except PlanError Value} :
      Holds host state args history reference.container found →
      reference.member.bind found.field? = some item → Reduces item reference.minus outcome →
      ReferenceYields history reference outcome

inductive Yields (history : History) (name : String) (value : Value) :
    Except PlanError Value → Prop
  | kept : ¬ReferenceShaped name value → Yields history name value (.ok value)
  | faulty {fault : ReferenceFault} : isStructural name = false → Reference.Faulty value fault →
      Yields history name value (.error (.invalidReference name fault))
  | reference {reference : Reference} {outcome : Except PlanError Value} :
      isStructural name = false → Reference.Denotes value reference →
      ReferenceYields host state args history reference outcome →
      Yields history name value outcome

def reached (history : History) (fields : Fields) : History :=
  history ++ callsOf (referenceWord host args fields)

/-- The fields of a plan and those of its step: the same names in the same order, each with
the value that it yields where it is reached. -/
inductive YieldsAll : History → Fields → Fields → Prop
  | nil {history : History} : YieldsAll history [] []
  | cons {history : History} {name : String} {value result : Value} {rest others : Fields} :
      Yields host state args history name value (.ok result) →
      YieldsAll (reached host args history [(name, value)]) rest others →
      YieldsAll history ((name, value) :: rest) ((name, result) :: others)

variable {host state args} {history after : History}

theorem reached_nil (history : History) : reached host args history [] = history :=
  List.append_nil history

theorem reached_append (history : History) (first second : Fields) :
    reached host args history (first ++ second) =
      reached host args (reached host args history first) second := by
  have happend : containersOf (first ++ second) = containersOf first ++ containersOf second :=
    List.filterMap_append
  simp only [reached, referenceWord, happend, List.flatMap_append, callsOf_append,
    List.append_assoc]

theorem reached_cons (history : History) (field : String × Value) (rest : Fields) :
    reached host args history (field :: rest) =
      reached host args (reached host args history [field]) rest :=
  reached_append history [field] rest

theorem ask_run (name : String) (history : History) :
    Run.callHook host.unpack (.unpack name args)
        (fun unpack earlier => unpack earlier name args) none history =
      match supplied host args history name with
      | .ok answer => .ok answer (history ++ callsOf (containerWord host args name))
      | .error text => .error (.host text) (history ++ callsOf (containerWord host args name)) := by
  unfold supplied containerWord Prompt.ofHook Run.callHook
  cases host.unpack with
  | none => exact congrArg (EStateM.Result.ok none) (List.append_nil history).symm
  | some unpack =>
    unfold Run.call
    dsimp only
    cases unpack history name args <;> rfl

theorem container_of_refused {name text : String}
    (h : supplied host args history name = .error text) :
    container host state args name history =
      .error (.host text) (history ++ callsOf (containerWord host args name)) := by
  rw [container, Run.bind_run, ask_run, h]

theorem container_of_unknown {name : String} (h : supplied host args history name = .ok none)
    (hstate : state.get? name = none) :
    container host state args name history =
      .error (.unknownContainer name) (history ++ callsOf (containerWord host args name)) := by
  rw [container, Run.bind_run, ask_run, h, hstate]
  rfl

theorem container_of_holds {name : String} {found : Value}
    (h : Holds host state args history name found) :
    container host state args name history =
      .ok found (history ++ callsOf (containerWord host args name)) := by
  cases h with
  | host h => rw [container, Run.bind_run, ask_run, h]; rfl
  | bound h hstate => rw [container, Run.bind_run, ask_run, h, hstate]; rfl

theorem Reduces.adjust {item : Value} {minus : Option String} {outcome : Except PlanError Value}
    (h : Reduces item minus outcome) : adjust minus item = outcome := by
  unfold Interpreter.adjust
  cases h with
  | nothing => rfl
  | duration hread hreduced => simp only [hread, hreduced]
  | unread hread => simp only [hread]
  | unbounded hread hreduced => simp only [hread, hreduced]

theorem exists_reduces (item : Value) (minus : Option String) :
    ∃ outcome, Reduces item minus outcome := by
  cases minus with
  | none => exact ⟨_, .nothing⟩
  | some text =>
    cases hread : Duration.ofText? text with
    | none => exact ⟨_, .unread hread⟩
    | some duration =>
      cases hreduced : duration.subtractFrom? item with
      | none => exact ⟨_, .unbounded hread hreduced⟩
      | some reduced => exact ⟨_, .duration hread hreduced⟩

theorem ReferenceYields.resolve {reference : Reference} {outcome : Except PlanError Value}
    (h : ReferenceYields host state args history reference outcome) :
    Interpreter.resolve host state args reference history = Run.ofExcept outcome
      (history ++ callsOf (containerWord host args reference.container)) := by
  rw [Interpreter.resolve, Run.bind_run]
  cases h with
  | refused h => rw [container_of_refused h]; rfl
  | unknownContainer h hstate => rw [container_of_unknown h hstate]; rfl
  | unknownAttribute h hitem =>
    rw [container_of_holds h]
    dsimp only
    rw [readAttribute, hitem]
    rfl
  | member h hitem hreduces =>
    rw [container_of_holds h]
    dsimp only
    rw [readAttribute_ok_iff.mpr hitem, ← hreduces.adjust]
    rfl

theorem exists_referenceYields (reference : Reference) (history : History) :
    ∃ outcome, ReferenceYields host state args history reference outcome := by
  have hfound : ∀ found, Holds host state args history reference.container found →
      ∃ outcome, ReferenceYields host state args history reference outcome := by
    intro found hholds
    cases hitem : reference.member.bind found.field? with
    | none => exact ⟨_, .unknownAttribute hholds hitem⟩
    | some item =>
      obtain ⟨outcome, hreduces⟩ := exists_reduces item reference.minus
      exact ⟨outcome, .member hholds hitem hreduces⟩
  cases hsupplied : supplied host args history reference.container with
  | error text => exact ⟨_, .refused hsupplied⟩
  | ok answer =>
    cases answer with
    | some found => exact hfound found (.host hsupplied)
    | none =>
      cases hstate : state.get? reference.container with
      | none => exact ⟨_, .unknownContainer hsupplied hstate⟩
      | some found => exact hfound found (.bound hsupplied hstate)

theorem ReferenceShaped.denotes_or_faulty {name : String} {value : Value}
    (h : ReferenceShaped name value) :
    (∃ reference, Reference.Denotes value reference) ∨
      ∃ fault, Reference.Faulty value fault := by
  obtain ⟨_, descriptor, rfl, hcontains⟩ := h
  obtain ⟨target, htarget⟩ := Option.isSome_iff_exists.mp hcontains
  exact Reference.denotes_or_faulty htarget

theorem reached_of_not_reference {name : String} {value : Value}
    (h : isStructural name = false → ∀ reference,
      Reference.ofValue value ≠ .ok (some reference)) :
    reached host args history [(name, value)] = history := by
  have hnone : containersOf [(name, value)] = [] := by
    cases hname : isStructural name with
    | true => simp [containersOf, hname]
    | false =>
      cases hvalue : Reference.ofValue value with
      | error fault => simp [containersOf, hvalue]
      | ok shape =>
        cases shape with
        | none => simp [containersOf, hvalue]
        | some reference => exact absurd hvalue (h hname reference)
  rw [reached, referenceWord, hnone]
  exact List.append_nil history

theorem reached_of_reference {name : String} {value : Value} {reference : Reference}
    (hname : isStructural name = false)
    (hreference : Reference.ofValue value = .ok (some reference)) :
    reached host args history [(name, value)] =
      history ++ callsOf (containerWord host args reference.container) := by
  simp [reached, referenceWord, containersOf, hname, hreference]

/-- A field comes to what it yields, and has asked for its container if it has one. -/
theorem Yields.resolveField {name : String} {value : Value} {outcome : Except PlanError Value}
    (h : Yields host state args history name value outcome) :
    Interpreter.resolveField host state args name value history =
      Run.ofExcept outcome (reached host args history [(name, value)]) := by
  cases h with
  | kept hshape =>
    rw [resolveField_of_not_shaped hshape, reached_of_not_reference]
    · rfl
    · intro hname reference hreference
      cases Reference.ofValue_eq_some_iff.mp hreference with
      | mapping htarget _ _ _ =>
        exact hshape ⟨hname, _, rfl, Fields.contains_of_get? htarget⟩
  | faulty hname hfault =>
    have herror := hfault.ofValue
    rw [reached_of_not_reference (by intro _ reference h; cases herror.symm.trans h)]
    unfold Interpreter.resolveField
    rw [hname, if_neg Bool.false_ne_true, herror]
    rfl
  | reference hname hdenotes hyields =>
    have hreference := hdenotes.ofValue
    rw [resolveField_of_reference hname hreference, reached_of_reference hname hreference]
    exact hyields.resolve

theorem exists_yields (name : String) (value : Value) (history : History) :
    ∃ outcome, Yields host state args history name value outcome := by
  by_cases hshape : ReferenceShaped name value
  · rcases hshape.denotes_or_faulty with ⟨reference, hdenotes⟩ | ⟨fault, hfaulty⟩
    · obtain ⟨outcome, hyields⟩ :
          ∃ outcome, ReferenceYields host state args history reference outcome :=
        exists_referenceYields reference history
      exact ⟨outcome, .reference hshape.1 hdenotes hyields⟩
    · exact ⟨_, .faulty hshape.1 hfaulty⟩
  · exact ⟨_, .kept hshape⟩

theorem resolveField_iff {name : String} {value : Value} (outcome : Except PlanError Value) :
    resolveField host state args name value history = Run.ofExcept outcome after ↔
      Yields host state args history name value outcome ∧
        after = reached host args history [(name, value)] := by
  constructor
  · intro h
    obtain ⟨_, hyields⟩ : ∃ outcome, Yields host state args history name value outcome :=
      exists_yields name value history
    rw [hyields.resolveField] at h
    obtain ⟨rfl, rfl⟩ := Run.ofExcept_eq_iff.mp h
    exact ⟨hyields, rfl⟩
  · rintro ⟨hyields, rfl⟩
    exact hyields.resolveField

theorem resolveField_ok_iff {name : String} {value result : Value} :
    resolveField host state args name value history = .ok result after ↔
      Yields host state args history name value (.ok result) ∧
        after = reached host args history [(name, value)] :=
  resolveField_iff (.ok result)

theorem resolveField_error_iff {name : String} {value : Value} {e : PlanError} :
    resolveField host state args name value history = .error e after ↔
      Yields host state args history name value (.error e) ∧
        after = reached host args history [(name, value)] :=
  resolveField_iff (.error e)

theorem resolveFields_ok_iff {fields results : Fields} :
    resolveFields host state args fields history = .ok results after ↔
      YieldsAll host state args history fields results ∧
        after = reached host args history fields := by
  induction fields generalizing history results with
  | nil =>
    rw [resolveFields, Run.pure_ok_iff, reached_nil]
    constructor
    · rintro ⟨rfl, rfl⟩
      exact ⟨.nil, rfl⟩
    · rintro ⟨⟨⟩, rfl⟩
      exact ⟨rfl, rfl⟩
  | cons field rest ih =>
    obtain ⟨name, value⟩ := field
    rw [resolveFields, Run.bind_ok_iff, reached_cons]
    constructor
    · rintro ⟨result, between, hfield, h⟩
      obtain ⟨others, later, hrest, h⟩ := Run.bind_ok_iff.mp h
      obtain ⟨rfl, rfl⟩ := Run.pure_ok_iff.mp h
      obtain ⟨hyields, rfl⟩ := resolveField_ok_iff.mp hfield
      obtain ⟨hall, hlater⟩ := ih.mp hrest
      exact ⟨.cons hyields hall, hlater⟩
    · rintro ⟨hall, hafter⟩
      cases hall with
      | cons hyields hrest =>
        refine ⟨_, _, resolveField_ok_iff.mpr ⟨hyields, rfl⟩, ?_⟩
        exact Run.bind_ok_iff.mpr ⟨_, _, ih.mpr ⟨hrest, hafter⟩, rfl⟩

/-- The first field that yields no value decides. -/
theorem resolveFields_error_iff {fields : Fields} {e : PlanError} :
    resolveFields host state args fields history = .error e after ↔
      ∃ before name value rest results, fields = before ++ (name, value) :: rest ∧
        YieldsAll host state args history before results ∧
        Yields host state args (reached host args history before) name value (.error e) ∧
        after = reached host args history (before ++ [(name, value)]) := by
  constructor
  · intro h
    obtain ⟨before, name, value, rest, results, between, hsplit, hbefore, hfield⟩ :=
      exists_unresolved h
    obtain ⟨hall, rfl⟩ := resolveFields_ok_iff.mp hbefore
    obtain ⟨hyields, rfl⟩ := resolveField_error_iff.mp hfield
    exact ⟨before, name, value, rest, results, hsplit, hall, hyields,
      (reached_append _ _ _).symm⟩
  · rintro ⟨before, name, value, rest, results, rfl, hall, hyields, rfl⟩
    rw [reached_append]
    exact resolveFields_of_error (resolveFields_ok_iff.mpr ⟨hall, rfl⟩)
      (resolveField_error_iff.mpr ⟨hyields, rfl⟩)

theorem YieldsAll.keys {fields results : Fields}
    (h : YieldsAll host state args history fields results) : results.keys = fields.keys := by
  induction h with
  | nil => rfl
  | cons _ _ ih => exact congrArg (_ :: ·) ih

theorem YieldsAll.of_split {before rest results : Fields} {name : String} {value : Value}
    (h : YieldsAll host state args history (before ++ (name, value) :: rest) results) :
    ∃ result, Yields host state args (reached host args history before) name value
      (.ok result) := by
  induction before generalizing history results with
  | nil =>
    cases h with
    | cons hyields _ => exact ⟨_, by rwa [reached_nil]⟩
  | cons field before ih =>
    cases h with
    | cons _ hrest =>
      rw [reached_cons]
      exact ih hrest

theorem exists_yieldsAll_iff {fields : Fields} :
    (∃ results, YieldsAll host state args history fields results) ↔
      ∀ before name value rest, fields = before ++ (name, value) :: rest →
        ReferenceShaped name value → ∃ result,
          Yields host state args (reached host args history before) name value (.ok result) := by
  constructor
  · rintro ⟨results, hall⟩ before name value rest rfl _
    exact hall.of_split
  · intro h
    cases hrun : resolveFields host state args fields history with
    | ok results later => exact ⟨results, (resolveFields_ok_iff.mp hrun).1⟩
    | error e later =>
      obtain ⟨before, name, value, rest, _, hsplit, _, herror, _⟩ :=
        resolveFields_error_iff.mp hrun
      have hfield := resolveField_error_iff.mpr ⟨herror, rfl⟩
      obtain ⟨result, hyields⟩ := h before name value rest hsplit (shaped_of_error hfield)
      have hvalue := resolveField_ok_iff.mpr ⟨hyields, rfl⟩
      cases hfield.symm.trans hvalue

theorem prepare_of_uninterpolated (hhost : host.interpolate = none) (plan : Plan) :
    prepare host plan state args history =
      match resolveFields host state args plan.fields history with
      | .ok fields later => .ok ⟨fields⟩ later
      | .error e later => .error e later := by
  unfold prepare Run.callHook
  rw [hhost, Run.bind_run]
  cases resolveFields host state args plan.fields history <;> rfl

/-- Without a hook that changes steps, a plan is prepared exactly where each of its
references yields a value. The step then has the fields of the plan, in order, each with the
value that it yields; otherwise the error is that of the first field that yields none. The
host has been asked for the containers of the references up to there. -/
theorem prepare_yields (hhost : host.interpolate = none) (plan : Plan) (state : State)
    (args : List Value) (history : History) :
    ((∃ step after, prepare host plan state args history = .ok step after) ↔
      ∀ before name value rest, plan.fields = before ++ (name, value) :: rest →
        ReferenceShaped name value → ∃ result,
          Yields host state args (reached host args history before) name value (.ok result)) ∧
    (∀ step after, prepare host plan state args history = .ok step after ↔
      YieldsAll host state args history plan.fields step.fields ∧
        after = reached host args history plan.fields) ∧
    (∀ step after, prepare host plan state args history = .ok step after →
      step.fields.keys = plan.fields.keys) ∧
    ∀ e after, prepare host plan state args history = .error e after ↔
      ∃ before name value rest results, plan.fields = before ++ (name, value) :: rest ∧
        YieldsAll host state args history before results ∧
        Yields host state args (reached host args history before) name value (.error e) ∧
        after = reached host args history (before ++ [(name, value)]) := by
  have hok : ∀ step after, prepare host plan state args history = .ok step after ↔
      YieldsAll host state args history plan.fields step.fields ∧
        after = reached host args history plan.fields := by
    intro step after
    rw [← resolveFields_ok_iff, prepare_of_uninterpolated hhost]
    obtain ⟨fields⟩ := step
    cases resolveFields host state args plan.fields history <;> simp
  refine ⟨?_, hok, fun step after h => ((hok step after).mp h).1.keys, ?_⟩
  · rw [← exists_yieldsAll_iff]
    constructor
    · rintro ⟨step, after, h⟩
      exact ⟨step.fields, ((hok step after).mp h).1⟩
    · rintro ⟨fields, hall⟩
      exact ⟨⟨fields⟩, _, (hok ⟨fields⟩ _).mpr ⟨hall, rfl⟩⟩
  · intro e after
    rw [← resolveFields_error_iff, prepare_of_uninterpolated hhost]
    cases resolveFields host state args plan.fields history <;> simp

/-- The host's container goes before the bound one, what it holds is not looked at again, and
a number less two seconds is taken from what is bound. -/
theorem prepare_yields_supplied :
    let shelf : Value := .mapping [("c", .mapping [("ref", .string "pie.n")])]
    let host : Host := ⟨fun _ _ _ => .ok .empty, none,
      some fun _ name _ => .ok (if name = "cake" then some shelf else none), none, none⟩
    let state : State := .ofList [("cake", .mapping [("c", .ofWhole 1)]),
      ("pie", .mapping [("n", .ofWhole 5)])]
    let plan : Plan := .ofFields [("stop_if", .mapping [("ref", .string "none.x")]),
      ("v", .mapping [("ref", .string "cake.c.d")]),
      ("t", .mapping [("ref", .string "pie.n"), ("minus", .string "PT2S")])]
    host.interpolate = none ∧
      prepare host plan state [] [] = .ok ⟨[("stop_if", .mapping [("ref", .string "none.x")]),
        ("v", .mapping [("ref", .string "pie.n")]), ("t", .ofWhole 3)]⟩
        [.unpack "cake" [], .unpack "pie" []] := by
  intro shelf host state plan
  have hcake : Text.Leads "cake.c.d" "cake" (some "c") :=
    Text.segments_iff.mp ⟨by decide +kernel, by decide +kernel⟩
  have hpie : Text.Leads "pie.n" "pie" (some "n") :=
    Text.segments_iff.mp ⟨by decide +kernel, by decide +kernel⟩
  have hduration : ∃ d, Duration.ofText? "PT2S" = some d ∧
      d.subtractFrom? (.ofWhole 5) = some (.ofWhole 3) := by
    let x : Numeric.Double := ⟨false, 2 * Numeric.unitsInOne, by decide +kernel⟩
    have hnumber : Duration.subtractFromNumber ⟨.finite x⟩ (.whole (.saturated 5)) =
        .whole (.saturated 3) := by decide +kernel
    exact ⟨⟨.finite x⟩, by decide +kernel, congrArg (some ∘ Value.number) hnumber⟩
  obtain ⟨d, hread, hreduced⟩ := hduration
  have hv : Reference.Denotes (.mapping [("ref", .string "cake.c.d")]) ⟨"cake", some "c", none⟩ :=
    .mapping rfl (by decide) hcake (.absent rfl)
  have ht : Reference.Denotes (.mapping [("ref", .string "pie.n"), ("minus", .string "PT2S")])
      ⟨"pie", some "n", some "PT2S"⟩ := .mapping rfl (by decide) hpie (.text rfl)
  refine ⟨rfl, ((prepare_yields rfl plan state [] []).2.1 _ _).mpr ⟨?_, ?_⟩⟩
  · refine .cons (.kept fun h => absurd h.1 (by decide +kernel)) (.cons ?_ (.cons ?_ .nil))
    · exact .reference (by decide +kernel) hv (.member (.host rfl) rfl .nothing)
    · exact .reference (by decide +kernel) ht
        (.member (.bound rfl rfl) rfl (.duration hread hreduced))
  · have hcontainers : containersOf plan.fields = ["cake", "pie"] := by decide +kernel
    rw [reached, referenceWord, hcontainers]
    rfl

end PlanFold.Interpreter
