import Mathlib.Data.List.Lex
import Mathlib.Data.Prod.Lex
import PlanFold.Proofs.CallOrder
import PlanFold.Proofs.PathStates

/-!
# The order in which nodes are entered

From the moment a node is entered on, a run does what the node does and then
the rest. So a run fails as soon as a node on one of its paths does, and with
its error. At that point every other node that was entered is one above, one
below, or one that was left before.
-/

set_option autoImplicit false

namespace PlanFold

namespace Run

variable {α β γ : Type} {history between later : History}

def calls (x : Run α) (history : History) : History :=
  match x history with
  | .ok _ after => after
  | .error _ after => after

theorem calls_of_ok {x : Run α} {a : α} {after : History} (hx : x history = .ok a after) :
    x.calls history = after := by
  unfold calls
  rw [hx]

theorem calls_of_error {x : Run α} {e : PlanError} {after : History}
    (hx : x history = .error e after) : x.calls history = after := by
  unfold calls
  rw [hx]

theorem call_of_ok {c : Call} {answer : History → Except String α} {a : α}
    (h : answer history = .ok a) : call c answer history = .ok a (history ++ [c]) := by
  unfold call
  rw [h]

theorem call_of_error {c : Call} {answer : History → Except String α} {text : String}
    (h : answer history = .error text) :
    call c answer history = .error (.host text) (history ++ [c]) := by
  unfold call
  rw [h]

def Grows (x : Run α) : Prop := ∀ history, history <+: x.calls history

theorem Grows.of_ok {x : Run α} (h : x.Grows) {a : α} {after : History}
    (hx : x history = .ok a after) : history <+: after := by
  rw [← calls_of_ok hx]
  exact h history

theorem Grows.of_error {x : Run α} (h : x.Grows) {e : PlanError} {after : History}
    (hx : x history = .error e after) : history <+: after := by
  rw [← calls_of_error hx]
  exact h history

theorem Says.calls {x : Run α} {word : List Prompt} (h : x.Says history word) :
    ∃ done, done <+: word ∧ x.calls history = history ++ callsOf done := by
  cases hx : x history with
  | ok a after =>
    rw [calls_of_ok hx]
    exact ⟨word, List.prefix_refl _, (h.of_ok hx).2⟩
  | error e after =>
    obtain ⟨done, rest, rfl, _, hafter⟩ := h.of_error hx
    rw [calls_of_error hx]
    exact ⟨done, List.prefix_append _ _, hafter⟩

theorem grows_of_says {x : Run α} (h : ∀ history, ∃ word, x.Says history word) : x.Grows := by
  intro history
  obtain ⟨word, hword⟩ := h history
  obtain ⟨done, _, hcalls⟩ := hword.calls
  rw [hcalls]
  exact List.prefix_append _ _

theorem grows_pure (a : α) : (pure a : Run α).Grows :=
  grows_of_says fun history => ⟨[], says_pure a history⟩

theorem calls_bind_of_ok {x : Run α} {f : α → Run β} {a : α}
    (hx : x history = .ok a between) : (x >>= f).calls history = (f a).calls between := by
  unfold calls
  rw [bind_run, hx]

theorem calls_bind_of_error {x : Run α} {f : α → Run β} {e : PlanError}
    (hx : x history = .error e between) : (x >>= f).calls history = between := by
  unfold calls
  rw [bind_run, hx]

theorem Grows.bind {x : Run α} {f : α → Run β} (hx : x.Grows) (hf : ∀ a, (f a).Grows) :
    (x >>= f).Grows := by
  intro history
  cases hrun : x history with
  | error e between =>
    rw [calls_bind_of_error hrun]
    exact hx.of_error hrun
  | ok a between =>
    rw [calls_bind_of_ok hrun]
    exact (hx.of_ok hrun).trans (hf a between)

def Enters (x : Run β) (history : History) (y : Run α) (later : History) : Prop :=
  history <+: later ∧ ∃ rest : α → Run β, (∀ a, (rest a).Grows) ∧
    x history = (y >>= rest) later

theorem Enters.refl (x : Run α) (history : History) : x.Enters history x history := by
  refine ⟨List.prefix_refl _, pure, grows_pure, ?_⟩
  rw [bind_pure]

theorem Enters.trans {x : Run γ} {y : Run β} {z : Run α} (hxy : x.Enters history y between)
    (hyz : y.Enters between z later) : x.Enters history z later := by
  obtain ⟨hfirst, rest, hrest, hx⟩ := hxy
  obtain ⟨hsecond, more, hmore, hy⟩ := hyz
  refine ⟨hfirst.trans hsecond, fun a => more a >>= rest, fun a => (hmore a).bind hrest, ?_⟩
  rw [hx, bind_run, hy, ← bind_run, bind_assoc]

theorem Enters.bind {x : Run β} {y : Run α} {f : β → Run γ} (h : x.Enters history y later)
    (hf : ∀ b, (f b).Grows) : (x >>= f).Enters history y later := by
  obtain ⟨hgrown, rest, hrest, hx⟩ := h
  refine ⟨hgrown, fun a => rest a >>= f, fun a => (hrest a).bind hf, ?_⟩
  rw [bind_run, hx, ← bind_run, bind_assoc]

theorem Enters.after {x : Run γ} {y : Run α} {f : γ → Run β} {c : γ}
    (hx : x history = .ok c between) (hgrown : history <+: between)
    (h : (f c).Enters between y later) : (x >>= f).Enters history y later := by
  obtain ⟨hlater, rest, hrest, hf⟩ := h
  refine ⟨hgrown.trans hlater, rest, hrest, ?_⟩
  rw [bind_run, hx]
  exact hf

theorem Enters.of_ofExcept {x : Except PlanError γ} {y : Run α} {f : γ → Run β} {c : γ}
    (hx : x = .ok c) (h : (f c).Enters history y later) :
    (ofExcept x >>= f).Enters history y later :=
  .after (ofExcept_ok_iff.mpr ⟨hx, rfl⟩) (List.prefix_refl _) h

/-- If the whole comes to an answer, so does what it enters, and no later. -/
theorem Enters.ok {x : Run β} {y : Run α} {b : β} {after : History}
    (h : x.Enters history y later) (hx : x history = .ok b after) :
    ∃ a last, y later = .ok a last ∧ last <+: after := by
  obtain ⟨_, rest, hrest, heq⟩ := h
  rw [heq] at hx
  obtain ⟨a, last, hy, hlast⟩ := bind_ok_iff.mp hx
  exact ⟨a, last, hy, (hrest a).of_ok hlast⟩

theorem Enters.error {x : Run β} {y : Run α} {e : PlanError} {after : History}
    (h : x.Enters history y later) (hy : y later = .error e after) :
    x history = .error e after := by
  obtain ⟨_, rest, _, heq⟩ := h
  rw [heq, bind_run, hy]

end Run

namespace Interpreter

variable {interpreter : Interpreter} {args : List Value} {node : Node}
  {history between later : History}

theorem exists_between {α : Type} {first second rest more : List α} {a b : α}
    (h : first ++ a :: rest = second ++ b :: more) (hlt : first.length < second.length) :
    ∃ middle, second = first ++ a :: middle := by
  have hfirst : first ++ [a] <+: first ++ a :: rest := ⟨rest, by simp⟩
  have hsecond : second <+: first ++ a :: rest := ⟨b :: more, h.symm⟩
  obtain ⟨middle, hmiddle⟩ := List.prefix_of_prefix_length_le hfirst hsecond (by simp; omega)
  exact ⟨middle, by simp [← hmiddle]⟩

theorem spoken_of_run {branch : Branch} (h : branch.run = runPlan interpreter args branch.plan) :
    Spoken interpreter args node branch := by
  intro bound history
  rw [h]
  exact says_runPlan interpreter args branch.plan _ history

theorem grows_askDefault (node : Node) (branch : Branch) (bound : Value) :
    (askDefault node branch bound).Grows :=
  Run.grows_of_says fun history => ⟨_, Run.says_callHook _ _ _ _ history⟩

theorem runChild_enters {branch : Branch} {bound : Value}
    (hask : askDefault node branch bound history = .ok none later) :
    (runChild node branch bound).Enters history
      (branch.run (node.state.bind node.binding bound)) later := by
  rw [runChild_eq]
  exact .after hask ((grows_askDefault node branch bound).of_ok hask) (.refl _ _)

theorem foldChild_enters {folding : Folding} {branch : Branch} {bound : Value}
    (hask : askDefault node branch bound history = .ok none later) :
    (foldChild interpreter node folding branch bound).Enters history
      (branch.run (node.state.bind node.binding bound)) later := by
  apply (runChild_enters hask).bind
  intro child
  apply Run.grows_of_says
  intro history
  cases hattach : branch.plan.attachDirective with
  | error e => exact ⟨[], Run.says_throw e history []⟩
  | ok attach =>
    exact ⟨_, (says_integrate attach _ child history).bind_silent
      fun fields later => Run.says_pure _ later⟩

theorem grows_integrateElement (interpreter : Interpreter) (attach : Attach) (element : Value)
    (child : StepResult) : (integrateElement interpreter.host attach element child).Grows :=
  Run.grows_of_says fun history => ⟨_, says_integrateElement attach element child history⟩

theorem grows_foldElements {branch : Branch} (h : Spoken interpreter args node branch)
    (attach : Attach) (result : StepResult) (items : List Value) :
    (foldElements interpreter node branch attach result items).Grows := by
  apply Run.grows_of_says
  intro history
  obtain ⟨word, _, hword⟩ := says_foldElements h attach result items history
  exact ⟨word, hword⟩

theorem foldElements_enters {branch : Branch} {attach : Attach} {passed others folded : List Value}
    {element : Value} {result result' : StepResult} (h : Spoken interpreter args node branch)
    (hpassed : foldElements interpreter node branch attach result passed history =
      .ok (result', folded) between)
    (hdefault : defaultFor? branch.plan element = none)
    (hask : askDefault node branch element between = .ok none later) :
    (foldElements interpreter node branch attach result (passed ++ element :: others)).Enters
      history (branch.run (node.state.bind node.binding element)) later := by
  have hgrows := grows_foldElements h attach
  rw [foldElements_append]
  apply Run.Enters.after hpassed ((hgrows result passed).of_ok hpassed)
  dsimp only
  have hcons : foldElements interpreter node branch attach result' (element :: others) =
      runChild node branch element >>= fun child =>
        integrateElement interpreter.host attach element child >>= fun taken =>
          foldElements interpreter node branch attach
            (result'.addEffort child interpreter.settings.effortCounters) others >>= fun out =>
              pure (out.1, taken :: out.2) := by
    rw [foldElements, elementResult, hdefault]
    exact bind_assoc _ _ _
  rw [hcons]
  refine ((runChild_enters hask).bind fun child => ?_).bind fun out => Run.grows_pure _
  refine (grows_integrateElement interpreter attach element child).bind fun taken => ?_
  exact (hgrows _ others).bind fun out => Run.grows_pure _

inductive StartedIn (interpreter : Interpreter) (node : Node) (folding : Folding)
    (directive : Scope × Branch) (history : History) : Nat → Branch → Value → History → Prop
  | once {branch : Branch} {bound : Value} {later : History} :
      RunsOnce node folding.result directive branch bound →
      askDefault node branch bound history = .ok none later →
      StartedIn interpreter node folding directive history 0 branch bound later
  | each {list : String} {passed others folded : List Value} {element : Value} {attach : Attach}
      {result : StepResult} {middle later : History} :
      directive.1 = .each list →
      folding.result.content.field? list = some (.list (passed ++ element :: others)) →
      directive.2.plan.attachDirective = .ok attach →
      foldElements interpreter node directive.2 attach
        (folding.descend interpreter.settings.pageCountFields).result passed history =
        .ok (result, folded) middle →
      defaultFor? directive.2.plan element = none →
      askDefault node directive.2 element middle = .ok none later →
      StartedIn interpreter node folding directive history passed.length directive.2 element later

variable {folding : Folding} {directive : Scope × Branch} {branch other : Branch}
  {bound value : Value} {index position : Nat} {after : History}

theorem StartedIn.enters (hspoken : Spoken interpreter args node directive.2)
    (h : StartedIn interpreter node folding directive history index branch bound later) :
    (direct interpreter node folding directive).Enters history
      (branch.run (node.state.bind node.binding bound)) later := by
  rw [direct_eq]
  cases h with
  | once hruns hask =>
    apply Run.Enters.of_ofExcept (choose_of_runsOnce hruns)
    exact foldChild_enters hask
  | each hscope hfield hattach hpassed hdefault hask =>
    apply Run.Enters.of_ofExcept (choose_of_each hscope hfield)
    apply Run.Enters.of_ofExcept hattach
    exact (foldElements_enters hspoken hpassed hdefault hask).bind fun out => Run.grows_pure _

theorem RunsOnce.not_each {result : StepResult} {list : String}
    (h : RunsOnce node result directive branch bound) : directive.1 ≠ .each list := by
  intro hscope
  cases h with
  | this hthis => exact Scope.noConfusion (hthis.symm.trans hscope)
  | first hfirst => exact Scope.noConfusion (hfirst.symm.trans hscope)
  | fallback hfirst => exact Scope.noConfusion (hfirst.symm.trans hscope)

theorem StartedIn.unique
    (h : StartedIn interpreter node folding directive history index branch bound later)
    (h' : StartedIn interpreter node folding directive history position other value after)
    (hsame : index = position) : branch = other ∧ bound = value ∧ later = after := by
  cases h with
  | once hruns hask =>
    cases h' with
    | once hruns' hask' =>
      have hchoice := choose_of_runsOnce hruns
      rw [choose_of_runsOnce hruns'] at hchoice
      cases hchoice
      rw [hask] at hask'
      cases hask'
      exact ⟨rfl, rfl, rfl⟩
    | each hscope => exact absurd hscope hruns.not_each
  | each hscope hfield hattach hpassed hdefault hask =>
    cases h' with
    | once hruns' => exact absurd hscope hruns'.not_each
    | each hscope' hfield' hattach' hpassed' hdefault' hask' =>
      rw [hscope] at hscope'
      cases hscope'
      rw [hattach] at hattach'
      cases hattach'
      rw [hfield] at hfield'
      have hitems := Value.list.inj (Option.some.inj hfield')
      obtain ⟨rfl, helement⟩ := List.append_inj hitems hsame
      cases helement
      rw [hpassed] at hpassed'
      cases hpassed'
      rw [hask] at hask'
      cases hask'
      exact ⟨rfl, rfl, rfl⟩

theorem StartedIn.left (hspoken : Spoken interpreter args node directive.2)
    (h : StartedIn interpreter node folding directive history index branch bound later)
    (h' : StartedIn interpreter node folding directive history position other value after)
    (hlt : index < position) :
    ∃ result last, branch.run (node.state.bind node.binding bound) later = .ok result last ∧
      last <+: after := by
  cases h' with
  | once => exact absurd hlt (Nat.not_lt_zero index)
  | @each list passed' others' folded' element' _ _ _ _ hscope' hfield' hattach' hpassed' _ hask' =>
    have hgrown := (grows_askDefault node directive.2 value).of_ok hask'
    cases h with
    | once hruns => exact absurd hscope' hruns.not_each
    | @each _ passed others _ element _ _ _ _ hscope hfield hattach hpassed hdefault hask =>
      rw [hscope] at hscope'
      cases hscope'
      rw [hattach] at hattach'
      cases hattach'
      rw [hfield] at hfield'
      have hitems := Value.list.inj (Option.some.inj hfield')
      obtain ⟨more, rfl⟩ := exists_between hitems hlt
      obtain ⟨result, last, hrun, hlast⟩ :=
        (foldElements_enters hspoken hpassed hdefault hask).ok hpassed'
      exact ⟨result, last, hrun, hlast.trans hgrown⟩

inductive StartedAt (interpreter : Interpreter) (node : Node)
    (directives : List (Scope × Branch)) (history : History) :
    Nat × Nat → Branch → Value → History → Prop
  | mk {before rest : List (Scope × Branch)} {directive : Scope × Branch} {folding : Folding}
      {index : Nat} {branch : Branch} {bound : Value} {between later : History} :
      directives = before ++ directive :: rest →
      directAll interpreter node node.start before history = .ok folding between →
      StartedIn interpreter node folding directive between index branch bound later →
      StartedAt interpreter node directives history (before.length, index) branch bound later

variable {directives : List (Scope × Branch)} {place : Nat × Nat}

theorem exists_startedAt
    (h : Started interpreter node directives history branch bound later) :
    ∃ place, StartedAt interpreter node directives history place branch bound later := by
  cases h with
  | once hdirectives hbefore hruns hask => exact ⟨_, .mk hdirectives hbefore (.once hruns hask)⟩
  | each hdirectives hbefore hscope hfield hattach hpassed hdefault hask =>
    exact ⟨_, .mk hdirectives hbefore (.each hscope hfield hattach hpassed hdefault hask)⟩

theorem StartedAt.started
    (h : StartedAt interpreter node directives history place branch bound later) :
    Started interpreter node directives history branch bound later := by
  cases h with
  | mk hdirectives hbefore hin =>
    cases hin with
    | once hruns hask => exact .once hdirectives hbefore hruns hask
    | each hscope hfield hattach hpassed hdefault hask =>
      exact .each hdirectives hbefore hscope hfield hattach hpassed hdefault hask

section speaking

variable (hspoken : ∀ directive ∈ directives, Spoken interpreter args node directive.2)
  (hfallback : ∀ branch, node.fallback = some branch → Spoken interpreter args node branch)

include hspoken hfallback

theorem grows_directAll (folding : Folding) :
    (directAll interpreter node folding directives).Grows := by
  apply Run.grows_of_says
  intro history
  obtain ⟨word, _, hword⟩ := says_directAll hspoken hfallback folding history
  exact ⟨word, hword⟩

theorem directAll_enters {before rest : List (Scope × Branch)}
    (hdirectives : directives = before ++ directive :: rest)
    (hbefore : directAll interpreter node node.start before history = .ok folding between)
    (h : StartedIn interpreter node folding directive between index branch bound later) :
    (directAll interpreter node node.start directives).Enters history
      (branch.run (node.state.bind node.binding bound)) later := by
  subst hdirectives
  have hgrows : ∀ folding, (directAll interpreter node folding before).Grows :=
    grows_directAll (fun directive hd => hspoken directive (by simp [hd])) hfallback
  rw [directAll_append]
  apply Run.Enters.after hbefore ((hgrows _).of_ok hbefore)
  apply (h.enters (hspoken directive (by simp))).bind
  intro folding
  exact grows_directAll (fun directive hd => hspoken directive (by simp [hd])) hfallback folding

theorem StartedAt.enters
    (h : StartedAt interpreter node directives history place branch bound later) :
    (directAll interpreter node node.start directives).Enters history
      (branch.run (node.state.bind node.binding bound)) later := by
  cases h with
  | mk hdirectives hbefore hin => exact directAll_enters hspoken hfallback hdirectives hbefore hin

/-- Of two places the earlier one has been left when the later one is entered. -/
theorem StartedAt.left {place' : Nat × Nat}
    (h : StartedAt interpreter node directives history place branch bound later)
    (h' : StartedAt interpreter node directives history place' other value after)
    (hlt : Prod.Lex (· < ·) (· < ·) place place') :
    ∃ result last, branch.run (node.state.bind node.binding bound) later = .ok result last ∧
      last <+: after := by
  cases h with
  | @mk before rest directive folding index _ _ between _ hdirectives hbefore hin =>
    cases h' with
    | @mk before' rest' directive' folding' index' _ _ between' _ hdirectives' hbefore' hin' =>
      have hsplit := hdirectives.symm.trans hdirectives'
      rcases Prod.lex_def.mp hlt with hearlier | ⟨hsame, hearlier⟩
      · obtain ⟨middle, rfl⟩ := exists_between hsplit hearlier
        have hmem : ∀ earlier ∈ before ++ directive :: middle,
            Spoken interpreter args node earlier.2 := by
          intro earlier hin
          apply hspoken
          rw [hdirectives']
          exact List.mem_append_left _ hin
        obtain ⟨result, last, hrun, hlast⟩ :=
          (directAll_enters hmem hfallback rfl hbefore hin).ok hbefore'
        have hgrown := (hin'.enters (hspoken directive' (by simp [hdirectives']))).1
        exact ⟨result, last, hrun, hlast.trans hgrown⟩
      · obtain ⟨rfl, hcons⟩ := List.append_inj hsplit hsame
        cases hcons
        rw [hbefore] at hbefore'
        cases hbefore'
        exact hin.left (hspoken directive (by simp [hdirectives])) hin' hearlier

end speaking

theorem StartedAt.unique
    (h : StartedAt interpreter node directives history place branch bound later)
    (h' : StartedAt interpreter node directives history place other value after) :
    branch = other ∧ bound = value ∧ later = after := by
  obtain ⟨first, second⟩ := place
  cases h with
  | mk hdirectives hbefore hin =>
  generalize hplace : (_, _) = place' at h'
  cases h' with
  | mk hdirectives' hbefore' hin' =>
    obtain ⟨hlength, hindex⟩ := Prod.mk.inj hplace
    obtain ⟨rfl, hcons⟩ := List.append_inj (hdirectives.symm.trans hdirectives') hlength
    cases hcons
    rw [hbefore] at hbefore'
    cases hbefore'
    exact hin.unique hin' hindex

theorem spoken_branches {children : List (Scope × Plan)} {directive : Scope × Branch}
    (h : directive ∈ branches interpreter args children) :
    Spoken interpreter args node directive.2 := by
  obtain ⟨child, _, hbranch⟩ := mem_branches h
  rw [hbranch]
  exact spoken_of_run rfl

theorem spoken_fallback {plan : Option Plan}
    (h : fallbackBranch interpreter args plan = some branch) :
    Spoken interpreter args node branch := by
  obtain ⟨fallback, _, rfl⟩ := fallbackBranch_some h
  exact spoken_of_run rfl

theorem grows_runStep (interpreter : Interpreter) (args : List Value) (plan : Plan)
    (state : State) : (runStep interpreter plan state args).Grows := by
  apply Run.grows_of_says
  intro history
  obtain ⟨word, _, hword⟩ := says_runStep interpreter args plan state history
  exact ⟨word, hword⟩

/-- The nodes that a run enters, each at an address that lists the places on the way to it. -/
inductive Located (interpreter : Interpreter) (args : List Value) :
    Entry → List (Nat × Nat) → Entry → Prop
  | root (entry : Entry) : Located interpreter args entry [] entry
  | child {root entry : Entry} {binding : String} {own : StepResult} {stepped later : History}
      {place : Nat × Nat} {branch : Branch} {bound : Value} {address : List (Nat × Nat)} :
      root.plan.validate root.state interpreter.settings.requiredFields = .ok binding →
      runStep interpreter root.plan root.state args root.history = .ok own stepped →
      StartedAt interpreter (nodeOf interpreter args root.plan root.state binding own)
        (branches interpreter args root.plan.children) stepped place branch bound later →
      Located interpreter args ⟨branch.plan, root.state.bind binding bound, later⟩ address entry →
      Located interpreter args root (place :: address) entry

def Entry.run (interpreter : Interpreter) (args : List Value) (entry : Entry) : Run StepResult :=
  runPlan interpreter args entry.plan entry.state

def Precedes : List (Nat × Nat) → List (Nat × Nat) → Prop :=
  List.Lex (Prod.Lex (· < ·) (· < ·))

variable {root entry entry' : Entry} {address address' : List (Nat × Nat)}

theorem Located.extend {binding : String} {own : StepResult} {stepped : History}
    (h : Located interpreter args root address entry)
    (hvalid : entry.plan.validate entry.state interpreter.settings.requiredFields = .ok binding)
    (hstep : runStep interpreter entry.plan entry.state args entry.history = .ok own stepped)
    (hstarted : StartedAt interpreter (nodeOf interpreter args entry.plan entry.state binding own)
      (branches interpreter args entry.plan.children) stepped place branch bound later) :
    Located interpreter args root (address ++ [place])
      ⟨branch.plan, entry.state.bind binding bound, later⟩ := by
  induction h with
  | root => exact .child hvalid hstep hstarted (.root _)
  | child hvalid' hstep' hstarted' _ ih =>
    exact .child hvalid' hstep' hstarted' (ih hvalid hstep hstarted)

theorem Path.located {trail : List Ancestor} (h : Path interpreter args root trail entry) :
    ∃ address, Located interpreter args root address entry := by
  induction h with
  | root => exact ⟨[], .root root⟩
  | child _ hvalid hstep hstarted ih =>
    obtain ⟨address, haddress⟩ := ih
    obtain ⟨place, hplace⟩ := exists_startedAt hstarted
    exact ⟨_, haddress.extend hvalid hstep hplace⟩

theorem Located.enters (h : Located interpreter args root address entry) :
    (root.run interpreter args).Enters root.history (entry.run interpreter args) entry.history := by
  induction h with
  | root entry => exact .refl _ _
  | @child root entry binding own stepped later place branch bound address hvalid hstep hstarted _
      ih =>
    apply Run.Enters.trans ?_ ih
    unfold Entry.run
    rw [runPlan_eq, ← hstarted.started.below.1]
    apply Run.Enters.of_ofExcept hvalid
    apply Run.Enters.after hstep
    · exact (grows_runStep interpreter args root.plan root.state).of_ok hstep
    · apply (hstarted.enters (fun _ => spoken_branches) fun _ => spoken_fallback).bind
      intro folding
      exact Run.grows_pure _

theorem Located.below_of_stages {binding : String} {own : StepResult} {stepped : History}
    (h : Located interpreter args root (place :: address) entry)
    (hvalid : root.plan.validate root.state interpreter.settings.requiredFields = .ok binding)
    (hstep : runStep interpreter root.plan root.state args root.history = .ok own stepped) :
    ∃ branch bound later,
      StartedAt interpreter (nodeOf interpreter args root.plan root.state binding own)
        (branches interpreter args root.plan.children) stepped place branch bound later ∧
      Located interpreter args ⟨branch.plan, root.state.bind binding bound, later⟩ address
        entry := by
  cases h with
  | child hvalid' hstep' hstarted hbelow =>
    rw [hvalid] at hvalid'
    cases hvalid'
    rw [hstep] at hstep'
    cases hstep'
    exact ⟨_, _, _, hstarted, hbelow⟩

/-- What comes before an entry is above it, or has been left with an answer when it is
entered. -/
theorem Located.above_or_left (h : Located interpreter args root address entry)
    (h' : Located interpreter args root address' entry') (hlt : Precedes address address') :
    address <+: address' ∨ ∃ result last,
      entry.run interpreter args entry.history = .ok result last ∧ last <+: entry'.history := by
  induction h generalizing address' with
  | root => exact .inl (List.nil_prefix)
  | child hvalid hstep hstarted hbelow ih =>
    cases hlt with
    | cons hrest =>
      obtain ⟨_, _, _, hstarted', hbelow'⟩ := h'.below_of_stages hvalid hstep
      obtain ⟨rfl, rfl, rfl⟩ := hstarted.unique hstarted'
      rcases ih hbelow' hrest with habove | hleft
      · exact .inl (List.cons_prefix_cons.mpr ⟨rfl, habove⟩)
      · exact .inr hleft
    | rel hplace =>
      right
      obtain ⟨_, _, _, hstarted', hbelow'⟩ := h'.below_of_stages hvalid hstep
      obtain ⟨result, last, hrun, hlast⟩ := hstarted.left
        (fun _ => spoken_branches) (fun _ => spoken_fallback) hstarted' hplace
      rw [hstarted.started.below.1] at hrun
      -- the entry lies in the branch that has been left
      obtain ⟨result', last', hrun', hlast'⟩ := hbelow.enters.ok hrun
      exact ⟨result', last', hrun', hlast'.trans (hlast.trans hbelow'.enters.1)⟩

theorem Located.stepped {rest : List (Nat × Nat)}
    (h : Located interpreter args root address entry)
    (h' : Located interpreter args root (address ++ place :: rest) entry') :
    ∃ binding own stepped,
      entry.plan.validate entry.state interpreter.settings.requiredFields = .ok binding ∧
        runStep interpreter entry.plan entry.state args entry.history = .ok own stepped := by
  induction h with
  | root =>
    cases h' with
    | child hvalid hstep => exact ⟨_, _, _, hvalid, hstep⟩
  | child hvalid hstep hstarted _ ih =>
    obtain ⟨_, _, _, hstarted', hbelow'⟩ := h'.below_of_stages hvalid hstep
    obtain ⟨rfl, rfl, rfl⟩ := hstarted.unique hstarted'
    exact ih hbelow'

end Interpreter

end PlanFold
