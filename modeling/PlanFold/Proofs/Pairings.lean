import PlanFold.Proofs.RelatedResults
import PlanFold.Proofs.Starts

/-!
# How two runs are compared

Two runs of one host may have different histories, states, metadata and
settings. A pairing says how each of them are related, so that the host answers
alike in both and folding respects what is related. A plan suits a pairing when
it does not tell the two runs apart.
-/

set_option autoImplicit false

namespace PlanFold

namespace Run

structure Onward (logs : History → History → Prop) (history history' after after' : History) :
    Prop where
  logs : logs after after'
  grown : history <+: after
  grown' : history' <+: after'

/-- Where the first computation comes to an answer, the second comes to a related one
after any related history. In the strict sense they also share their errors. -/
structure Sim {α β : Type} (strict : Prop) (logs : History → History → Prop) (R : α → β → Prop)
    (x : Run α) (y : Run β) : Prop where
  ok : ∀ {history history' a after}, logs history history' → x history = .ok a after →
    ∃ b after', y history' = .ok b after' ∧ R a b ∧ Onward logs history history' after after'
  error : strict → ∀ {history history' e after}, logs history history' →
    x history = .error e after →
    ∃ after', y history' = .error e after' ∧ Onward logs history history' after after'

variable {α β γ δ ε : Type} {strict : Prop} {logs : History → History → Prop} {R : α → β → Prop}

theorem Onward.refl {history history' : History} (h : logs history history') :
    Onward logs history history' history history' :=
  ⟨h, List.prefix_refl _, List.prefix_refl _⟩

theorem Onward.append {history history' made made' : History}
    (h : logs (history ++ made) (history' ++ made')) :
    Onward logs history history' (history ++ made) (history' ++ made') :=
  ⟨h, List.prefix_append _ _, List.prefix_append _ _⟩

theorem Onward.trans {history history' between between' after after' : History}
    (h : Onward logs history history' between between')
    (hnext : Onward logs between between' after after') :
    Onward logs history history' after after' :=
  ⟨hnext.logs, h.grown.trans hnext.grown, h.grown'.trans hnext.grown'⟩

theorem sim_pure {a : α} {b : β} (h : R a b) : Sim strict logs R (pure a) (pure b) where
  ok {history history' _ after} hlogs hrun := by
    obtain ⟨rfl, rfl⟩ := pure_ok_iff.mp hrun
    exact ⟨b, history', rfl, h, .refl hlogs⟩
  error _ {_ _ _ _} _ hrun := by cases hrun

theorem Sim.bind {S : γ → δ → Prop} {x : Run α} {y : Run β} {f : α → Run γ} {g : β → Run δ}
    (hx : Sim strict logs R x y) (hf : ∀ a b, R a b → Sim strict logs S (f a) (g b)) :
    Sim strict logs S (x >>= f) (y >>= g) where
  ok {history history' c after} hlogs hrun := by
    obtain ⟨a, between, ha, hrun⟩ := bind_ok_iff.mp hrun
    obtain ⟨b, between', hb, hab, hbetween⟩ := hx.ok hlogs ha
    obtain ⟨d, after', hd, hcd, hafter⟩ := (hf a b hab).ok hbetween.logs hrun
    exact ⟨d, after', bind_ok_iff.mpr ⟨b, between', hb, hd⟩, hcd, hbetween.trans hafter⟩
  error hstrict {history history' e after} hlogs hrun := by
    rcases bind_error_iff.mp hrun with hfailed | ⟨a, between, ha, hfailed⟩
    · obtain ⟨after', hfailed', hafter⟩ := hx.error hstrict hlogs hfailed
      exact ⟨after', bind_error_iff.mpr (.inl hfailed'), hafter⟩
    · obtain ⟨b, between', hb, hab, hbetween⟩ := hx.ok hlogs ha
      obtain ⟨after', hfailed', hafter⟩ := (hf a b hab).error hstrict hbetween.logs hfailed
      exact ⟨after', bind_error_iff.mpr (.inr ⟨b, between', hb, hfailed'⟩),
        hbetween.trans hafter⟩

theorem Sim.bind_eq {S : γ → δ → Prop} {x y : Run α} {f : α → Run γ} {g : α → Run δ}
    (hxy : Sim strict logs Eq x y) (hfg : ∀ a, Sim strict logs S (f a) (g a)) :
    Sim strict logs S (x >>= f) (y >>= g) := by
  refine hxy.bind ?_
  rintro a _ rfl
  exact hfg a

theorem sim_ofExcept {x : Except PlanError α} {y : Except PlanError β} (h : SameOutcome R x y) :
    Sim strict logs R (ofExcept x) (ofExcept y) := by
  cases h with
  | ok hab => exact sim_pure hab
  | error e =>
    constructor
    · intro history history' a after _ hrun
      cases hrun
    · intro _ history history' e' after hlogs hrun
      cases hrun
      exact ⟨history', rfl, .refl hlogs⟩

theorem sim_ofExcept_self (x : Except PlanError α) :
    Sim strict logs Eq (ofExcept x) (ofExcept x) :=
  sim_ofExcept (.refl x)

theorem sim_call {c : Call} {answer answer' : History → Except String α}
    (hcalls : ∀ history history', logs history history' →
      logs (history ++ [c]) (history' ++ [c]))
    (h : ∀ {history history'}, logs history history' → answer history = answer' history') :
    Sim strict logs Eq (call c answer) (call c answer') := by
  constructor
  · intro history history' a after hlogs hrun
    unfold call at hrun ⊢
    rw [← h hlogs]
    cases hanswer : answer history with
    | error text => simp [hanswer] at hrun
    | ok b =>
      rw [hanswer] at hrun
      cases hrun
      exact ⟨a, _, rfl, rfl, .append (hcalls _ _ hlogs)⟩
  · intro _ history history' e after hlogs hrun
    unfold call at hrun ⊢
    rw [← h hlogs]
    cases hanswer : answer history with
    | ok b => simp [hanswer] at hrun
    | error text =>
      rw [hanswer] at hrun
      cases hrun
      exact ⟨_, rfl, .append (hcalls _ _ hlogs)⟩

theorem sim_callHook {hook : Option ε} {c : Call}
    {answer answer' : ε → History → Except String α} {otherwise : α}
    (hcalls : ∀ history history', logs history history' →
      logs (history ++ [c]) (history' ++ [c]))
    (h : ∀ f, hook = some f → ∀ {history history'}, logs history history' →
      answer f history = answer' f history') :
    Sim strict logs Eq (callHook hook c answer otherwise) (callHook hook c answer' otherwise) := by
  cases hook with
  | none => exact sim_pure rfl
  | some f => exact sim_call hcalls (h f rfl)

end Run

structure Host.Memoryless (host : Host) : Prop where
  run : ∀ history history' step args, host.run history step args = host.run history' step args
  interpolate : ∀ f, host.interpolate = some f → ∀ history history' step state args,
    f history step state args = f history' step state args
  unpack : ∀ f, host.unpack = some f → ∀ history history' name args,
    f history name args = f history' name args
  post : ∀ f, host.post = some f → ∀ history history' step result,
    f history step result = f history' step result

structure Host.Forgetful (host : Host) : Prop extends host.Memoryless where
  mergeDown : ∀ f, host.mergeDown = some f → ∀ history history' target source,
    f history target source = f history' target source

def Plan.Memoryless (plan : Plan) : Prop :=
  ∀ node, plan.Has node → ∀ hook, node.defaultWith = some hook →
    ∀ history history' bound args, hook history bound args = hook history' bound args

theorem Host.memoryless_byName (answers : List (String × StepResult)) :
    (Host.byName answers).Memoryless where
  run _ _ _ _ := rfl
  interpolate _ h := by cases h
  unpack _ h := by cases h
  post _ h := by cases h

theorem Host.Memoryless.forgetful {host : Host} (h : host.Memoryless)
    (hhook : host.mergeDown = none) : host.Forgetful :=
  ⟨h, fun f hf => by simp [hhook] at hf⟩

theorem Plan.Memoryless.intro {plan : Plan} (h : plan.defaultWith = none)
    (hchildren : ∀ directive ∈ plan.children, directive.2.Memoryless)
    (hfallback : ∀ other, plan.fallback = some other → other.Memoryless) : plan.Memoryless := by
  intro node hnode
  cases hnode with
  | self => simp [h]
  | child hchild hbelow => exact hchildren _ hchild node hbelow
  | fallback hplan hbelow => exact hfallback _ hplan node hbelow

structure Host.Steady (host : Host) (logs : History → History → Prop) : Prop where
  called : ∀ {history history'} (c : Call), logs history history' →
    logs (history ++ [c]) (history' ++ [c])
  run : ∀ {history history'}, logs history history' →
    ∀ step args, host.run history step args = host.run history' step args
  unpack : ∀ f, host.unpack = some f → ∀ {history history'}, logs history history' →
    ∀ name args, f history name args = f history' name args
  interpolate : ∀ f, host.interpolate = some f → ∀ {history history'}, logs history history' →
    ∀ step state args, f history step state args = f history' step state args
  post : ∀ f, host.post = some f → ∀ {history history'}, logs history history' →
    ∀ step result, f history step result = f history' step result
  mergeDown : ∀ f, host.mergeDown = some f → ∀ {history history'}, logs history history' →
    ∀ target source, f history target source = f history' target source

theorem Host.steady_eq (host : Host) : host.Steady Eq where
  called _ h := by rw [h]
  run h _ _ := by rw [h]
  unpack _ _ _ _ h _ _ := by rw [h]
  interpolate _ _ _ _ h _ _ _ := by rw [h]
  post _ _ _ _ h _ _ := by rw [h]
  mergeDown _ _ _ _ h _ _ := by rw [h]

theorem Host.Forgetful.steady {host : Host} (h : host.Forgetful)
    {logs : History → History → Prop}
    (hcalled : ∀ {history history'} (c : Call), logs history history' →
      logs (history ++ [c]) (history' ++ [c])) : host.Steady logs where
  called := hcalled
  run _ := h.run _ _
  unpack f hf _ _ _ := h.unpack f hf _ _
  interpolate f hf _ _ _ := h.interpolate f hf _ _
  post f hf _ _ _ := h.post f hf _ _
  mergeDown f hf _ _ _ := h.mergeDown f hf _ _

/-- How two runs with one host are compared. A hook that is shown a state, or the result
of a node, is shown the same one in both. -/
structure Pairing (host : Host) (settings settings' : Settings) where
  logs : History → History → Prop
  states : State → State → Prop
  metadata : Fields → Fields → Prop
  strict : Prop
  steady : host.Steady logs
  respect : settings.Respect settings' metadata
  bound : ∀ {state state'} (name : String) (value : Value), states state state' →
    states (state.bind name value) (state'.bind name value)
  sameStates : host.interpolate ≠ none → ∀ {state state'}, states state state' → state = state'
  sameResults : host.mergeDown ≠ none → metadata = Eq

def Plan.SameTrunk (plan plan' : Plan) : Prop :=
  ∃ children fallback, plan' = { plan with children := children, fallback := fallback }

theorem Plan.SameTrunk.refl (plan : Plan) : plan.SameTrunk plan := by
  cases plan
  exact ⟨_, _, rfl⟩

namespace Pairing

variable {host : Host} {settings settings' : Settings} (pair : Pairing host settings settings')

abbrev Sim {α β : Type} (R : α → β → Prop) (x : Run α) (y : Run β) : Prop :=
  Run.Sim pair.strict pair.logs R x y

abbrev Results (result result' : StepResult) : Prop := result.Related pair.metadata result'

def Steady (plan : Plan) : Prop :=
  ∀ hook, plan.defaultWith = some hook → ∀ {history history'}, pair.logs history history' →
    ∀ bound args, hook history bound args = hook history' bound args

theorem sim_call {α : Type} {c : Call} {answer answer' : History → Except String α}
    (h : ∀ {history history'}, pair.logs history history' → answer history = answer' history') :
    pair.Sim Eq (Run.call c answer) (Run.call c answer') :=
  Run.sim_call (fun _ _ hlogs => pair.steady.called c hlogs) h

theorem sim_callHook {α ε : Type} {hook : Option ε} {c : Call}
    {answer answer' : ε → History → Except String α} {otherwise : α}
    (h : ∀ f, hook = some f → ∀ {history history'}, pair.logs history history' →
      answer f history = answer' f history') :
    pair.Sim Eq (Run.callHook hook c answer otherwise)
      (Run.callHook hook c answer' otherwise) :=
  Run.sim_callHook (fun _ _ hlogs => pair.steady.called c hlogs) h

structure Suits (plan : Plan) : Prop where
  steady : pair.Steady plan
  reads : ∀ reference, plan.Refers reference → ∀ {state state'}, pair.states state state' →
    state.get? reference.container = state'.get? reference.container
  fresh : ∀ name, plan.binding = .ok name → ∀ {state state'}, pair.states state state' →
    state.contains name = state'.contains name

theorem suits_of_eq (hstates : pair.states = Eq) {plan : Plan} (hsteady : pair.Steady plan) :
    pair.Suits plan := by
  refine ⟨hsteady, ?_, ?_⟩
  · intro reference _ state state' h
    rw [hstates] at h
    rw [h]
  · intro name _ state state' h
    rw [hstates] at h
    rw [h]

def identical (strict : Prop) {R : Fields → Fields → Prop} (respect : settings.Respect settings' R)
    (hresults : host.mergeDown ≠ none → R = Eq) : Pairing host settings settings' where
  logs := Eq
  states := Eq
  metadata := R
  strict := strict
  steady := host.steady_eq
  respect := respect
  bound _ _ h := by rw [h]
  sameStates _ _ _ h := h
  sameResults := hresults

theorem suits_identical {strict : Prop} {R : Fields → Fields → Prop}
    {respect : settings.Respect settings' R} {hresults : host.mergeDown ≠ none → R = Eq}
    (plan : Plan) : (identical strict respect hresults).Suits plan :=
  suits_of_eq _ rfl fun _ _ _ _ h _ _ => by rw [h]

def exact (strict : Prop) (logs : History → History → Prop) (steady : host.Steady logs)
    (settings : Settings) (states : State → State → Prop)
    (bound : ∀ {state state'} (name : String) (value : Value), states state state' →
      states (state.bind name value) (state'.bind name value))
    (sameStates : host.interpolate ≠ none → ∀ {state state'}, states state state' →
      state = state') : Pairing host settings settings where
  logs := logs
  states := states
  metadata := Eq
  strict := strict
  steady := steady
  respect := settings.respect_eq
  bound := bound
  sameStates := sameStates
  sameResults _ := rfl

def forgetful (hhost : host.Forgetful) (logs : History → History → Prop)
    (hcalled : ∀ {history history'} (c : Call), logs history history' →
      logs (history ++ [c]) (history' ++ [c])) (settings : Settings) :
    Pairing host settings settings :=
  exact False logs (hhost.steady hcalled) settings Eq (fun _ _ h => by rw [h]) fun _ _ _ h => h

theorem suits_forgetful {hhost : host.Forgetful} {logs : History → History → Prop}
    {hcalled : ∀ {history history'} (c : Call), logs history history' →
      logs (history ++ [c]) (history' ++ [c])} {plan node : Plan} (h : plan.Memoryless)
    (hnode : plan.Has node) : (forgetful hhost logs hcalled settings).Suits node :=
  suits_of_eq _ rfl fun hook hhook _ _ _ => h node hnode hook hhook _ _

end Pairing

end PlanFold
