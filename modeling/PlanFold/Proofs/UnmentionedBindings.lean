import PlanFold.Proofs.Simulation

/-!
# Bindings that a plan does not mention

A run looks into a state for two kinds of names only: the binding names of its
nodes, which must be new, and the containers that its fields refer to. Where
two seeds agree on these names the runs are one and the same, with their
results, errors and calls. A hook that is shown the state could tell the seeds
apart, so no step is changed by the host.
-/

set_option autoImplicit false

namespace PlanFold

/-- A name that running the tree may look up in a state: the binding name of one of
its nodes, or the container that a field of one of them refers to. -/
def Plan.Mentions (plan : Plan) (name : String) : Prop :=
  ∃ node, plan.Has node ∧
    (node.binding = .ok name ∨ ∃ reference, node.Refers reference ∧ reference.container = name)

def State.AgreesOn (names : String → Prop) (state state' : State) : Prop :=
  ∀ name, names name → state.get? name = state'.get? name

theorem State.AgreesOn.bind {names : String → Prop} {state state' : State}
    (h : state.AgreesOn names state') (name : String) (value : Value) :
    (state.bind name value).AgreesOn names (state'.bind name value) := by
  intro key hkey
  rw [State.get?_bind, State.get?_bind, h key hkey]

def Pairing.agreeing {host : Host} (hhook : host.interpolate = none) (settings : Settings)
    (names : String → Prop) : Pairing host settings settings :=
  .exact True Eq host.steady_eq settings (State.AgreesOn names)
    (fun name value h => h.bind name value) (absurd hhook)

theorem Pairing.suits_agreeing {host : Host} {hhook : host.interpolate = none}
    {settings : Settings} {plan node : Plan} (hnode : plan.Has node) :
    (Pairing.agreeing hhook settings plan.Mentions).Suits node where
  steady _ _ _ _ h _ _ := by rw [h]
  reads reference hrefers _ _ h := h _ ⟨node, hnode, .inr ⟨reference, hrefers, rfl⟩⟩
  fresh name hname _ _ h := congrArg Option.isSome (h name ⟨node, hnode, .inl hname⟩)

namespace Interpreter

variable {interpreter : Interpreter} {plan : Plan}

/-- A plan that is run from two seeds which agree on all names it mentions comes to the
same result or the same error, by the same calls. -/
theorem run_unmentioned (hhook : interpreter.host.interpolate = none) {seed seed' : State}
    (hagree : seed.AgreesOn plan.Mentions seed') (args : List Value) (history : History) :
    interpreter.run plan seed args history = interpreter.run plan seed' args history := by
  let pair := Pairing.agreeing hhook interpreter.settings plan.Mentions
  have hsuits : ∀ node, plan.Has node → pair.Suits node := fun _ => Pairing.suits_agreeing
  obtain ⟨hcalls, houtcome⟩ := run_sim rfl trivial hsuits hagree history
  exact Prod.ext (houtcome.mono fun _ _ hrel => hrel.eq).eq hcalls

/-- A field that belongs to the plan itself mentions nothing, so it does not matter that
only one of the seeds binds what it is shaped to refer to. -/
theorem run_unmentioned_structural :
    let reference : String → Value := fun target => .mapping [("ref", .string target)]
    let line := (Plan.named "line").attach .detached
    let order := (((Plan.named "order").attach .detached).field "for_stock"
      (reference "stock.id")).field "since" (reference "cake.updated_at")
    let plan := order.fanOut .this line
    let seed := State.empty.bind "cake" (.mapping [("updated_at", .bool true)])
    let seed' := seed.bind "stock" (.mapping [("id", .null)])
    let result := StepResult.ofContent (.bool true)
    let interpreter : Interpreter := ⟨.scripted [result, result], .standard⟩
    let after : History := [.run ⟨[("as", .string "order"), ("attach", .bool false),
      ("for_stock", reference "stock.id"), ("since", .bool true)]⟩ [], .run ⟨line.fields⟩ []]
    interpreter.host.interpolate = none ∧ seed.AgreesOn plan.Mentions seed' ∧
      interpreter.run plan seed [] [] = (.ok result, after) ∧
      interpreter.run plan seed' [] [] = (.ok result, after) := by
  intro reference line order plan seed seed' result interpreter after
  have hplain : ∀ name value other, (name, value) ∈ line.fields → isStructural name = false →
      Reference.ofValue value ≠ .ok (some other) := by
    intro name value other hmem hstructural
    have hown : ∀ name ∈ line.fields.keys, isStructural name = true := by decide
    rw [hown name (List.mem_map_of_mem hmem)] at hstructural
    cases hstructural
  have hsince : ∀ name value other, (name, value) ∈ plan.fields → isStructural name = false →
      Reference.ofValue value = .ok (some other) → other.container = "cake" := by
    intro name value other hmem hstructural href
    have hfields : plan.fields = [("as", .string "order"), ("attach", .bool false),
      ("for_stock", reference "stock.id"), ("since", reference "cake.updated_at")] := rfl
    simp only [hfields, List.mem_cons, List.not_mem_nil, or_false, Prod.mk.injEq] at hmem
    rcases hmem with ⟨rfl, _⟩ | ⟨rfl, _⟩ | ⟨rfl, _⟩ | ⟨_, rfl⟩
    · exact absurd hstructural (by decide)
    · exact absurd hstructural (by decide)
    · exact absurd hstructural (by decide)
    · cases href
      rfl
  have hunmentioned : ¬plan.Mentions "stock" := by
    rintro ⟨node, hnode, hname⟩
    cases hnode with
    | self =>
      rcases hname with hname | ⟨other, ⟨name, value, hmem, hstructural, href⟩, hcontainer⟩
      · have hown : plan.binding = .ok "order" := rfl
        exact absurd (Except.ok.inj (hown.symm.trans hname)) (by decide)
      · rw [hsince name value other hmem hstructural href] at hcontainer
        exact absurd hcontainer (by decide)
    | child hchild hbelow =>
      rw [List.mem_singleton.mp hchild] at hbelow
      cases hbelow with
      | self =>
        rcases hname with hname | ⟨other, ⟨name, value, hmem, hstructural, href⟩, _⟩
        · have hown : line.binding = .ok "line" := rfl
          exact absurd (Except.ok.inj (hown.symm.trans hname)) (by decide)
        · exact hplain name value other hmem hstructural href
      | child hchild => cases hchild
      | fallback hplan => cases hplan
    | fallback hplan => cases hplan
  have hagree : seed.AgreesOn plan.Mentions seed' := by
    intro name hname
    have hne : "stock" ≠ name := by
      rintro rfl
      exact hunmentioned hname
    exact ((seed.get?_bind "stock" _ name).trans (if_neg hne)).symm
  have hrun : interpreter.run plan seed [] [] = (.ok result, after) := rfl
  refine ⟨rfl, hagree, hrun, ?_⟩
  rw [← run_unmentioned rfl hagree]
  exact hrun

end Interpreter

end PlanFold
