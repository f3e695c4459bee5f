import PlanFold.Host

/-!
# Computations with calls

When a computation comes to an answer, what it does with an error on the way,
and what a call and a hook add to the history. Proofs about the interpreter
take its steps apart by these laws.
-/

set_option autoImplicit false

namespace PlanFold.Run

variable {α β : Type} {history after : History}

theorem bind_run (x : Run α) (f : α → Run β) (history : History) :
    (x >>= f) history = match x history with
      | .ok a between => f a between
      | .error e between => .error e between := by
  change EStateM.bind x f history = _
  unfold EStateM.bind
  cases x history <;> rfl

theorem pure_run (a : α) (history : History) : (pure a : Run α) history = .ok a history := rfl

theorem ofExcept_run (x : Except PlanError α) (history : History) :
    ofExcept x history = match x with
      | .ok a => .ok a history
      | .error e => .error e history := by
  cases x <;> rfl

theorem bind_ok_iff {x : Run α} {f : α → Run β} {b : β} :
    (x >>= f) history = .ok b after ↔
      ∃ a between, x history = .ok a between ∧ f a between = .ok b after := by
  rw [bind_run]
  constructor
  · intro h
    cases hx : x history with
    | ok a between => exact ⟨a, between, rfl, by simpa [hx] using h⟩
    | error e between => simp [hx] at h
  · rintro ⟨a, between, hx, hf⟩
    simpa [hx] using hf

theorem bind_error_iff {x : Run α} {f : α → Run β} {e : PlanError} :
    (x >>= f) history = .error e after ↔
      x history = .error e after ∨ ∃ a between, x history = .ok a between ∧
        f a between = .error e after := by
  rw [bind_run]
  cases x history <;> simp [and_assoc]

theorem pure_ok_iff {a b : α} :
    (pure a : Run α) history = .ok b after ↔ a = b ∧ history = after := by
  rw [pure_run, EStateM.Result.ok.injEq]

theorem ofExcept_ok_iff {x : Except PlanError α} {a : α} :
    ofExcept x history = .ok a after ↔ x = .ok a ∧ history = after := by
  rw [ofExcept_run]
  cases x <;> simp

theorem ofExcept_eq_iff {x y : Except PlanError α} :
    ofExcept x history = ofExcept y after ↔ x = y ∧ history = after := by
  rw [ofExcept_run, ofExcept_run]
  cases x <;> cases y <;> simp

theorem ofExcept_bind_ok_iff {x : Except PlanError α} {f : α → Run β} {b : β} :
    (ofExcept x >>= f) history = .ok b after ↔ ∃ a, x = .ok a ∧ f a history = .ok b after := by
  rw [bind_ok_iff]
  constructor
  · rintro ⟨a, between, hx, hf⟩
    obtain ⟨ha, rfl⟩ := ofExcept_ok_iff.mp hx
    exact ⟨a, ha, hf⟩
  · rintro ⟨a, hx, hf⟩
    exact ⟨a, history, ofExcept_ok_iff.mpr ⟨hx, rfl⟩, hf⟩

theorem bind_congr {x y : Run α} {f g : α → Run β} (hx : x history = y history)
    (hf : ∀ a between, x history = .ok a between → f a between = g a between) :
    (x >>= f) history = (y >>= g) history := by
  rw [bind_run, bind_run, ← hx]
  cases h : x history with
  | ok a between => exact hf a between h
  | error e between => rfl

end PlanFold.Run
