import PlanFold.Proofs.Computations

/-!
# Words of calls

A prompt is a call together with the way it is answered, and a word is a list
of prompts. A computation says a word when it makes its calls in order: all of
them if it comes to an answer, and otherwise those up to the point where it
breaks off. A call that is refused breaks the word off at once.
-/

set_option autoImplicit false

namespace PlanFold

structure Prompt where
  call : Call
  refusal : History → Option String

namespace Prompt

def refusalOf {α : Type} : Except String α → Option String
  | .ok _ => none
  | .error text => some text

def of {α : Type} (c : Call) (answer : History → Except String α) : Prompt :=
  ⟨c, fun earlier => refusalOf (answer earlier)⟩

def ofHook {α β : Type} (hook : Option β) (c : Call) (answer : β → History → Except String α) :
    List Prompt :=
  match hook with
  | some f => [of c (answer f)]
  | none => []

end Prompt

def callsOf (word : List Prompt) : History := word.map Prompt.call

theorem callsOf_append (first second : List Prompt) :
    callsOf (first ++ second) = callsOf first ++ callsOf second :=
  List.map_append

def Answered (history : History) : List Prompt → Prop
  | [] => True
  | prompt :: rest => prompt.refusal history = none ∧ Answered (history ++ [prompt.call]) rest

theorem answered_append (history : History) (first second : List Prompt) :
    Answered history (first ++ second) ↔
      Answered history first ∧ Answered (history ++ callsOf first) second := by
  induction first generalizing history with
  | nil => simp [Answered, callsOf]
  | cons prompt rest ih =>
    have hcalls : history ++ callsOf (prompt :: rest) =
        history ++ [prompt.call] ++ callsOf rest := by
      rw [List.append_assoc]
      rfl
    rw [hcalls, List.cons_append, Answered, Answered, ih, and_assoc]

def BreaksOff (e : PlanError) (history : History) (done : List Prompt) : Prop :=
  Answered history done ∨ ∃ asked last text, done = asked ++ [last] ∧ Answered history asked ∧
    last.refusal (history ++ callsOf asked) = some text ∧ e = .host text

theorem BreaksOff.append {e : PlanError} {history : History} {first second : List Prompt}
    (hfirst : Answered history first) (h : BreaksOff e (history ++ callsOf first) second) :
    BreaksOff e history (first ++ second) := by
  rcases h with hall | ⟨asked, last, text, rfl, hasked, hrefused, he⟩
  · exact .inl ((answered_append _ _ _).mpr ⟨hfirst, hall⟩)
  · refine .inr ⟨first ++ asked, last, text, ?_, ?_, ?_, he⟩
    · rw [List.append_assoc]
    · exact (answered_append _ _ _).mpr ⟨hfirst, hasked⟩
    · rwa [callsOf_append, ← List.append_assoc]

/-- A call that is refused is the last one, and its text is the error. -/
theorem BreaksOff.last {e : PlanError} {history : History} {asked later : List Prompt}
    {prompt : Prompt} {text : String} (h : BreaksOff e history (asked ++ prompt :: later))
    (hrefused : prompt.refusal (history ++ callsOf asked) = some text) :
    later = [] ∧ e = .host text := by
  have hno : ∀ rest, ¬Answered history (asked ++ prompt :: rest) := by
    intro rest hall
    have hprompt := ((answered_append _ _ _).mp hall).2.1
    rw [hrefused] at hprompt
    cases hprompt
  rcases h with hall | ⟨before, last, text', hsplit, hbefore, hlast, he⟩
  · exact absurd hall (hno later)
  · rcases List.eq_nil_or_concat later with rfl | ⟨others, final, rfl⟩
    · obtain ⟨rfl, hsame⟩ := List.append_inj' hsplit rfl
      cases hsame
      rw [hrefused] at hlast
      cases hlast
      exact ⟨rfl, he⟩
    · have hfront : asked ++ prompt :: others ++ [final] = before ++ [last] := by
        rw [← hsplit]
        simp
      obtain ⟨rfl, _⟩ := List.append_inj' hfront rfl
      exact absurd hbefore (hno others)

namespace Run

variable {α β : Type} {history : History} {first second : List Prompt}

/-- The computation makes the calls of the word in order: all of them, none refused,
if it comes to an answer, and those up to where it breaks off otherwise. -/
def Says (x : Run α) (history : History) (word : List Prompt) : Prop :=
  match x history with
  | .ok _ after => Answered history word ∧ after = history ++ callsOf word
  | .error e after => ∃ done rest, word = done ++ rest ∧ BreaksOff e history done ∧
      after = history ++ callsOf done

def Gives (x : Run α) (history : History) (a : α) : Prop :=
  ∀ b after, x history = .ok b after → b = a

theorem exists_gives (x : Run α) (history : History) (default : α) : ∃ a, x.Gives history a := by
  cases hx : x history with
  | ok a after =>
    refine ⟨a, fun b later hb => ?_⟩
    rw [hx] at hb
    cases hb
    rfl
  | error e after =>
    refine ⟨default, fun b later hb => ?_⟩
    rw [hx] at hb
    cases hb

theorem Says.of_ok {x : Run α} {word : List Prompt} {a : α} {after : History}
    (h : x.Says history word) (hx : x history = .ok a after) :
    Answered history word ∧ after = history ++ callsOf word := by
  unfold Says at h
  rwa [hx] at h

theorem Says.of_error {x : Run α} {word : List Prompt} {e : PlanError} {after : History}
    (h : x.Says history word) (hx : x history = .error e after) :
    ∃ done rest, word = done ++ rest ∧ BreaksOff e history done ∧
      after = history ++ callsOf done := by
  unfold Says at h
  rwa [hx] at h

theorem says_pure (a : α) (history : History) : (pure a : Run α).Says history [] :=
  ⟨trivial, (List.append_nil _).symm⟩

theorem says_throw (e : PlanError) (history : History) (word : List Prompt) :
    (throw e : Run α).Says history word :=
  ⟨[], word, rfl, .inl trivial, (List.append_nil _).symm⟩

theorem says_ofExcept (x : Except PlanError α) (history : History) :
    (ofExcept x).Says history [] := by
  cases x with
  | ok a => exact says_pure a history
  | error e => exact says_throw e history []

theorem says_call (c : Call) (answer : History → Except String α) (history : History) :
    (call c answer).Says history [.of c answer] := by
  unfold Says call
  cases hanswer : answer history with
  | ok a =>
    have hrefusal : (Prompt.of c answer).refusal history = none := by
      show Prompt.refusalOf (answer history) = none
      rw [hanswer]
      rfl
    exact ⟨⟨hrefusal, trivial⟩, rfl⟩
  | error text =>
    have hrefusal : (Prompt.of c answer).refusal (history ++ callsOf []) = some text := by
      show Prompt.refusalOf (answer (history ++ [])) = some text
      rw [List.append_nil, hanswer]
      rfl
    exact ⟨[.of c answer], [], rfl, .inr ⟨[], _, text, rfl, trivial, hrefusal, rfl⟩, rfl⟩

theorem says_callHook (hook : Option β) (c : Call) (answer : β → History → Except String α)
    (otherwise : α) (history : History) :
    (callHook hook c answer otherwise).Says history (Prompt.ofHook hook c answer) := by
  cases hook with
  | none => exact says_pure otherwise history
  | some f => exact says_call c (answer f) history

theorem Says.bind {x : Run α} {f : α → Run β} (hx : x.Says history first)
    (hf : ∀ a, x history = .ok a (history ++ callsOf first) →
      (f a).Says (history ++ callsOf first) second) :
    (x >>= f).Says history (first ++ second) := by
  unfold Says
  rw [bind_run]
  cases hrun : x history with
  | error e between =>
    obtain ⟨done, rest, rfl, hbreaks, rfl⟩ := hx.of_error hrun
    exact ⟨done, rest ++ second, List.append_assoc _ _ _, hbreaks, rfl⟩
  | ok a between =>
    obtain ⟨hfirst, rfl⟩ := hx.of_ok hrun
    have hnext := hf a hrun
    dsimp only
    cases hrest : f a (history ++ callsOf first) with
    | ok b after =>
      obtain ⟨hsecond, rfl⟩ := hnext.of_ok hrest
      refine ⟨(answered_append _ _ _).mpr ⟨hfirst, hsecond⟩, ?_⟩
      rw [callsOf_append, List.append_assoc]
    | error e after =>
      obtain ⟨done, rest, rfl, hbreaks, rfl⟩ := hnext.of_error hrest
      refine ⟨first ++ done, rest, (List.append_assoc _ _ _).symm, hbreaks.append hfirst, ?_⟩
      rw [callsOf_append, List.append_assoc]

theorem Says.bind_gives {x : Run α} {f : α → Run β} {a : α} (hx : x.Says history first)
    (ha : x.Gives history a) (hf : (f a).Says (history ++ callsOf first) second) :
    (x >>= f).Says history (first ++ second) := by
  apply hx.bind
  intro b hb
  rw [ha b _ hb]
  exact hf

theorem Says.bind_silent {x : Run α} {f : α → Run β} (hx : x.Says history first)
    (hf : ∀ a later, (f a).Says later []) : (x >>= f).Says history first := by
  have h : (x >>= f).Says history (first ++ []) := hx.bind fun a _ => hf a _
  rwa [List.append_nil] at h

theorem says_ofExcept_bind {x : Except PlanError α} {f : α → Run β}
    (hf : ∀ a, x = .ok a → (f a).Says history second) :
    (ofExcept x >>= f).Says history second := by
  cases x with
  | ok a => exact hf a rfl
  | error e => exact says_throw e history second

end Run

end PlanFold
