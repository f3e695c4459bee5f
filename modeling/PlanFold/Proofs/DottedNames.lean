import Mathlib.Data.List.Basic
import PlanFold.Text

/-!
# Segments of dotted names

The segments of a name hold no dot, and a name is read off its first one and
what stands behind the first dot. So the first two segments of a name are
known from what stands before its first two dots.
-/

set_option autoImplicit false

namespace PlanFold.Text

def NoDot (name : String) : Prop := '.' ∉ name.toList

instance (name : String) : Decidable (NoDot name) :=
  inferInstanceAs (Decidable (¬_))

inductive Leads : String → String → Option String → Prop
  | alone {first : String} : NoDot first → Leads first first none
  | two {first second : String} : NoDot first → NoDot second →
      Leads (first ++ "." ++ second) first (some second)
  | more {first second : String} (rest : String) : NoDot first → NoDot second →
      Leads (first ++ "." ++ second ++ "." ++ rest) first (some second)

theorem segmentsOf_of_notMem {cs : List Char} (h : '.' ∉ cs) : segmentsOf cs = (cs, []) := by
  induction cs with
  | nil => rfl
  | cons c rest ih =>
    obtain ⟨hc, hrest⟩ : ¬ '.' = c ∧ '.' ∉ rest := by simpa using h
    simp [segmentsOf, ih hrest, Ne.symm hc]

theorem segmentsOf_append {cs : List Char} (h : '.' ∉ cs) (rest : List Char) :
    segmentsOf (cs ++ '.' :: rest) =
      (cs, (segmentsOf rest).1 :: (segmentsOf rest).2) := by
  induction cs with
  | nil => rfl
  | cons c cs ih =>
    obtain ⟨hc, hcs⟩ : ¬ '.' = c ∧ '.' ∉ cs := by simpa using h
    simp [segmentsOf, ih hcs, Ne.symm hc]

theorem segments_of_noDot {name : String} (h : NoDot name) : segments name = (name, []) := by
  simp [segments, segmentsOf_of_notMem h]

theorem segments_append {first : String} (h : NoDot first) (rest : String) :
    segments (first ++ "." ++ rest) =
      (first, (segments rest).1 :: (segments rest).2) := by
  have hsplit : (first ++ "." ++ rest).toList = first.toList ++ '.' :: rest.toList := by simp
  simp [segments, hsplit, segmentsOf_append h]

theorem noDot_or_split (name : String) :
    NoDot name ∨ ∃ first rest, NoDot first ∧ name = first ++ "." ++ rest := by
  by_cases h : '.' ∈ name.toList
  · obtain ⟨before, after, hsplit, hbefore⟩ := List.eq_append_cons_of_mem h
    refine .inr ⟨String.ofList before, String.ofList after, by simpa [NoDot] using hbefore, ?_⟩
    apply String.toList_inj.mp
    simp [hsplit]
  · exact .inl h

theorem exists_leads (name : String) : ∃ first second, Leads name first second := by
  rcases noDot_or_split name with h | ⟨first, rest, hfirst, rfl⟩
  · exact ⟨name, none, .alone h⟩
  · rcases noDot_or_split rest with h | ⟨second, more, hsecond, rfl⟩
    · exact ⟨first, some rest, .two hfirst h⟩
    · refine ⟨first, some second, ?_⟩
      have hassoc : first ++ "." ++ (second ++ "." ++ more) =
          first ++ "." ++ second ++ "." ++ more := by simp [String.append_assoc]
      exact hassoc ▸ .more more hfirst hsecond

theorem Leads.segments {name first : String} {second : Option String}
    (h : Leads name first second) :
    (Text.segments name).1 = first ∧ (Text.segments name).2.head? = second := by
  cases h with
  | alone hfirst => simp [segments_of_noDot hfirst]
  | two hfirst hsecond => simp [segments_append hfirst, segments_of_noDot hsecond]
  | more rest hfirst hsecond =>
    have hassoc : ∀ second : String, first ++ "." ++ second ++ "." ++ rest =
        first ++ "." ++ (second ++ "." ++ rest) := by simp [String.append_assoc]
    simp [hassoc, segments_append hfirst, segments_append hsecond]

/-- The segments of a name begin with the two that lead it. -/
theorem segments_iff {name first : String} {second : Option String} :
    (segments name).1 = first ∧ (segments name).2.head? = second ↔ Leads name first second := by
  constructor
  · rintro ⟨rfl, rfl⟩
    obtain ⟨first, second, h⟩ := exists_leads name
    rwa [h.segments.1, h.segments.2]
  · exact Leads.segments

theorem Leads.noDot {name first : String} {second : Option String} (h : Leads name first second) :
    NoDot first ∧ ∀ member, second = some member → NoDot member := by
  cases h with
  | alone hfirst => exact ⟨hfirst, nofun⟩
  | two hfirst hsecond => exact ⟨hfirst, fun _ h => Option.some.inj h ▸ hsecond⟩
  | more rest hfirst hsecond => exact ⟨hfirst, fun _ h => Option.some.inj h ▸ hsecond⟩

end PlanFold.Text
