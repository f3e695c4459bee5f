import Mathlib.Algebra.Group.Nat.Defs
import PlanFold.Proofs.Checks
import PlanFold.Proofs.DottedNames

/-!
# Where paths lead

A dotted path is followed through a result one segment after another. Whether a
segment selects a part of a value, and which one, is said here without the
reader: a mapping has a member of that name, a list an element of the index
that the segment writes. A path resolves exactly where such a walk exists, and
what is reported otherwise is the segment at which every walk ends.

With this the rules of a plan are read off: all of them are kept, or the first
one that is broken tells how.
-/

set_option autoImplicit false

namespace PlanFold

namespace Text

inductive DotSeparated : String → List String → Prop
  | last {name : String} : NoDot name → DotSeparated name [name]
  | more {first rest : String} {others : List String} : NoDot first →
      DotSeparated rest others → DotSeparated (first ++ "." ++ rest) (first :: others)

def segmentList (name : String) : List String := (segments name).1 :: (segments name).2

variable {name first rest : String} {parts others : List String}

theorem segmentList_append (h : NoDot first) (rest : String) :
    segmentList (first ++ "." ++ rest) = first :: segmentList rest := by
  rw [segmentList, segments_append h]
  rfl

theorem DotSeparated.eq_segmentList (h : DotSeparated name parts) : parts = segmentList name := by
  induction h with
  | last hname => rw [segmentList, segments_of_noDot hname]
  | more hfirst _ ih => rw [segmentList_append hfirst, ih]

theorem dotSeparated_segmentList (name : String) : DotSeparated name (segmentList name) := by
  -- by induction on the length: what stands behind the first dot is shorter
  induction hlength : name.length using Nat.strongRecOn generalizing name with
  | ind length ih =>
    rcases noDot_or_split name with hname | ⟨first, rest, hfirst, rfl⟩
    · rw [segmentList, segments_of_noDot hname]
      exact .last hname
    · have hshorter : rest.length < length := by
        have hdot : ".".length = 1 := rfl
        rw [← hlength, String.length_append, String.length_append]
        omega
      rw [segmentList_append hfirst]
      exact .more hfirst (ih _ hshorter rest rfl)

theorem dotSeparated_iff : DotSeparated name parts ↔ parts = segmentList name := by
  constructor
  · exact DotSeparated.eq_segmentList
  · rintro rfl
    exact dotSeparated_segmentList name

theorem DotSeparated.append (h : DotSeparated name parts) (h' : DotSeparated rest others) :
    DotSeparated (name ++ "." ++ rest) (parts ++ others) := by
  induction h with
  | last hname => exact .more hname h'
  | @more first tail _ hfirst _ ih =>
    have hassoc : first ++ "." ++ tail ++ "." ++ rest = first ++ "." ++ (tail ++ "." ++ rest) := by
      simp only [String.append_assoc]
    rw [hassoc]
    exact .more hfirst ih

theorem segmentList_dot (name rest : String) :
    segmentList (name ++ "." ++ rest) = segmentList name ++ segmentList rest :=
  ((dotSeparated_segmentList name).append (dotSeparated_segmentList rest)).eq_segmentList.symm

def WritesIndex (segment : String) (index : Nat) : Prop :=
  ∃ digits : List Char, (segment.toList = digits ∨ segment.toList = '+' :: digits) ∧
    digits ≠ [] ∧ (∀ c ∈ digits, c.isDigit = true) ∧
    Nat.ofDigitChars 10 digits 0 = index ∧ index < 2 ^ 64

end Text

theorem listIndex?_eq_some_iff {segment : String} {index : Nat} :
    listIndex? segment = some index ↔ Text.WritesIndex segment index := by
  have hbound : index ≤ greatestIndex ↔ index < 2 ^ 64 := by
    unfold greatestIndex
    omega
  have hread : ∀ digits : List Char,
      (if digits.isEmpty || !digits.all Char.isDigit then none
        else if Nat.ofDigitChars 10 digits 0 ≤ greatestIndex then
          some (Nat.ofDigitChars 10 digits 0) else none) = some index ↔
        digits ≠ [] ∧ (∀ c ∈ digits, c.isDigit = true) ∧
          Nat.ofDigitChars 10 digits 0 = index ∧ index < 2 ^ 64 := by
    intro digits
    rw [← hbound]
    grind
  unfold listIndex? Text.WritesIndex
  simp only [hread]
  constructor
  · intro h
    split at h
    next rest hplus => exact ⟨rest, .inr hplus, h⟩
    next => exact ⟨segment.toList, .inl rfl, h⟩
  · rintro ⟨digits, hdigits | hdigits, h⟩
    · rw [hdigits]
      split
      · exact absurd (h.2.1 '+' (List.mem_cons_self ..)) (by decide)
      · exact h
    · rw [hdigits]
      exact h

example : listIndex? "+07" = some 7 ∧ listIndex? "+" = none := by decide

namespace Value

/-- A segment selects a part of a value: the member of its name in a mapping, or the
element of a list whose index it writes. -/
inductive Selects : Value → String → Value → Prop
  | member {fields : Fields} {name : String} {held : Value} :
      fields.get? name = some held → Selects (.mapping fields) name held
  | element {items : List Value} {segment : String} {index : Nat} {held : Value} :
      Text.WritesIndex segment index → items[index]? = some held →
      Selects (.list items) segment held

inductive Reaches : Value → List String → Value → Prop
  | here (value : Value) : Reaches value [] value
  | step {value part found : Value} {segment : String} {rest : List String} :
      value.Selects segment part → part.Reaches rest found → Reaches value (segment :: rest) found

variable {value part found : Value} {segment : String} {path rest : List String}

theorem part?_eq_some_iff : value.part? segment = some part ↔ value.Selects segment part := by
  constructor
  · intro h
    cases value with
    | mapping fields => exact .member h
    | list items =>
      obtain ⟨index, hindex, hitem⟩ := Option.bind_eq_some_iff.mp h
      exact .element (listIndex?_eq_some_iff.mp hindex) hitem
    | _ => cases h
  · intro h
    cases h with
    | member hget => exact hget
    | element hindex hitem =>
      exact Option.bind_eq_some_iff.mpr ⟨_, listIndex?_eq_some_iff.mpr hindex, hitem⟩

theorem follow_ok_iff : value.follow path = .ok found ↔ value.Reaches path found := by
  induction path generalizing value with
  | nil =>
    constructor
    · rintro ⟨⟩
      exact .here _
    · rintro ⟨⟩
      rfl
  | cons segment rest ih =>
    unfold follow
    constructor
    · intro h
      split at h
      next part hpart => exact .step (part?_eq_some_iff.mp hpart) (ih.mp h)
      next => cases h
    · rintro (_ | ⟨hselects, hreaches⟩)
      rw [part?_eq_some_iff.mpr hselects]
      exact ih.mpr hreaches

theorem follow_append (value : Value) (path rest : List String) :
    value.follow (path ++ rest) = value.follow path >>= fun part => part.follow rest := by
  induction path generalizing value with
  | nil => rfl
  | cons segment path ih =>
    rw [List.cons_append, follow, follow]
    cases value.part? segment with
    | none => rfl
    | some part => exact ih part

theorem reaches_append_iff : value.Reaches (path ++ rest) found ↔
    ∃ part, value.Reaches path part ∧ part.Reaches rest found := by
  simp only [← follow_ok_iff, follow_append]
  cases value.follow path with
  | error segment => simp [bind, Except.bind]
  | ok part => simp [bind, Except.bind]

theorem reaches_singleton_iff : value.Reaches [segment] found ↔ value.Selects segment found := by
  constructor
  · rintro (_ | ⟨hselects, _ | _⟩)
    exact hselects
  · exact fun hselects => .step hselects (.here found)

/-- Segments lead to one value only. -/
theorem Reaches.unique (h : value.Reaches path part) (h' : value.Reaches path found) :
    part = found :=
  Except.ok.inj ((follow_ok_iff.mpr h).symm.trans (follow_ok_iff.mpr h'))

def EndsBefore (value : Value) (path : List String) (segment : String) : Prop :=
  ∃ before after, path = before ++ segment :: after ∧
    (∃ part, value.Reaches before part) ∧ ¬∃ part, value.Reaches (before ++ [segment]) part

theorem follow_error_iff : value.follow path = .error segment ↔ value.EndsBefore path segment := by
  constructor
  · intro h
    induction path generalizing value with
    | nil => cases h
    | cons first rest ih =>
      unfold follow at h
      split at h
      next part hpart =>
        have hstep : value.Reaches [first] part :=
          reaches_singleton_iff.mpr (part?_eq_some_iff.mp hpart)
        obtain ⟨before, after, rfl, ⟨last, hbefore⟩, hends⟩ := ih h
        refine ⟨first :: before, after, rfl,
          ⟨last, reaches_append_iff.mpr ⟨part, hstep, hbefore⟩⟩, ?_⟩
        rintro ⟨found, hfound⟩
        have hwalk : value.Reaches ([first] ++ (before ++ [segment])) found := hfound
        obtain ⟨part', hstep', hmore⟩ := reaches_append_iff.mp hwalk
        exact hends ⟨found, hstep.unique hstep' ▸ hmore⟩
      next hnone =>
        cases h
        refine ⟨[], rest, rfl, ⟨value, .here value⟩, ?_⟩
        rintro ⟨found, hfound⟩
        rw [part?_eq_some_iff.mpr (reaches_singleton_iff.mp hfound)] at hnone
        cases hnone
  · rintro ⟨before, after, rfl, ⟨part, hbefore⟩, hends⟩
    have hnone : part.part? segment = none := by
      cases hpart : part.part? segment with
      | none => rfl
      | some found =>
        have hstep := reaches_singleton_iff.mpr (part?_eq_some_iff.mp hpart)
        exact absurd ⟨found, reaches_append_iff.mpr ⟨part, hbefore, hstep⟩⟩ hends
    rw [follow_append, follow_ok_iff.mpr hbefore]
    show part.follow (segment :: after) = .error segment
    rw [follow, hnone]

def LeadsTo (value : Value) (path : String) (found : Value) : Prop :=
  ∃ parts, Text.DotSeparated path parts ∧ value.Reaches parts found

def BreaksAt (value : Value) (path segment : String) : Prop :=
  ∃ parts, Text.DotSeparated path parts ∧ value.EndsBefore parts segment

theorem leadsTo_iff {name : String} :
    value.LeadsTo name found ↔ value.follow (Text.segmentList name) = .ok found := by
  simp only [LeadsTo, Text.dotSeparated_iff, exists_eq_left, follow_ok_iff]

theorem breaksAt_iff {name : String} :
    value.BreaksAt name segment ↔ value.follow (Text.segmentList name) = .error segment := by
  simp only [BreaksAt, Text.dotSeparated_iff, exists_eq_left, follow_error_iff]

/-- A path that goes on behind a dot leads on from where the shorter one leads. -/
theorem leadsTo_dot_iff {name more : String} : value.LeadsTo (name ++ "." ++ more) found ↔
    ∃ part, value.LeadsTo name part ∧ part.LeadsTo more found := by
  simp only [leadsTo_iff, Text.segmentList_dot, follow_append]
  cases value.follow (Text.segmentList name) <;> simp [bind, Except.bind]

theorem breaksAt_dot_iff {name more : String} : value.BreaksAt (name ++ "." ++ more) segment ↔
    value.BreaksAt name segment ∨ ∃ part, value.LeadsTo name part ∧ part.BreaksAt more segment := by
  simp only [leadsTo_iff, breaksAt_iff, Text.segmentList_dot, follow_append]
  cases value.follow (Text.segmentList name) <;> simp [bind, Except.bind]

end Value

namespace StepResult

variable {result : StepResult} {path : String} {value : Value} {e : PlanError}

theorem lookup_ok_iff : result.lookup path = .ok value ↔ result.toValue.LeadsTo path value := by
  have hlookup : result.lookup path =
    (result.toValue.follow (Text.segmentList path)).mapError (.missingPath path) := rfl
  rw [Value.leadsTo_iff, hlookup]
  cases result.toValue.follow (Text.segmentList path) <;> simp [Except.mapError]

theorem lookup_error_iff : result.lookup path = .error e ↔
    ∃ segment, result.toValue.BreaksAt path segment ∧ e = .missingPath path segment := by
  have hlookup : result.lookup path =
    (result.toValue.follow (Text.segmentList path)).mapError (.missingPath path) := rfl
  simp only [Value.breaksAt_iff, hlookup]
  cases result.toValue.follow (Text.segmentList path) with
  | ok value => simp [Except.mapError]
  | error segment => simp [Except.mapError, eq_comm]

theorem lookup_missing_iff {segment : String} :
    result.lookup path = .error (.missingPath path segment) ↔
      result.toValue.BreaksAt path segment := by
  simp [lookup_error_iff]

theorem passes_iff {rules : List FailRule} : result.Passes rules ↔ ∀ rule ∈ rules,
    ∃ value, result.toValue.LeadsTo rule.path value ∧ rule.predicate.holds value = false := by
  simp only [Passes, lookup_ok_iff]

theorem violates_iff {rule : FailRule} : result.Violates rule e ↔
    (∃ segment, result.toValue.BreaksAt rule.path segment ∧
      e = .missingPath rule.path segment) ∨
    ∃ value, result.toValue.LeadsTo rule.path value ∧ rule.predicate.holds value = true ∧
      e = .validation rule.path value rule.predicate.name := by
  constructor
  · rintro (hlookup | ⟨hlookup, hholds⟩)
    · exact .inl (lookup_error_iff.mp hlookup)
    · exact .inr ⟨_, lookup_ok_iff.mp hlookup, hholds, rfl⟩
  · rintro (hbreaks | ⟨value, hleads, hholds, rfl⟩)
    · exact .absent (lookup_error_iff.mpr hbreaks)
    · exact .holds (lookup_ok_iff.mpr hleads) hholds

/-- The rules on a result are kept exactly where each path leads to a value that the
predicate does not hold on; otherwise the first broken rule is reported, with the segment
that its path breaks at or with the value and the name of the predicate. A path is
followed segment by segment, so that a longer path goes on from where the shorter one
leads, and breaks where the shorter one does. -/
theorem checkRules_exact (rules : List FailRule) (result : StepResult) :
    (result.checkRules rules = .ok () ↔ ∀ rule ∈ rules,
      ∃ value, result.toValue.LeadsTo rule.path value ∧ rule.predicate.holds value = false) ∧
    (∀ e, result.checkRules rules = .error e ↔
      ∃ before rule after, rules = before ++ rule :: after ∧
        (∀ earlier ∈ before, ∃ value, result.toValue.LeadsTo earlier.path value ∧
          earlier.predicate.holds value = false) ∧
        ((∃ segment, result.toValue.BreaksAt rule.path segment ∧
            e = .missingPath rule.path segment) ∨
          ∃ value, result.toValue.LeadsTo rule.path value ∧
            rule.predicate.holds value = true ∧
            e = .validation rule.path value rule.predicate.name)) ∧
    (∀ path value, result.lookup path = .ok value ↔ result.toValue.LeadsTo path value) ∧
    (∀ path e, result.lookup path = .error e ↔
      ∃ segment, result.toValue.BreaksAt path segment ∧ e = .missingPath path segment) ∧
    (∀ path rest found, result.lookup (path ++ "." ++ rest) = .ok found ↔
      ∃ value, result.lookup path = .ok value ∧ value.LeadsTo rest found) ∧
    ∀ path rest segment,
      result.lookup (path ++ "." ++ rest) = .error (.missingPath (path ++ "." ++ rest) segment) ↔
        result.lookup path = .error (.missingPath path segment) ∨
          ∃ value, result.lookup path = .ok value ∧ value.BreaksAt rest segment := by
  refine ⟨checkRules_ok_iff.trans passes_iff, fun e => ?_, fun _ _ => lookup_ok_iff,
    fun _ _ => lookup_error_iff, fun path rest found => ?_, fun path rest segment => ?_⟩
  · simp only [checkRules_error_iff, passes_iff, violates_iff]
  · simp only [lookup_ok_iff, Value.leadsTo_dot_iff]
  · simp only [lookup_missing_iff, lookup_ok_iff, Value.breaksAt_dot_iff]

end StepResult

end PlanFold
