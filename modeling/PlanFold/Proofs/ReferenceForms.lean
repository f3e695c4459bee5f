import PlanFold.Proofs.DottedNames
import PlanFold.Reference

/-!
# The written form of references

A mapping with the key `ref` stands for a reference where that key holds the
name of a container, or of an attribute of one, and the key `minus` a text, null
or nothing; otherwise it has one fault. Container and attribute are joined by
the dot that separates them in the name, and what comes behind a second dot is
lost. So a reference made of two names is read back exactly where neither has a
dot, and one that was read is always read back.
-/

set_option autoImplicit false

namespace PlanFold.Reference

open Text

inductive Subtracts (descriptor : Fields) : Option String → Prop
  | absent : descriptor.get? "minus" = none → Subtracts descriptor none
  | null : descriptor.get? "minus" = some .null → Subtracts descriptor none
  | text {minus : String} : descriptor.get? "minus" = some (.string minus) →
      Subtracts descriptor (some minus)

inductive Denotes : Value → Reference → Prop
  | mapping {descriptor : Fields} {name : String} {reference : Reference} :
      descriptor.get? "ref" = some (.string name) → name ≠ "" →
      Leads name reference.container reference.member →
      Subtracts descriptor reference.minus → Denotes (.mapping descriptor) reference

inductive Faulty : Value → ReferenceFault → Prop
  | targetNotText {descriptor : Fields} {target : Value} :
      descriptor.get? "ref" = some target → (∀ name, target ≠ .string name) →
      Faulty (.mapping descriptor) .targetNotText
  | targetEmpty {descriptor : Fields} :
      descriptor.get? "ref" = some (.string "") → Faulty (.mapping descriptor) .targetEmpty
  | minusNotText {descriptor : Fields} {name : String} {minus : Value} :
      descriptor.get? "ref" = some (.string name) → name ≠ "" →
      descriptor.get? "minus" = some minus → minus ≠ .null → (∀ text, minus ≠ .string text) →
      Faulty (.mapping descriptor) .minusNotText

variable {value : Value} {reference : Reference} {fault : ReferenceFault} {descriptor : Fields}

theorem Subtracts.readMinus {minus : Option String} (h : Subtracts descriptor minus) :
    Reference.readMinus descriptor = .ok minus := by
  unfold Reference.readMinus
  cases h with
  | absent h => rw [h]
  | null h => rw [h]
  | text h => rw [h]

theorem readMinus_of_other {minus : Value} (h : descriptor.get? "minus" = some minus)
    (hnull : minus ≠ .null) (htext : ∀ text, minus ≠ .string text) :
    Reference.readMinus descriptor = .error .minusNotText := by
  unfold Reference.readMinus
  rw [h]
  cases minus with
  | null => exact absurd rfl hnull
  | string text => exact absurd rfl (htext text)
  | _ => rfl

theorem subtracts_or (descriptor : Fields) : (∃ minus, Subtracts descriptor minus) ∨
    ∃ minus, descriptor.get? "minus" = some minus ∧ minus ≠ .null ∧
      ∀ text, minus ≠ .string text := by
  cases h : descriptor.get? "minus" with
  | none => exact .inl ⟨none, .absent h⟩
  | some minus =>
    cases minus with
    | null => exact .inl ⟨none, .null h⟩
    | string text => exact .inl ⟨some text, .text h⟩
    | _ => exact .inr ⟨_, rfl, nofun, nofun⟩

theorem ofDescriptor_of_name {name : String} (hname : name ≠ "") :
    ofDescriptor (.string name) descriptor = (Reference.readMinus descriptor).map fun minus =>
      ⟨(segments name).1, (segments name).2.head?, minus⟩ := by
  unfold ofDescriptor
  dsimp only
  rw [if_neg hname]
  cases Reference.readMinus descriptor <;> rfl

theorem ofValue_of_target {target : Value} (h : descriptor.get? "ref" = some target) :
    ofValue (.mapping descriptor) = (ofDescriptor target descriptor).map some := by
  unfold ofValue
  dsimp only
  rw [h]

theorem Denotes.ofValue (h : Denotes value reference) :
    Reference.ofValue value = .ok (some reference) := by
  cases h with
  | mapping htarget hname hleads hminus =>
    obtain ⟨hfirst, hsecond⟩ := hleads.segments
    rw [ofValue_of_target htarget, ofDescriptor_of_name hname, hminus.readMinus, hfirst, hsecond]
    rfl

theorem Faulty.ofValue (h : Faulty value fault) : Reference.ofValue value = .error fault := by
  cases h with
  | @targetNotText _ target htarget htext =>
    rw [ofValue_of_target htarget]
    cases target with
    | string name => exact absurd rfl (htext name)
    | _ => rfl
  | targetEmpty htarget => rw [ofValue_of_target htarget]; rfl
  | minusNotText htarget hname hminus hnull htext =>
    rw [ofValue_of_target htarget, ofDescriptor_of_name hname,
      readMinus_of_other hminus hnull htext]
    rfl

/-- A mapping with the key of a reference stands for one or has a fault. -/
theorem denotes_or_faulty {target : Value} (htarget : descriptor.get? "ref" = some target) :
    (∃ reference, Denotes (.mapping descriptor) reference) ∨
      ∃ fault, Faulty (.mapping descriptor) fault := by
  cases target with
  | string name =>
    by_cases hname : name = ""
    · exact .inr ⟨_, .targetEmpty (hname ▸ htarget)⟩
    rcases subtracts_or descriptor with ⟨minus, hminus⟩ | ⟨minus, hminus, hnull, htext⟩
    · obtain ⟨first, second, hleads⟩ := exists_leads name
      exact .inl ⟨⟨first, second, minus⟩, .mapping htarget hname hleads hminus⟩
    · exact .inr ⟨_, .minusNotText htarget hname hminus hnull htext⟩
  | _ => exact .inr ⟨_, .targetNotText htarget nofun⟩

theorem ofValue_of_no_target (h : ∀ descriptor : Fields, value = .mapping descriptor →
    descriptor.get? "ref" = none) : Reference.ofValue value = .ok none := by
  cases value with
  | mapping descriptor =>
    unfold Reference.ofValue
    dsimp only
    rw [h descriptor rfl]
  | _ => rfl

theorem denotes_or_faulty_or (value : Value) : (∃ reference, Denotes value reference) ∨
    (∃ fault, Faulty value fault) ∨ Reference.ofValue value = .ok none := by
  by_cases h : ∃ (descriptor : Fields) (target : Value),
      value = .mapping descriptor ∧ descriptor.get? "ref" = some target
  · obtain ⟨descriptor, target, rfl, htarget⟩ := h
    rcases denotes_or_faulty htarget with hdenotes | hfaulty
    · exact .inl hdenotes
    · exact .inr (.inl hfaulty)
  · refine .inr (.inr (ofValue_of_no_target fun descriptor hvalue => ?_))
    exact Option.eq_none_iff_forall_ne_some.mpr fun target htarget =>
      h ⟨descriptor, target, hvalue, htarget⟩

theorem ofValue_eq_some_iff :
    Reference.ofValue value = .ok (some reference) ↔ Denotes value reference := by
  refine ⟨fun h => ?_, Denotes.ofValue⟩
  rcases denotes_or_faulty_or value with ⟨_, hdenotes⟩ | ⟨_, hfaulty⟩ | hnone
  · cases hdenotes.ofValue.symm.trans h
    exact hdenotes
  · cases hfaulty.ofValue.symm.trans h
  · cases hnone.symm.trans h

theorem denotes_toValue {read : Reference} (hname : reference.target ≠ "")
    (hleads : Leads reference.target read.container read.member)
    (hminus : read.minus = reference.minus) : Denotes reference.toValue read := by
  refine .mapping rfl hname hleads ?_
  rw [hminus]
  cases reference.minus with
  | none => exact .absent rfl
  | some minus => exact .text rfl

theorem joined_ne_empty (first second : String) : first ++ "." ++ second ≠ "" := by
  intro h
  simpa using congrArg String.toList h

theorem Denotes.toValue (h : Denotes value reference) : Denotes reference.toValue reference := by
  obtain ⟨container, member, minus⟩ := reference
  cases h with
  | mapping htarget hname hleads hminus =>
    cases hleads with
    | alone hfirst => exact denotes_toValue hname (.alone hfirst) rfl
    | two hfirst hsecond => exact denotes_toValue hname (.two hfirst hsecond) rfl
    | more rest hfirst hsecond =>
      exact denotes_toValue (joined_ne_empty _ _) (.two hfirst hsecond) rfl

theorem exists_leads_joined (container member : String) :
    ∃ first second, Leads (container ++ "." ++ member) first (some second) := by
  obtain ⟨first, second, hleads⟩ := exists_leads (container ++ "." ++ member)
  cases second with
  | some second => exact ⟨first, second, hleads⟩
  | none =>
    generalize hname : container ++ "." ++ member = name at hleads
    cases hleads with
    | alone hfirst => exact absurd hfirst (by simp [← hname, NoDot])

/-- The reference of two names and a duration is read back exactly where neither name has
a dot, and otherwise as that of the first two segments. A reference that stands for a value
is always read back. -/
theorem ofValue_toValue (container member : String) (minus : Option String) :
    let written : Reference := { ofNames container member with minus := minus }
    (Reference.ofValue written.toValue = .ok (some written) ↔
      NoDot container ∧ NoDot member) ∧
    (∃ first second, Leads (container ++ "." ++ member) first (some second) ∧
      Reference.ofValue written.toValue = .ok (some ⟨first, some second, minus⟩)) ∧
    ∀ value reference, Reference.ofValue value = .ok (some reference) →
      Reference.ofValue reference.toValue = .ok (some reference) := by
  intro written
  refine ⟨?_, ?_, ?_⟩
  · constructor
    · intro h
      cases ofValue_eq_some_iff.mp h with
      | mapping _ _ hleads _ =>
        obtain ⟨hcontainer, hmember⟩ := hleads.noDot
        exact ⟨hcontainer, hmember member rfl⟩
    · rintro ⟨hcontainer, hmember⟩
      have hdenotes : Denotes written.toValue written :=
        denotes_toValue (joined_ne_empty container member) (.two hcontainer hmember) rfl
      exact hdenotes.ofValue
  · obtain ⟨first, second, hleads⟩ := exists_leads_joined container member
    have hdenotes : Denotes written.toValue ⟨first, some second, minus⟩ :=
      denotes_toValue (joined_ne_empty container member) hleads rfl
    exact ⟨first, second, hleads, hdenotes.ofValue⟩
  · intro value reference h
    exact (ofValue_eq_some_iff.mp h).toValue.ofValue

/-- Further segments are lost in reading, and a duration is kept. -/
theorem ofValue_toValue_segments :
    let reference : Reference := ⟨"cake", some "at", some "P1D"⟩
    Reference.ofValue (.mapping [("minus", .string "P1D"), ("ref", .string "cake.at.day")]) =
        .ok (some reference) ∧
      reference.toValue = .mapping [("ref", .string "cake.at"), ("minus", .string "P1D")] ∧
      Reference.ofValue reference.toValue = .ok (some reference) := by
  intro reference
  have hleads : Leads "cake.at.day" "cake" (some "at") :=
    segments_iff.mp ⟨by decide +kernel, by decide +kernel⟩
  have hdenotes : Denotes (.mapping [("minus", .string "P1D"), ("ref", .string "cake.at.day")])
      reference := .mapping rfl (by decide) hleads (.text rfl)
  have hread := hdenotes.ofValue
  exact ⟨hread, rfl, (ofValue_toValue "cake" "at" none).2.2 _ _ hread⟩

end PlanFold.Reference
