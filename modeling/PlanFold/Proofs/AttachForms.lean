import Mathlib.Data.List.Induction
import PlanFold.Plan
import PlanFold.Proofs.FieldMaps

/-!
# The written form of attach directives

A directive is written as `false`, null or a mapping of five keys, two of which
hold truth values and three a text or null. Of several modes that a mapping asks
for, merging goes before replacing and that before relocating; what narrows and
prefixes the payload is kept with every mode, also where the result is detached.
Whatever else a field holds is refused with the first thing that is wrong.

What a directive is written as is read as that directive.
-/

set_option autoImplicit false

namespace PlanFold

namespace Attach

def flagNames : List String := ["merge", "replace"]

def textNames : List String := ["to", "from", "prefix"]

inductive Admitted : String × Value → Prop
  | flag {name : String} (b : Bool) : name ∈ flagNames → Admitted (name, .bool b)
  | text {name : String} (s : String) : name ∈ textNames → Admitted (name, .string s)
  | null {name : String} : name ∈ textNames → Admitted (name, .null)

inductive Refused : String × Value → AttachFault → Prop
  | name {name : String} {value : Value} : name ∉ flagNames → name ∉ textNames →
      Refused (name, value) (.unknownField name)
  | flag {name : String} {value : Value} : name ∈ flagNames → (∀ b, value ≠ .bool b) →
      Refused (name, value) (.expectedTruthValue value)
  | text {name : String} {value : Value} : name ∈ textNames → value ≠ .null →
      (∀ s, value ≠ .string s) → Refused (name, value) (.expectedText value)

def IsForm (value : Value) : Prop :=
  value = .null ∨ value = .bool false ∨
    ∃ fields, value = .mapping fields ∧ ∀ field ∈ fields, Admitted field

/-- What is wrong with a value that stands for no directive; of a mapping the first key
that is refused decides. -/
inductive Faulty : Value → AttachFault → Prop
  | value {value : Value} : value ≠ .null → value ≠ .bool false →
      (∀ fields, value ≠ .mapping fields) → Faulty value .notADirective
  | key {before rest : Fields} {field : String × Value} {fault : AttachFault} :
      (∀ other ∈ before, Admitted other) → Refused field fault →
      Faulty (.mapping (before ++ field :: rest)) fault

inductive Asks (fields : Fields) : AttachMode → Prop
  | merge : fields.get? "merge" = some (.bool true) → Asks fields .merge
  | replace : fields.get? "merge" ≠ some (.bool true) →
      fields.get? "replace" = some (.bool true) → Asks fields .replace
  | relocate {key : String} : fields.get? "merge" ≠ some (.bool true) →
      fields.get? "replace" ≠ some (.bool true) → fields.get? "to" = some (.string key) →
      Asks fields (.relocate key)
  | detached : fields.get? "merge" ≠ some (.bool true) →
      fields.get? "replace" ≠ some (.bool true) →
      (∀ key, fields.get? "to" ≠ some (.string key)) → Asks fields .detached

inductive Denotes : Value → Attach → Prop
  | null : Denotes .null .detached
  | no : Denotes (.bool false) .detached
  | mapping {fields : Fields} {mode : AttachMode} : (∀ field ∈ fields, Admitted field) →
      Asks fields mode → Denotes (.mapping fields) ⟨mode, (fields.get? "from").bind Value.string?,
        (fields.get? "prefix").bind Value.string?⟩

theorem mem_flagNames {name : String} : name ∈ flagNames ↔ name = "merge" ∨ name = "replace" := by
  simp [flagNames]

theorem mem_textNames {name : String} :
    name ∈ textNames ↔ name = "to" ∨ name = "from" ∨ name = "prefix" := by
  simp [textNames]

theorem admitted_or_refused (field : String × Value) :
    Admitted field ∨ ∃ fault, Refused field fault := by
  obtain ⟨name, value⟩ := field
  by_cases hflag : name ∈ flagNames
  · cases value with
    | bool b => exact .inl (.flag b hflag)
    | _ => exact .inr ⟨_, .flag hflag nofun⟩
  by_cases htext : name ∈ textNames
  · cases value with
    | null => exact .inl (.null htext)
    | string s => exact .inl (.text s htext)
    | _ => exact .inr ⟨_, .text htext nofun nofun⟩
  · exact .inr ⟨_, .name hflag htext⟩

def flagOf (name : String) (fields : Fields) : Bool :=
  match fields.get? name with
  | some (.bool b) => b
  | _ => false

def textOf (name : String) (fields : Fields) : Option String :=
  (fields.get? name).bind Value.string?

def keysOf (fields : Fields) : Keys :=
  ⟨flagOf "merge" fields, flagOf "replace" fields, textOf "to" fields, textOf "from" fields,
    textOf "prefix" fields⟩

theorem get?_append_single {fields : Fields} {name : String} (hnew : name ∉ fields.keys)
    (value : Value) (key : String) : Fields.get? key (fields ++ [(name, value)]) =
      if name = key then some value else fields.get? key := by
  rw [Fields.get?_append]
  by_cases h : name = key
  · subst h
    simp [Fields.get?, (Fields.get?_eq_none_iff _ _).mpr hnew]
  · simp [Fields.get?, h]

theorem truthValue_of_other {value : Value} (h : ∀ b, value ≠ .bool b) :
    truthValue value = .error (.expectedTruthValue value) := by
  cases value with
  | bool b => exact absurd rfl (h b)
  | _ => rfl

theorem optionalText_of_other {value : Value} (hnull : value ≠ .null)
    (htext : ∀ s, value ≠ .string s) : optionalText value = .error (.expectedText value) := by
  cases value with
  | null => exact absurd rfl hnull
  | string s => exact absurd rfl (htext s)
  | _ => rfl

theorem Refused.readKey {field : String × Value} {fault : AttachFault} (h : Refused field fault)
    (keys : Keys) : Attach.readKey keys field = .error fault := by
  unfold Attach.readKey
  cases h with
  | name hflag htext =>
    rw [mem_flagNames, not_or] at hflag
    rw [mem_textNames, not_or, not_or] at htext
    obtain ⟨hmerge, hreplace⟩ := hflag
    obtain ⟨hto, hfrom, hprefix⟩ := htext
    simp only [hmerge, hreplace, hto, hfrom, hprefix, if_false]
    rfl
  | flag hname hvalue =>
    have herror := truthValue_of_other hvalue
    rcases mem_flagNames.mp hname with rfl | rfl <;>
      · simp only [herror]
        rfl
  | text hname hnull htext =>
    have herror := optionalText_of_other hnull htext
    rcases mem_textNames.mp hname with rfl | rfl | rfl <;>
      · simp only [herror]
        rfl

theorem Admitted.readKey {fields : Fields} {field : String × Value} (h : Admitted field)
    (hnew : field.1 ∉ fields.keys) :
    Attach.readKey (keysOf fields) field = .ok (keysOf (fields ++ [field])) := by
  cases h with
  | flag b hname =>
    rcases mem_flagNames.mp hname with rfl | rfl <;>
      · simp only [keysOf, flagOf, textOf, get?_append_single hnew]
        rfl
  | text s hname =>
    rcases mem_textNames.mp hname with rfl | rfl | rfl <;>
      · simp only [keysOf, flagOf, textOf, get?_append_single hnew]
        rfl
  | null hname =>
    rcases mem_textNames.mp hname with rfl | rfl | rfl <;>
      · simp only [keysOf, flagOf, textOf, get?_append_single hnew]
        rfl

theorem readKeys_append (fields others : Fields) : readKeys (fields ++ others) =
    readKeys fields >>= fun keys => others.foldlM Attach.readKey keys :=
  List.foldlM_append

theorem distinct_append {fields others : Fields} (h : Fields.Distinct (fields ++ others)) :
    fields.Distinct ∧ ∀ field ∈ others, field.1 ∉ fields.keys := by
  simp only [Fields.Distinct, Fields.keys, List.map_append] at h ⊢
  obtain ⟨hfields, _, hne⟩ := List.nodup_append.mp h
  exact ⟨hfields, fun field hfield hmem => hne _ hmem _ (List.mem_map_of_mem hfield) rfl⟩

theorem readKeys_of_admitted {fields : Fields} (hdistinct : fields.Distinct)
    (h : ∀ field ∈ fields, Admitted field) : readKeys fields = .ok (keysOf fields) := by
  induction fields using List.reverseRecOn with
  | nil => rfl
  | append_singleton fields field ih =>
    obtain ⟨hfields, hnew⟩ := distinct_append hdistinct
    have hread := (h field (by simp)).readKey (hnew field (by simp))
    rw [readKeys_append, ih hfields fun other hother => h other (List.mem_append_left _ hother)]
    show (Attach.readKey (keysOf fields) field >>= fun keys => pure keys) = _
    rw [hread]
    rfl

theorem readKeys_of_refused {before rest : Fields} {field : String × Value} {fault : AttachFault}
    (hdistinct : Fields.Distinct (before ++ field :: rest))
    (hbefore : ∀ other ∈ before, Admitted other) (h : Refused field fault) :
    readKeys (before ++ field :: rest) = .error fault := by
  rw [readKeys_append, readKeys_of_admitted (distinct_append hdistinct).1 hbefore]
  show (Attach.readKey (keysOf before) field >>= fun keys => rest.foldlM Attach.readKey keys) = _
  rw [h.readKey]
  rfl

theorem admitted_or_split (fields : Fields) : (∀ field ∈ fields, Admitted field) ∨
    ∃ before field rest fault, fields = before ++ field :: rest ∧
      (∀ other ∈ before, Admitted other) ∧ Refused field fault := by
  induction fields with
  | nil => exact .inl nofun
  | cons field rest ih =>
    rcases admitted_or_refused field with hfield | ⟨fault, hfault⟩
    · rcases ih with hrest | ⟨before, other, others, fault, rfl, hbefore, hfault⟩
      · exact .inl (List.forall_mem_cons.mpr ⟨hfield, hrest⟩)
      · exact .inr ⟨field :: before, other, others, fault, rfl,
          List.forall_mem_cons.mpr ⟨hfield, hbefore⟩, hfault⟩
    · exact .inr ⟨[], field, rest, fault, rfl, nofun, hfault⟩

theorem flagOf_eq_true_iff {name : String} {fields : Fields} :
    flagOf name fields = true ↔ fields.get? name = some (.bool true) := by
  unfold flagOf
  split
  next b h => simp [h]
  next h => simpa using fun htrue => h true htrue

theorem textOf_eq_some_iff {name key : String} {fields : Fields} :
    textOf name fields = some key ↔ fields.get? name = some (.string key) := by
  unfold textOf
  rw [Option.bind_eq_some_iff]
  constructor
  · rintro ⟨value, hget, hvalue⟩
    cases value with
    | string s => exact Option.some.inj hvalue ▸ hget
    | _ => cases hvalue
  · intro h
    exact ⟨_, h, rfl⟩

theorem Asks.mode {fields : Fields} {mode : AttachMode} (h : Asks fields mode) :
    (keysOf fields).mode = mode := by
  unfold Keys.mode keysOf
  dsimp only
  cases h with
  | merge hmerge => rw [if_pos (flagOf_eq_true_iff.mpr hmerge)]
  | replace hmerge hreplace =>
    rw [if_neg (mt flagOf_eq_true_iff.mp hmerge), if_pos (flagOf_eq_true_iff.mpr hreplace)]
  | relocate hmerge hreplace hto =>
    rw [if_neg (mt flagOf_eq_true_iff.mp hmerge), if_neg (mt flagOf_eq_true_iff.mp hreplace),
      textOf_eq_some_iff.mpr hto]
  | detached hmerge hreplace hto =>
    have hnone : textOf "to" fields = none :=
      Option.eq_none_iff_forall_ne_some.mpr fun key => mt textOf_eq_some_iff.mp (hto key)
    rw [if_neg (mt flagOf_eq_true_iff.mp hmerge), if_neg (mt flagOf_eq_true_iff.mp hreplace),
      hnone]

theorem exists_asks (fields : Fields) : ∃ mode, Asks fields mode := by
  by_cases hmerge : fields.get? "merge" = some (.bool true)
  · exact ⟨_, .merge hmerge⟩
  by_cases hreplace : fields.get? "replace" = some (.bool true)
  · exact ⟨_, .replace hmerge hreplace⟩
  by_cases hto : ∃ key, fields.get? "to" = some (.string key)
  · obtain ⟨key, hto⟩ := hto
    exact ⟨_, .relocate hmerge hreplace hto⟩
  · exact ⟨_, .detached hmerge hreplace fun key h => hto ⟨key, h⟩⟩

theorem ofValue_written (attach : Attach) : ofValue attach.toValue = .ok attach := by
  obtain ⟨mode, fromKey, keyPrefix⟩ := attach
  cases mode <;> cases fromKey <;> cases keyPrefix <;> rfl

theorem Denotes.ofValue {value : Value} {attach : Attach} (h : Denotes value attach)
    (hdistinct : ∀ fields : Fields, value = .mapping fields → fields.Distinct) :
    Attach.ofValue value = .ok attach := by
  cases h with
  | null => rfl
  | no => rfl
  | @mapping fields mode hadmitted hasks =>
    unfold Attach.ofValue
    dsimp only
    rw [readKeys_of_admitted (hdistinct fields rfl) hadmitted, ← hasks.mode]
    rfl

theorem Faulty.ofValue {value : Value} {fault : AttachFault} (h : Faulty value fault)
    (hdistinct : ∀ fields : Fields, value = .mapping fields → fields.Distinct) :
    Attach.ofValue value = .error fault := by
  cases h with
  | value hnull hno hmapping =>
    cases value with
    | null => exact absurd rfl hnull
    | mapping fields => exact absurd rfl (hmapping fields)
    | bool b =>
      cases b with
      | false => exact absurd rfl hno
      | true => rfl
    | _ => rfl
  | @key before rest field fault hbefore hrefused =>
    unfold Attach.ofValue
    dsimp only
    rw [readKeys_of_refused (hdistinct _ rfl) hbefore hrefused]
    rfl

theorem denotes_or_faulty (value : Value) :
    (∃ attach, Denotes value attach) ∨ ∃ fault, Faulty value fault := by
  cases value with
  | null => exact .inl ⟨_, .null⟩
  | bool b =>
    cases b with
    | false => exact .inl ⟨_, .no⟩
    | true => exact .inr ⟨_, .value nofun nofun nofun⟩
  | mapping fields =>
    rcases admitted_or_split fields with hall | ⟨before, field, rest, fault, rfl, hbefore, hfault⟩
    · obtain ⟨mode, hasks⟩ := exists_asks fields
      exact .inl ⟨_, .mapping hall hasks⟩
    · exact .inr ⟨fault, .key hbefore hfault⟩
  | _ => exact .inr ⟨_, .value nofun nofun nofun⟩

section reading

variable {value : Value} (hdistinct : ∀ fields : Fields, value = .mapping fields → fields.Distinct)
include hdistinct

theorem ofValue_eq_ok_iff (attach : Attach) :
    ofValue value = .ok attach ↔ Denotes value attach := by
  refine ⟨fun h => ?_, fun h => h.ofValue hdistinct⟩
  rcases denotes_or_faulty value with ⟨_, hdenotes⟩ | ⟨_, hfaulty⟩
  · cases (hdenotes.ofValue hdistinct).symm.trans h
    exact hdenotes
  · cases (hfaulty.ofValue hdistinct).symm.trans h

theorem ofValue_eq_error_iff (fault : AttachFault) :
    ofValue value = .error fault ↔ Faulty value fault := by
  refine ⟨fun h => ?_, fun h => h.ofValue hdistinct⟩
  rcases denotes_or_faulty value with ⟨_, hdenotes⟩ | ⟨_, hfaulty⟩
  · cases (hdenotes.ofValue hdistinct).symm.trans h
  · cases (hfaulty.ofValue hdistinct).symm.trans h
    exact hfaulty

end reading

theorem isForm_iff {value : Value} : IsForm value ↔ ∃ attach, Denotes value attach := by
  constructor
  · rintro (rfl | rfl | ⟨fields, rfl, hadmitted⟩)
    · exact ⟨_, .null⟩
    · exact ⟨_, .no⟩
    · obtain ⟨mode, hasks⟩ := exists_asks fields
      exact ⟨_, .mapping hadmitted hasks⟩
  · rintro ⟨attach, h⟩
    cases h with
    | null => exact .inl rfl
    | no => exact .inr (.inl rfl)
    | mapping hadmitted _ => exact .inr (.inr ⟨_, rfl, hadmitted⟩)

end Attach

namespace Plan

theorem attachDirective_of_get? {plan : Plan} {value : Value}
    (h : plan.get? "attach" = some value) :
    plan.attachDirective = (Attach.ofValue value).mapError (.invalidAttach value) := by
  unfold attachDirective
  rw [h]

/-- What a plan is given as its directive is read back as that. A value in its place is read
exactly if it is one of the forms of a directive, as what that form stands for; and otherwise
it is refused, itself and what is wrong with it being the error. -/
theorem attachDirective_forms :
    (∀ (plan : Plan) (attach : Attach), Attach.ofValue attach.toValue = .ok attach ∧
      (plan.attach attach).attachDirective = .ok attach) ∧
    ∀ (plan : Plan) (value : Value), plan.get? "attach" = some value →
      (∀ fields : Fields, value = .mapping fields → fields.Distinct) →
      ((∃ attach, plan.attachDirective = .ok attach) ↔ Attach.IsForm value) ∧
      (∀ attach, plan.attachDirective = .ok attach ↔ Attach.Denotes value attach) ∧
      ∀ e, plan.attachDirective = .error e ↔
        ∃ fault, Attach.Faulty value fault ∧ e = .invalidAttach value fault := by
  constructor
  · intro plan attach
    have hwritten := Attach.ofValue_written attach
    refine ⟨hwritten, ?_⟩
    have hfield : (plan.attach attach).get? "attach" = some attach.toValue :=
      Fields.get?_insert_self _ _ _
    rw [attachDirective_of_get? hfield, hwritten]
    rfl
  · intro plan value hvalue hdistinct
    have hok : ∀ attach, plan.attachDirective = .ok attach ↔ Attach.Denotes value attach := by
      intro attach
      rw [← Attach.ofValue_eq_ok_iff hdistinct, attachDirective_of_get? hvalue]
      cases Attach.ofValue value <;> simp [Except.mapError]
    refine ⟨?_, hok, ?_⟩
    · rw [Attach.isForm_iff]
      exact exists_congr hok
    · intro e
      simp only [← Attach.ofValue_eq_error_iff hdistinct, attachDirective_of_get? hvalue]
      cases Attach.ofValue value <;> simp [Except.mapError, eq_comm]

/-- Of three modes, merging is taken; what is wrong with a key is told before what is wrong
with a later one. -/
theorem attachDirective_forms_precedence :
    let asked : Value := .mapping [("to", .string "x"), ("replace", .bool true),
      ("prefix", .null), ("merge", .bool true), ("from", .string "k")]
    let refused : Value := .mapping [("to", .null), ("replace", .null), ("into", .string "x")]
    (ofFields [("attach", asked)]).attachDirective = .ok ⟨.merge, some "k", none⟩ ∧
      (ofFields [("attach", refused)]).attachDirective =
        .error (.invalidAttach refused (.expectedTruthValue .null)) := by
  intro asked refused
  have hforms := attachDirective_forms.2
  have hasked : ∀ fields : Fields, asked = .mapping fields → fields.Distinct := by
    intro fields h
    obtain rfl := Value.mapping.inj h
    simp [Fields.Distinct, Fields.keys]
  have hrefused : ∀ fields : Fields, refused = .mapping fields → fields.Distinct := by
    intro fields h
    obtain rfl := Value.mapping.inj h
    simp [Fields.Distinct, Fields.keys]
  constructor
  · refine ((hforms _ asked rfl hasked).2.1 _).mpr (.mapping ?_ (.merge rfl))
    simp only [List.forall_mem_cons]
    exact ⟨.text _ (by decide), .flag _ (by decide), .null (by decide), .flag _ (by decide),
      .text _ (by decide), nofun⟩
  · refine ((hforms _ refused rfl hrefused).2.2 _).mpr ⟨_, ?_, rfl⟩
    have hto : ∀ field ∈ [("to", Value.null)], Attach.Admitted field :=
      List.forall_mem_singleton.mpr (.null (by decide))
    exact .key hto (.flag (by decide) nofun)

end Plan

end PlanFold
