import PlanFold.Value.Fields

/-!
# Merging, erasing and prefixing field maps

What a field map reads after another one is written over it, after a field is
removed and after a text is put before every key, and which keys it then has in
which order. A map that is written over another must have distinct keys: of a
repeated key the last value is written but the first one is read.
-/

set_option autoImplicit false

namespace PlanFold

namespace Fields

theorem get?_eq_none_iff (key : String) (fields : Fields) :
    fields.get? key = none ↔ key ∉ fields.keys := by
  rw [← contains_iff_mem_keys, contains]
  cases fields.get? key <;> simp

theorem contains_eq_of_keys_eq {fields others : Fields} (h : fields.keys = others.keys)
    (key : String) : fields.contains key = others.contains key := by
  rw [Bool.eq_iff_iff, contains_iff_mem_keys, contains_iff_mem_keys, h]

theorem contains_congr {fields others : Fields} {key : String}
    (h : fields.get? key = others.get? key) : fields.contains key = others.contains key :=
  congrArg Option.isSome h

theorem contains_of_get? {fields : Fields} {key : String} {value : Value}
    (h : fields.get? key = some value) : fields.contains key = true := by
  rw [contains, h]
  rfl

theorem keys_insert_of_contains {name : String} {fields : Fields}
    (h : fields.contains name = true) (value : Value) :
    (fields.insert name value).keys = fields.keys := by
  rw [keys_insert, if_pos ((contains_iff_mem_keys name fields).mp h)]

theorem get?_insert_of_ne {name key : String} (h : name ≠ key) (value : Value) (fields : Fields) :
    (fields.insert name value).get? key = fields.get? key := by
  rw [get?_insert, if_neg h]

theorem get?_insert_self (name : String) (value : Value) (fields : Fields) :
    (fields.insert name value).get? name = some value := by
  rw [get?_insert, if_pos rfl]

theorem insert_insert (name : String) (first second : Value) (fields : Fields) :
    (fields.insert name first).insert name second = fields.insert name second := by
  induction fields with
  | nil => simp [insert]
  | cons field rest ih =>
    obtain ⟨key, old⟩ := field
    by_cases h : key = name <;> simp [insert, h, ih]

theorem insert_of_notMem {name : String} {fields : Fields} (h : name ∉ fields.keys)
    (value : Value) : fields.insert name value = fields ++ [(name, value)] := by
  induction fields with
  | nil => rfl
  | cons field rest ih =>
    obtain ⟨key, old⟩ := field
    simp only [keys, List.map_cons, List.mem_cons, not_or] at h
    have hne : ¬key = name := fun e => h.1 e.symm
    rw [insert, if_neg hne, ih h.2, List.cons_append]

theorem keys_erase (name : String) (fields : Fields) :
    (fields.erase name).keys = fields.keys.filter (· ≠ name) := by
  rw [erase, keys, keys, List.filter_map]
  rfl

theorem Distinct.tail {field : String × Value} {rest : Fields}
    (h : Distinct (field :: rest)) : field.1 ∉ keys rest ∧ Distinct rest := by
  simpa [Distinct, keys] using h

theorem merge_cons (fields : Fields) (field : String × Value) (others : Fields) :
    fields.merge (field :: others) = (fields.insert field.1 field.2).merge others := rfl

theorem merge_of_distinct {fields others : Fields} (h : Distinct (fields ++ others)) :
    fields.merge others = fields ++ others := by
  induction others generalizing fields with
  | nil => exact (List.append_nil fields).symm
  | cons field others ih =>
    have hnew : field.1 ∉ fields.keys := by
      simp only [Distinct, keys, List.map_append, List.map_cons] at h
      exact fun hmem => (List.nodup_append.mp h).2.2 _ hmem _ (List.mem_cons_self ..) rfl
    have hcons : fields ++ field :: others = (fields ++ [field]) ++ others := by simp
    rw [merge_cons, insert_of_notMem hnew, ih (hcons ▸ h), hcons]

theorem get?_merge (fields : Fields) {others : Fields} (h : others.Distinct) (key : String) :
    (fields.merge others).get? key = (others.get? key).or (fields.get? key) := by
  induction others generalizing fields with
  | nil => rfl
  | cons field others ih =>
    obtain ⟨name, value⟩ := field
    obtain ⟨hnew, hrest⟩ := h.tail
    rw [merge_cons, ih _ hrest, get?_insert]
    by_cases hk : name = key
    · subst hk
      have habsent : get? name others = none := (get?_eq_none_iff name others).mpr hnew
      simp [get?, habsent]
    · simp [get?, hk]

/-- The keys of the first map keep their places, and the new ones follow in the
order of the second. -/
theorem keys_merge (fields : Fields) {others : Fields} (h : others.Distinct) :
    (fields.merge others).keys = fields.keys ++ others.keys.filter (· ∉ fields.keys) := by
  induction others generalizing fields with
  | nil => simp [merge, keys]
  | cons field others ih =>
    obtain ⟨name, value⟩ := field
    obtain ⟨hnew, hrest⟩ := h.tail
    rw [merge_cons, ih _ hrest, keys_insert]
    have hkeys : keys ((name, value) :: others) = name :: keys others := rfl
    rw [hkeys]
    by_cases hm : name ∈ fields.keys
    · simp [hm]
    · have hsame : (keys others).filter (· ∉ fields.keys ++ [name]) =
          (keys others).filter (· ∉ fields.keys) := by
        apply List.filter_congr
        intro k hk
        have hne : k ≠ name := fun e => hnew (e ▸ hk)
        simp [hne]
      simp only [hm, if_false, hsame]
      simp [hm]

theorem get?_append (fields others : Fields) (key : String) :
    get? key (fields ++ others) = (fields.get? key).or (others.get? key) := by
  induction fields with
  | nil => rfl
  | cons field rest ih =>
    obtain ⟨name, value⟩ := field
    by_cases hk : name = key
    · simp [get?, hk]
    · simpa [get?, hk] using ih

theorem Distinct.get?_of_mem {fields : Fields} (h : fields.Distinct) {key : String}
    {value : Value} (hmem : (key, value) ∈ fields) : fields.get? key = some value := by
  induction fields with
  | nil => cases hmem
  | cons field rest ih =>
    obtain ⟨name, held⟩ := field
    obtain ⟨hnew, hrest⟩ := h.tail
    rcases List.mem_cons.mp hmem with hfirst | hm
    · cases hfirst
      exact if_pos rfl
    · have hne : ¬name = key := by
        rintro rfl
        exact hnew (List.mem_map.mpr ⟨_, hm, rfl⟩)
      rw [get?, if_neg hne]
      exact ih hrest hm

section prefixing

variable (start : String)

theorem keys_prefixed (fields : Fields) :
    keys (fields.map fun field => (start ++ field.1, field.2)) = fields.keys.map (start ++ ·) := by
  simp [keys]

theorem Distinct.prefixed {fields : Fields} (h : fields.Distinct) :
    Distinct (fields.map fun field => (start ++ field.1, field.2)) := by
  rw [Distinct, keys_prefixed]
  refine List.Pairwise.map _ (fun a b hne e => hne ?_) h
  exact (String.append_right_inj start).mp e

end prefixing

end Fields

namespace Value

theorem wellFormed_of_get? {fields : Fields} {key : String} {value : Value}
    (h : WellFormedFields fields) (hget : fields.get? key = some value) : value.WellFormed := by
  induction fields with
  | nil => cases hget
  | cons field rest ih =>
    obtain ⟨name, old⟩ := field
    obtain ⟨hold, hrest⟩ := h
    by_cases hk : name = key
    · have hval : old = value := by simpa [Fields.get?, hk] using hget
      exact hval ▸ hold
    · exact ih hrest (by simpa [Fields.get?, hk] using hget)

theorem WellFormed.distinct {fields : Fields} (h : WellFormed (.mapping fields)) :
    fields.Distinct := h.1

theorem WellFormed.field? {value held : Value} {key : String} (h : value.WellFormed)
    (hget : value.field? key = some held) : held.WellFormed := by
  cases value with
  | mapping fields => exact wellFormed_of_get? h.2 hget
  | _ => cases hget

end Value

end PlanFold
