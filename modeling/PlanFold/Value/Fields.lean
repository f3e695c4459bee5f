import PlanFold.Value.Basic

/-!
# Laws of field maps

What a field map reads after a field is written or removed, and what becomes of
its keys: writing keeps them and their order, except that a new key goes last.
So maps built by writing never have a key twice.
-/

set_option autoImplicit false

namespace PlanFold

namespace Fields

theorem get?_insert (name : String) (value : Value) (fields : Fields) (key : String) :
    (fields.insert name value).get? key = if name = key then some value else fields.get? key := by
  induction fields with
  | nil => simp [insert, get?]
  | cons field rest ih =>
    obtain ⟨k, old⟩ := field
    by_cases h : k = name
    · subst h
      by_cases hk : k = key <;> simp [insert, get?, hk]
    · by_cases hk : k = key
      · subst hk
        have h' : ¬name = k := fun e => h e.symm
        simp [insert, get?, h, h']
      · simp [insert, get?, h, hk, ih]

theorem get?_erase (name : String) (fields : Fields) (key : String) :
    (fields.erase name).get? key = if name = key then none else fields.get? key := by
  induction fields with
  | nil => simp [erase, get?]
  | cons field rest ih =>
    obtain ⟨k, old⟩ := field
    unfold erase at ih ⊢
    by_cases h : k = name
    · subst h
      by_cases hk : k = key <;> simp_all [get?]
    · by_cases hk : k = key
      · subst hk
        have h' : ¬name = k := fun e => h e.symm
        simp [get?, h, h']
      · simp only [ne_eq, decide_not] at ih ⊢
        simp [get?, h, hk, ih]

theorem contains_iff_mem_keys (name : String) (fields : Fields) :
    fields.contains name = true ↔ name ∈ fields.keys := by
  induction fields with
  | nil => simp [contains, get?, keys]
  | cons field rest ih =>
    obtain ⟨key, old⟩ := field
    simp only [contains, keys, get?, List.map_cons, List.mem_cons] at ih ⊢
    by_cases h : key = name
    · simp [h]
    · simp [h, ih, Ne.symm h]

theorem keys_insert (name : String) (value : Value) (fields : Fields) :
    (fields.insert name value).keys =
      if name ∈ fields.keys then fields.keys else fields.keys ++ [name] := by
  induction fields with
  | nil => simp [insert, keys]
  | cons field rest ih =>
    obtain ⟨key, old⟩ := field
    by_cases h : key = name
    · simp [insert, keys, h]
    · have h' : ¬name = key := fun e => h e.symm
      simp only [insert, h, if_false]
      simp only [keys, List.map_cons, List.mem_cons, h', false_or] at ih ⊢
      rw [ih]
      split <;> simp_all

theorem Distinct.insert {fields : Fields} (h : fields.Distinct) (name : String) (value : Value) :
    (fields.insert name value).Distinct := by
  unfold Distinct at h ⊢
  rw [keys_insert]
  split
  · exact h
  · rename_i hnot
    exact List.nodup_append.2 ⟨h, by simp, by
      intro a ha b hb
      have hb' : b = name := by simpa using hb
      subst hb'
      intro e
      exact hnot (e ▸ ha)⟩

theorem Distinct.merge {fields : Fields} (h : fields.Distinct) (others : Fields) :
    (fields.merge others).Distinct := by
  unfold Fields.merge
  induction others generalizing fields with
  | nil => exact h
  | cons field rest ih => exact ih (h.insert field.1 field.2)

theorem distinct_ofList (entries : List (String × Value)) : (ofList entries).Distinct :=
  Distinct.merge (by simp [Distinct, keys]) entries

end Fields

end PlanFold
