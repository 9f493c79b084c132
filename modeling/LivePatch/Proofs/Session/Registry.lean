import LivePatch.Session.Registry

/-!
# Looking into registries

A value that is found under a name is one of the registry, and adding or removing a value adds or removes no other one.
Exchanging the values of a registry for others changes nothing else about it.
-/

namespace LivePatch.Session.Registry

variable {α β : Type} {registry : Registry α} {name : String} {value : α} {entry : String × α}

/-- The registry with `f` applied to its values. -/
def mapValues (f : α → β) (registry : Registry α) : Registry β := registry.map fun entry => (entry.1, f entry.2)

/-- A value that is found is in the registry. -/
theorem mem_of_get?_eq_some (h : registry.get? name = some value) : (name, value) ∈ registry := by
  induction registry with
  | nil => cases h
  | cons first rest ih =>
    obtain ⟨key, old⟩ := first
    simp only [get?, List.lookup_cons] at h ih
    split at h
    · rename_i hname
      cases h
      rw [beq_iff_eq.1 hname]
      exact List.mem_cons_self
    · exact List.mem_cons_of_mem _ (ih h)

/-- A value that was put under a name is found there. -/
theorem get?_put_self : (registry.put name value).get? name = some value := by
  induction registry with
  | nil => simp [put, get?]
  | cons first rest ih =>
    obtain ⟨key, old⟩ := first
    unfold put
    by_cases hlt : name < key
    · simp [hlt, get?]
    · by_cases heq : name = key
      · rw [if_neg hlt, if_pos heq]
        simp [get?]
      · have hkey : (name == key) = false := beq_false_of_ne heq
        simp only [hlt, heq, if_false, get?, List.lookup_cons, hkey]
        exact ih

theorem mem_of_mem_erase (h : entry ∈ registry.erase name) : entry ∈ registry := (List.mem_filter.1 h).1

/-- What is in a registry after a value was added is the value or was there before. -/
theorem mem_of_mem_put (h : entry ∈ registry.put name value) : entry = (name, value) ∨ entry ∈ registry := by
  induction registry with
  | nil => exact Or.inl (List.mem_singleton.1 h)
  | cons first rest ih =>
    unfold put at h
    split at h
    · exact List.mem_cons.1 h
    · split at h
      · rcases List.mem_cons.1 h with h | h
        · exact Or.inl h
        · exact Or.inr (List.mem_cons_of_mem _ h)
      · rcases List.mem_cons.1 h with rfl | h
        · exact Or.inr List.mem_cons_self
        · exact (ih h).imp_right (List.mem_cons_of_mem _)

/-! ## Exchanging values -/

variable (f : α → β)

theorem get?_mapValues : (registry.mapValues f).get? name = (registry.get? name).map f := by
  induction registry with
  | nil => rfl
  | cons first rest ih =>
    obtain ⟨key, old⟩ := first
    simp only [mapValues, get?, List.map_cons, List.lookup_cons] at ih ⊢
    split
    · rfl
    · exact ih

theorem mapValues_erase : (registry.erase name).mapValues f = (registry.mapValues f).erase name := by
  simp only [mapValues, erase, List.filter_map]
  rfl

theorem mapValues_put : (registry.put name value).mapValues f = (registry.mapValues f).put name (f value) := by
  induction registry with
  | nil => rfl
  | cons first rest ih =>
    simp only [mapValues, List.map_cons, put] at ih ⊢
    split
    · rfl
    · split
      · rfl
      · rw [List.map_cons, ih]

end LivePatch.Session.Registry
