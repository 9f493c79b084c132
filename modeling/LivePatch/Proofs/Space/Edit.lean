import LivePatch.Proofs.Space.Order

/-!
# Editing address spaces

What `update`, `insert` and `remove` do to a well-formed space: which mappings are there afterwards, and that the space stays
well-formed. A mapping may be exchanged for another one of the same shape, with the same base, bytes and pages in number;
removing a mapping and inserting one at its base is such an exchange.
-/

namespace LivePatch

namespace Mapping

/-- The mappings lie at the same place and have as many bytes and pages. -/
structure SameShape (m m' : Mapping) : Prop where
  base : m'.base = m.base
  size : m'.size = m.size
  pages : m'.pages.size = m.pages.size

variable {m m' m'' : Mapping}

theorem SameShape.refl (m : Mapping) : m.SameShape m := ⟨rfl, rfl, rfl⟩

theorem SameShape.trans (h : m.SameShape m') (h' : m'.SameShape m'') : m.SameShape m'' :=
  ⟨h'.base.trans h.base, h'.size.trans h.size, h'.pages.trans h.pages⟩

theorem SameShape.stop (h : m.SameShape m') : m'.stop = m.stop := by
  rw [Mapping.stop, Mapping.stop, h.base, h.size]

theorem SameShape.covers_iff {a : Address} (h : m.SameShape m') : m'.Covers a ↔ m.Covers a := by
  rw [Mapping.Covers, Mapping.Covers, h.base, h.stop]

theorem SameShape.wellFormed (h : m.SameShape m') (hm : m.WellFormed) : m'.WellFormed :=
  ⟨by rw [h.base, hm.aligned], by rw [h.size, h.pages, hm.size_eq], by rw [h.pages]; exact hm.pages_pos⟩

/-- Protecting pages keeps the shape. -/
theorem sameShape_withProtection (m : Mapping) (first stop : Nat) (protection : Protection) :
    m.SameShape (m.withProtection first stop protection) :=
  ⟨rfl, rfl, by simp [withProtection]⟩

/-- Replacing bytes inside the mapping keeps the shape. -/
theorem sameShape_withBytes {a : Address} {bytes : Bytes} (ha : m.base ≤ a) (hs : a + bytes.size ≤ m.stop) :
    m.SameShape (m.withBytes a bytes) := by
  refine ⟨rfl, Bytes.size_splice ?_, rfl⟩
  simp only [Mapping.stop, Mapping.size] at hs
  lia

end Mapping

namespace Space

variable {space : Space} {m m' old x : Mapping} {b : Address}

/-! ## Exchanging a mapping -/

theorem mem_update_iff : x ∈ space.update m ↔ (x = m ∧ ∃ y ∈ space, y.base = m.base) ∨ (x ∈ space ∧ x.base ≠ m.base) := by
  simp only [update, List.mem_map]
  constructor
  · rintro ⟨y, hy, rfl⟩
    split
    · rename_i hb
      exact Or.inl ⟨rfl, y, hy, hb⟩
    · rename_i hb
      exact Or.inr ⟨hy, hb⟩
  · rintro (⟨rfl, y, hy, hb⟩ | ⟨hx, hb⟩)
    · exact ⟨y, hy, if_pos hb⟩
    · exact ⟨x, hx, if_neg hb⟩

theorem mem_update_self (hold : old ∈ space) (hb : m.base = old.base) : m ∈ space.update m :=
  mem_update_iff.2 (Or.inl ⟨rfl, old, hold, hb.symm⟩)

/-- The last exchange at a base counts. -/
theorem update_update (hb : m'.base = m.base) : (space.update m).update m' = space.update m' := by
  simp only [update, List.map_map]
  apply List.map_congr_left
  intro y _
  by_cases hy : y.base = m.base <;> simp [hy, hb]

/-- An exchange at a base that no mapping has does nothing. -/
theorem update_eq_self (h : ∀ y ∈ space, y.base ≠ m.base) : space.update m = space := by
  refine (List.map_congr_left fun y hy => ?_).trans (List.map_id space)
  simp [h y hy]

/-- An exchange leaves a mapping with another base alone. -/
theorem update_append_of_ne (h : x.base ≠ m.base) : update (space ++ [x]) m = space.update m ++ [x] := by
  simp only [update]
  rw [List.map_append]
  simp [h]

/-- Exchanging a mapping for itself does nothing. -/
theorem WellFormed.update_self (h : space.WellFormed) (hm : m ∈ space) : space.update m = space := by
  refine (List.map_congr_left fun y hy => ?_).trans (List.map_id space)
  split
  · rename_i hb
    exact h.eq_of_base_eq hm hy hb.symm
  · rfl

/-- An exchange leaves what the two mappings have in common as it was. -/
theorem WellFormed.map_update {α : Type} {f : Mapping → α} (h : space.WellFormed) (hold : old ∈ space) (hb : m.base = old.base)
    (hf : f m = f old) : (space.update m).map f = space.map f := by
  unfold Space.update
  rw [List.map_map]
  apply List.map_congr_left
  intro x hx
  by_cases heq : x.base = m.base
  · cases h.eq_of_base_eq hx hold (heq.trans hb)
    simp [heq, hf]
  · simp [heq]

/-- An exchange for a mapping of the same shape keeps a space well-formed. -/
theorem WellFormed.update (h : space.WellFormed) (hold : old ∈ space) (hm : old.SameShape m) :
    WellFormed (space.update m) := by
  constructor
  · intro x hx
    rcases mem_update_iff.1 hx with ⟨rfl, -⟩ | ⟨hx, -⟩
    · exact hm.wellFormed (h.mappings old hold)
    · exact h.mappings x hx
  · have hkeep : ∀ y ∈ space, (if y.base = m.base then m else y).base = y.base ∧
        (if y.base = m.base then m else y).stop = y.stop := by
      intro y hy
      split
      · rename_i hb
        have hy' := h.eq_of_base_eq hy hold (hb.trans hm.base)
        exact ⟨hb.symm, by rw [hy', hm.stop]⟩
      · exact ⟨rfl, rfl⟩
    rw [Space.update, List.pairwise_map]
    refine h.ordered.imp_of_mem fun {a b} ha hb hab => ?_
    rw [(hkeep a ha).2, (hkeep b hb).1]
    exact hab

theorem Addressable.update (h : space.Addressable) (hold : old ∈ space) (hm : old.SameShape m) :
    Addressable (space.update m) := by
  intro x hx
  rcases mem_update_iff.1 hx with ⟨rfl, -⟩ | ⟨hx, -⟩
  · rw [hm.stop]
    exact h old hold
  · exact h x hx

/-! ## Adding and removing mappings -/

theorem mem_of_mem_insert (hx : x ∈ space.insert m) : x = m ∨ x ∈ space := by
  induction space with
  | nil =>
    simp only [insert, List.mem_singleton] at hx
    exact Or.inl hx
  | cons y rest ih =>
    unfold insert at hx
    split at hx
    · exact List.mem_cons.1 hx
    · split at hx
      · rcases List.mem_cons.1 hx with rfl | hx
        · exact Or.inl rfl
        · exact Or.inr (List.mem_cons_of_mem _ hx)
      · rcases List.mem_cons.1 hx with rfl | hx
        · exact Or.inr List.mem_cons_self
        · exact (ih hx).imp_right (List.mem_cons_of_mem _)

/-- In a well-formed space the bases rise from mapping to mapping. -/
theorem WellFormed.bases (h : space.WellFormed) : space.Pairwise fun a b => a.base < b.base :=
  h.ordered.imp_of_mem fun ha _ hab => Nat.lt_of_lt_of_le (h.mappings _ ha).base_lt_stop hab

/-- A mapping that is added stands in the space afterwards, and so do all others but the one that had its base. -/
theorem mem_insert_iff (h : space.Pairwise fun a b => a.base < b.base) :
    x ∈ space.insert m ↔ x = m ∨ (x ∈ space ∧ x.base ≠ m.base) := by
  induction space with
  | nil => simp [insert]
  | cons y rest ih =>
    obtain ⟨hy, hrest⟩ := List.pairwise_cons.1 h
    have hbehind : m.base ≤ y.base → ∀ z ∈ rest, z.base ≠ m.base := by
      intro hle z hz
      have := hy z hz
      lia
    unfold insert
    split
    · rename_i hlt
      have hkeep : ∀ z ∈ y :: rest, z.base ≠ m.base := List.forall_mem_cons.2 ⟨by lia, hbehind (by lia)⟩
      rw [List.mem_cons]
      exact or_congr_right ⟨fun hx => ⟨hx, hkeep x hx⟩, And.left⟩
    · split
      · rename_i hbase
        rw [List.mem_cons, List.mem_cons]
        refine or_congr_right ⟨fun hx => ⟨Or.inr hx, hbehind (by lia) x hx⟩, ?_⟩
        rintro ⟨rfl | hx, hne⟩
        · exact absurd hbase.symm hne
        · exact hx
      · rename_i hbase
        rw [List.mem_cons, List.mem_cons, ih hrest]
        constructor
        · rintro (rfl | rfl | ⟨hx, hne⟩)
          · exact Or.inr ⟨Or.inl rfl, fun heq => hbase heq.symm⟩
          · exact Or.inl rfl
          · exact Or.inr ⟨Or.inr hx, hne⟩
        · rintro (rfl | ⟨rfl | hx, hne⟩)
          · exact Or.inr (Or.inl rfl)
          · exact Or.inl rfl
          · exact Or.inr (Or.inr ⟨hx, hne⟩)

/-- A mapping above all others is added at the end. -/
theorem insert_eq_append (h : ∀ y ∈ space, y.base < m.base) : space.insert m = space ++ [m] := by
  induction space with
  | nil => rfl
  | cons y rest ih =>
    have hy := h y List.mem_cons_self
    rw [insert, if_neg (by lia), if_neg (by lia), ih fun z hz => h z (List.mem_cons_of_mem _ hz), List.cons_append]

/-- A mapping is added behind those below it and before those above it. -/
theorem insert_append {l r : Space} (hl : ∀ y ∈ l, y.base < m.base) (hr : ∀ y ∈ r, m.base < y.base) :
    insert (l ++ r) m = l ++ m :: r := by
  induction l with
  | nil =>
    cases r with
    | nil => rfl
    | cons y rest => rw [List.nil_append, insert, if_pos (hr y List.mem_cons_self), List.nil_append]
  | cons y rest ih =>
    have hy := hl y List.mem_cons_self
    rw [List.cons_append, insert, if_neg (by lia), if_neg (by lia), ih fun z hz => hl z (List.mem_cons_of_mem _ hz),
      List.cons_append]

theorem mem_remove_iff : x ∈ space.remove b ↔ x ∈ space ∧ x.base ≠ b := by
  simp [remove]

theorem WellFormed.remove (h : space.WellFormed) (b : Address) : WellFormed (space.remove b) := h.filter _

/-- Removing the mapping that was added last gives the space back. -/
theorem remove_append_singleton (h : ∀ y ∈ space, y.base ≠ m.base) : remove (space ++ [m]) m.base = space := by
  have hkeep : space.filter (fun y => decide (y.base ≠ m.base)) = space :=
    List.filter_eq_self.2 fun y hy => by simpa using h y hy
  have hlast : [m].filter (fun y => decide (y.base ≠ m.base)) = [] := by simp
  rw [remove, List.filter_append, hkeep, hlast, List.append_nil]

/-- Removing a mapping and adding another one at its base is an exchange. -/
theorem WellFormed.insert_remove (h : space.WellFormed) (hold : old ∈ space) (hb : m.base = old.base) :
    (space.remove old.base).insert m = space.update m := by
  obtain ⟨l, r, rfl, hl, hr⟩ := h.split hold
  have hlb : ∀ y ∈ l, y.base < m.base := by
    intro y hy
    have h1 := hl y hy
    have h2 := (h.mappings y (by simp [hy])).base_lt_stop
    lia
  have hrb : ∀ y ∈ r, m.base < y.base := by
    intro y hy
    have h1 := hr y hy
    have h2 := (h.mappings old hold).base_lt_stop
    lia
  have hremove : Space.remove (l ++ old :: r) old.base = l ++ r := by
    rw [Space.remove, List.filter_append, List.filter_cons, if_neg (by simp),
      List.filter_eq_self.2 fun y hy => by have := hlb y hy; simp; lia,
      List.filter_eq_self.2 fun y hy => by have := hrb y hy; simp; lia]
  have hupdate : Space.update (l ++ old :: r) m = l ++ m :: r := by
    have h1 : Space.update l m = l := update_eq_self fun y hy => Nat.ne_of_lt (hlb y hy)
    have h2 : Space.update r m = r := update_eq_self fun y hy => Nat.ne_of_gt (hrb y hy)
    simp only [Space.update] at h1 h2 ⊢
    rw [List.map_append, List.map_cons, h1, h2, if_pos hb.symm]
  rw [hremove, hupdate, insert_append hlb hrb]

end Space

end LivePatch
