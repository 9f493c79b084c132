import LivePatch.Simulation.Space

/-!
# Well-formed address spaces

In a well-formed address space every mapping starts on a page boundary and consists of whole pages, and no mapping reaches
into the next. Then an address lies in at most one mapping, and the lookups of the kernel, which only go by bases, find that
one: `holding` finds the mapping of a range, `at?` that of a base, and `region` the lowest mapping that ends above an address.
-/

namespace LivePatch

namespace Mapping

/-- The first address behind the mapping as a number, whether or not it is an address. -/
def stop (mapping : Mapping) : Nat := mapping.base + mapping.size

/-- The address lies in the mapping. -/
def Covers (mapping : Mapping) (address : Address) : Prop := mapping.base ≤ address ∧ address < mapping.stop

/-- The mapping starts on a page boundary and has at least one page, and its bytes fill its pages. -/
structure WellFormed (mapping : Mapping) : Prop where
  aligned : mapping.base % pageBytes = 0
  size_eq : mapping.size = mapping.pages.size * pageBytes
  pages_pos : 0 < mapping.pages.size

theorem pageBytes_pos : 0 < pageBytes := by decide

theorem WellFormed.size_pos {mapping : Mapping} (h : mapping.WellFormed) : 0 < mapping.size := by
  rw [h.size_eq]
  exact Nat.mul_pos h.pages_pos pageBytes_pos

theorem WellFormed.base_lt_stop {mapping : Mapping} (h : mapping.WellFormed) : mapping.base < mapping.stop := by
  have := h.size_pos
  simp only [stop]
  lia

theorem WellFormed.stop_aligned {mapping : Mapping} (h : mapping.WellFormed) : mapping.stop % pageBytes = 0 := by
  have h1 := h.aligned
  have h2 := h.size_eq
  simp only [stop, pageBytes] at *
  lia

/-- The limit of a mapping is there exactly when its stop is an address. -/
theorem limit_eq_some_iff {mapping : Mapping} {a : Address} :
    mapping.limit = some a ↔ mapping.stop = a ∧ a < Word.count := Word.add_eq_some_iff

theorem limit_of_lt {mapping : Mapping} (h : mapping.stop < Word.count) : mapping.limit = some mapping.stop :=
  limit_eq_some_iff.2 ⟨rfl, h⟩

end Mapping

namespace Space

/-- The mappings are well-formed, lie in the order of their bases, and none reaches into the next. -/
structure WellFormed (space : Space) : Prop where
  mappings : ∀ m ∈ space, m.WellFormed
  ordered : space.Pairwise fun a b => a.stop ≤ b.base

/-- Every mapping ends at an address. -/
def Addressable (space : Space) : Prop := ∀ m ∈ space, m.stop < Word.count

/-- The mapping is the lowest of those that end above the address. -/
structure Next (space : Space) (address : Address) (mapping : Mapping) : Prop where
  mem : mapping ∈ space
  above : address < mapping.stop
  lowest : ∀ m ∈ space, address < m.stop → mapping.base ≤ m.base

variable {space : Space} {m m' : Mapping} {a : Address} {n : Nat}

/-! ## Order -/

/-- A mapping of a well-formed space stands between those that end before it and those that start behind it. -/
theorem WellFormed.split (h : space.WellFormed) (hm : m ∈ space) :
    ∃ l r, space = l ++ m :: r ∧ (∀ x ∈ l, x.stop ≤ m.base) ∧ ∀ x ∈ r, m.stop ≤ x.base := by
  obtain ⟨l, r, rfl⟩ := List.append_of_mem hm
  have ho := h.ordered
  rw [List.pairwise_append, List.pairwise_cons] at ho
  exact ⟨l, r, rfl, fun x hx => ho.2.2 x hx m (by simp), ho.2.1.1⟩

/-- Two mappings of a well-formed space are the same, or one ends before the other starts. -/
theorem WellFormed.apart (h : space.WellFormed) (hm : m ∈ space) (hm' : m' ∈ space) :
    m = m' ∨ m.stop ≤ m'.base ∨ m'.stop ≤ m.base := by
  obtain ⟨l, r, rfl, hl, hr⟩ := h.split hm
  rcases List.mem_append.1 hm' with hx | hx
  · exact Or.inr (Or.inr (hl _ hx))
  · rcases List.mem_cons.1 hx with rfl | hx
    · exact Or.inl rfl
    · exact Or.inr (Or.inl (hr _ hx))

/-- An address lies in at most one mapping. -/
theorem WellFormed.eq_of_covers (h : space.WellFormed) (hm : m ∈ space) (hm' : m' ∈ space) (ha : m.Covers a)
    (ha' : m'.Covers a) : m = m' := by
  rcases h.apart hm hm' with h' | h' | h'
  · exact h'
  · exact absurd ha.2 (by have := ha'.1; lia)
  · exact absurd ha'.2 (by have := ha.1; lia)

/-- A mapping is determined by its base. -/
theorem WellFormed.eq_of_base_eq (h : space.WellFormed) (hm : m ∈ space) (hm' : m' ∈ space) (hb : m.base = m'.base) :
    m = m' :=
  h.eq_of_covers hm hm' ⟨Nat.le_refl _, (h.mappings m hm).base_lt_stop⟩
    ⟨hb ▸ Nat.le_refl _, hb ▸ (h.mappings m' hm').base_lt_stop⟩

/-- What a predicate keeps of a well-formed space is well-formed. -/
theorem WellFormed.filter (h : space.WellFormed) (p : Mapping → Bool) : WellFormed (space.filter p) :=
  ⟨fun m hm => h.mappings m (List.mem_filter.1 hm).1, h.ordered.filter p⟩

/-- A well-formed mapping behind all others can be added. -/
theorem WellFormed.snoc (h : space.WellFormed) (hm : m.WellFormed) (hs : ∀ x ∈ space, x.stop ≤ m.base) :
    WellFormed (space ++ [m]) := by
  constructor
  · intro x hx
    rcases List.mem_append.1 hx with hx | hx
    · exact h.mappings x hx
    · rw [List.mem_singleton.1 hx]
      exact hm
  · rw [List.pairwise_append]
    refine ⟨h.ordered, List.pairwise_singleton _ _, ?_⟩
    intro x hx y hy
    rw [List.mem_singleton.1 hy]
    exact hs x hx

theorem Addressable.snoc (h : space.Addressable) (hm : m.stop < Word.count) : Addressable (space ++ [m]) := by
  intro x hx
  rcases List.mem_append.1 hx with hx | hx
  · exact h x hx
  · rw [List.mem_singleton.1 hx]
    exact hm

/-! ## Lookups -/

/-- The mapping found at or below an address is one of those, and no other has a greater base. -/
theorem WellFormed.atOrBelow?_eq_some (h : space.WellFormed) (hm : m ∈ space) (ha : m.base ≤ a)
    (hmax : ∀ x ∈ space, x.base ≤ a → x.base ≤ m.base) : space.atOrBelow? a = some m := by
  obtain ⟨l, r, rfl, hl, hr⟩ := h.split hm
  have hnone : r.filter (fun mapping => decide (mapping.base ≤ a)) = [] := by
    rw [List.filter_eq_nil_iff]
    intro x hx hle
    have h1 := hmax x (by simp [hx]) (of_decide_eq_true hle)
    have h2 := hr x hx
    have h3 := (h.mappings m (by simp)).base_lt_stop
    lia
  simp [atOrBelow?, List.filter_append, ha, hnone]

theorem WellFormed.atOrBelow?_of_covers (h : space.WellFormed) (hm : m ∈ space) (ha : m.Covers a) :
    space.atOrBelow? a = some m := by
  refine h.atOrBelow?_eq_some hm ha.1 fun x hx hle => ?_
  have h1 := ha.2
  rcases h.apart hm hx with rfl | h' | h'
  · exact Nat.le_refl _
  · lia
  · have := (h.mappings x hx).base_lt_stop
    lia

theorem mem_of_atOrBelow?_eq_some (h : space.atOrBelow? a = some m) : m ∈ space ∧ m.base ≤ a := by
  have := List.mem_of_getLast? h
  simpa [List.mem_filter] using this

theorem WellFormed.at?_base (h : space.WellFormed) (hm : m ∈ space) : space.at? m.base = some m := by
  cases hf : space.at? m.base with
  | none =>
    have := List.find?_eq_none.1 hf m hm
    simp at this
  | some x =>
    have hx := List.mem_of_find?_eq_some hf
    have hb := List.find?_some hf
    rw [h.eq_of_base_eq hx hm (of_decide_eq_true hb)]

/-- The mapping that holds a range is one of the space, and the range lies inside. -/
theorem mem_of_holding_eq_done (h : space.holding a n = .done m) : m ∈ space ∧ m.base ≤ a ∧ a + n ≤ m.stop := by
  unfold holding at h
  split at h
  · cases h
  · rename_i x hx
    obtain ⟨hmem, hle⟩ := mem_of_atOrBelow?_eq_some hx
    simp only [Outcome.bind_eq_done_iff, Outcome.require_eq_done_iff, Word.add_eq_some_iff,
      Mapping.limit_eq_some_iff] at h
    obtain ⟨_, ⟨rfl, -⟩, _, ⟨rfl, -⟩, h⟩ := h
    split at h
    · cases h
    · rename_i hstop
      cases h
      exact ⟨hmem, hle, Nat.le_of_not_lt hstop⟩

/-- The mapping that holds a range ends at an address. -/
theorem stop_lt_of_holding_eq_done (h : space.holding a n = .done m) : m.stop < Word.count := by
  unfold holding at h
  split at h
  · cases h
  · simp only [Outcome.bind_eq_done_iff, Outcome.require_eq_done_iff, Mapping.limit_eq_some_iff] at h
    obtain ⟨_, -, _, ⟨rfl, hlt⟩, h⟩ := h
    split at h
    · cases h
    · cases h
      exact hlt

/-- A range inside a mapping that ends at an address is held by that mapping. -/
theorem WellFormed.holding_eq_done (h : space.WellFormed) (hm : m ∈ space) (ha : m.Covers a) (hn : a + n ≤ m.stop)
    (hs : m.stop < Word.count) : space.holding a n = .done m := by
  have h1 : Word.add a n = some (a + n) := Word.add_eq_some_iff.2 ⟨rfl, by lia⟩
  have h2 : ¬ m.stop < a + n := by lia
  simp [holding, h.atOrBelow?_of_covers hm ha, h1, Mapping.limit_of_lt hs, h2]

/-- A mapping that contains an address covers it. -/
theorem covers_of_containing_eq_done (h : space.containing a = .done (some m)) : m ∈ space ∧ m.Covers a := by
  unfold containing at h
  split at h
  · cases h
  · rename_i x hx
    rw [Outcome.bind_eq_done_iff] at h
    obtain ⟨limit, hlimit, h⟩ := h
    rw [Outcome.require_eq_done_iff, Mapping.limit_eq_some_iff] at hlimit
    obtain ⟨rfl, -⟩ := hlimit
    split at h
    · rename_i hlt
      cases h
      obtain ⟨hmem, hle⟩ := mem_of_atOrBelow?_eq_some hx
      exact ⟨hmem, hle, hlt⟩
    · cases h

/-- A reported region is one of the space, with its full size. -/
theorem mem_of_region_eq_done {region : Region} (h : space.region a = .done region) :
    ∃ m ∈ space, region.base = m.base ∧ region.size = m.size := by
  unfold Space.region at h
  rw [Outcome.bind_eq_done_iff] at h
  obtain ⟨found, hfound, h⟩ := h
  split at h
  · cases h
  · rename_i x hx
    rw [Outcome.bind_eq_done_iff] at h
    obtain ⟨_, -, h⟩ := h
    cases h
    refine ⟨x, ?_, rfl, rfl⟩
    rcases Option.or_eq_some_iff.1 hx with rfl | ⟨-, hx⟩
    · exact (covers_of_containing_eq_done hfound).1
    · exact List.mem_of_find?_eq_some hx

/-- The mapping that covers an address contains it. -/
theorem WellFormed.containing_of_covers (h : space.WellFormed) (hm : m ∈ space) (ha : m.Covers a)
    (hs : m.stop < Word.count) : space.containing a = .done (some m) := by
  simp [containing, h.atOrBelow?_of_covers hm ha, Mapping.limit_of_lt hs, ha.2]

/-- An address above the ends of all mappings that start below it is contained in none. -/
theorem containing_eq_none (hs : space.Addressable) (ha : ∀ x ∈ space, x.base ≤ a → x.stop ≤ a) :
    space.containing a = .done none := by
  unfold containing
  split
  · rfl
  · rename_i x hx
    obtain ⟨hmem, hle⟩ := mem_of_atOrBelow?_eq_some hx
    have hstop := ha x hmem hle
    simp [Mapping.limit_of_lt (hs x hmem), show ¬ a < x.stop by lia]

/-- The mapping found at or above an address is the lowest of those. -/
theorem WellFormed.atOrAbove?_eq_some (h : space.WellFormed) (hm : m ∈ space) (ha : a ≤ m.base)
    (hmin : ∀ x ∈ space, a ≤ x.base → m.base ≤ x.base) : space.atOrAbove? a = some m := by
  obtain ⟨l, r, rfl, hl, hr⟩ := h.split hm
  have hnone : l.find? (fun mapping => decide (a ≤ mapping.base)) = none := by
    rw [List.find?_eq_none]
    intro x hx hle
    have h1 := hmin x (by simp [hx]) (of_decide_eq_true hle)
    have h2 := hl x hx
    have h3 := (h.mappings x (by simp [hx])).base_lt_stop
    lia
  simp [atOrAbove?, List.find?_append, hnone, ha]

/-- No mapping at or above an address starts below the one that is found there. -/
theorem WellFormed.base_le_of_atOrAbove?_eq_some (h : space.WellFormed) (hm : space.atOrAbove? a = some m) (hx : m' ∈ space)
    (ha : a ≤ m'.base) : m.base ≤ m'.base := by
  obtain ⟨-, l, r, rfl, hl⟩ := List.find?_eq_some_iff_append.1 hm
  rcases List.mem_append.1 hx with hx | hx
  · exact absurd (hl m' hx) (by simpa using ha)
  · rcases List.mem_cons.1 hx with rfl | hx
    · exact Nat.le_refl _
    · have h1 := (List.pairwise_cons.1 (List.pairwise_append.1 h.ordered).2.1).1 m' hx
      have h2 := (h.mappings m (by simp)).base_lt_stop
      lia

/-- The mapping that a well-formed space reports for an address is the lowest that ends above it, with the protection of the page that
holds the address, or of its first page if it starts above the address. -/
theorem WellFormed.region_of_next (h : space.WellFormed) (hs : space.Addressable) (hm : space.Next a m) :
    ∃ protection, m.pages[m.pageOf (max a m.base)]? = some protection ∧ space.region a = .done ⟨m.base, m.size, protection⟩ := by
  have hpage : m.pageOf (max a m.base) < m.pages.size := by
    have h1 := hm.above
    have h2 := (h.mappings m hm.mem).size_eq
    have h3 := (h.mappings m hm.mem).base_lt_stop
    rw [Mapping.pageOf, Nat.div_lt_iff_lt_mul Mapping.pageBytes_pos, ← h2]
    simp only [Mapping.stop] at h1 h3
    lia
  refine ⟨m.pages[m.pageOf (max a m.base)], Array.getElem?_eq_getElem hpage, ?_⟩
  rcases Nat.lt_or_ge a m.base with ha | ha
  · have hnone : space.containing a = .done none := by
      refine containing_eq_none hs fun x hx hle => ?_
      rcases Nat.lt_or_ge a x.stop with hlt | hge
      · have := hm.lowest x hx hlt
        lia
      · exact hge
    have habove : space.atOrAbove? a = some m := by
      refine h.atOrAbove?_eq_some hm.mem (Nat.le_of_lt ha) fun x hx hle => hm.lowest x hx ?_
      have := (h.mappings x hx).base_lt_stop
      lia
    simp [Space.region, hnone, habove, hpage]
  · simp [Space.region, h.containing_of_covers hm.mem ⟨ha, hm.above⟩ (hs m hm.mem), hpage]

theorem WellFormed.region_eq_done (h : space.WellFormed) (hs : space.Addressable) (hm : space.Next a m) :
    ∃ protection, space.region a = .done ⟨m.base, m.size, protection⟩ := by
  obtain ⟨protection, -, hregion⟩ := h.region_of_next hs hm
  exact ⟨protection, hregion⟩

/-- What a well-formed space reports for an address is the lowest mapping that ends above it. -/
theorem WellFormed.next_of_region {region : Region} (h : space.WellFormed) (hs : space.Addressable)
    (hregion : space.region a = .done region) : ∃ m, space.Next a m ∧ region.base = m.base := by
  unfold Space.region at hregion
  rw [Outcome.bind_eq_done_iff] at hregion
  obtain ⟨found, hfound, hregion⟩ := hregion
  split at hregion
  · cases hregion
  · rename_i m hm
    rw [Outcome.bind_eq_done_iff] at hregion
    obtain ⟨_, -, hregion⟩ := hregion
    cases hregion
    refine ⟨m, ?_, rfl⟩
    rcases Option.or_eq_some_iff.1 hm with rfl | ⟨hnone, hm⟩
    · obtain ⟨hmem, hbelow, habove⟩ := covers_of_containing_eq_done hfound
      refine ⟨hmem, habove, fun x hx hlt => ?_⟩
      rcases h.apart hmem hx with rfl | h' | h'
      · exact Nat.le_refl _
      · have := (h.mappings m hmem).base_lt_stop
        lia
      · lia
    · subst hnone
      have hmem := List.mem_of_find?_eq_some hm
      have hle : a ≤ m.base := by simpa using List.find?_some hm
      refine ⟨hmem, Nat.lt_of_le_of_lt hle (h.mappings m hmem).base_lt_stop, fun x hx hlt => ?_⟩
      rcases Nat.lt_or_ge x.base a with hxa | hxa
      · -- a mapping that starts below the address and ends above it would have been found to contain it
        rw [h.containing_of_covers hx ⟨Nat.le_of_lt hxa, hlt⟩ (hs x hx)] at hfound
        cases hfound
      · exact h.base_le_of_atOrAbove?_eq_some hm hx hxa

/-- An address that a mapping ends above has a lowest one. -/
theorem WellFormed.exists_next (h : space.WellFormed) (hm : m ∈ space) (ha : a < m.stop) : ∃ x, space.Next a x := by
  cases hfind : space.find? fun x => decide (a < x.stop) with
  | none =>
    have hnone := List.find?_eq_none.1 hfind m hm
    exact absurd (decide_eq_true ha) hnone
  | some x =>
    obtain ⟨habove, l, r, rfl, hl⟩ := List.find?_eq_some_iff_append.1 hfind
    refine ⟨x, by simp, of_decide_eq_true habove, fun y hy hlt => ?_⟩
    rcases List.mem_append.1 hy with hy | hy
    · exact absurd hlt (by simpa using hl y hy)
    · rcases List.mem_cons.1 hy with rfl | hy
      · exact Nat.le_refl _
      · have h1 := (List.pairwise_cons.1 (List.pairwise_append.1 h.ordered).2.1).1 y hy
        have h2 := (h.mappings x (by simp)).base_lt_stop
        lia

/-- Nothing is reported for an address that no mapping ends above. -/
theorem WellFormed.region_eq_failed (h : space.WellFormed) (hs : space.Addressable) (ha : ∀ x ∈ space, x.stop ≤ a) :
    space.region a = .failed .invalidAddress := by
  have hnone : space.containing a = .done none := containing_eq_none hs fun x hx _ => ha x hx
  have habove : space.atOrAbove? a = none := by
    refine List.find?_eq_none.2 fun x hx hle => ?_
    have h1 := ha x hx
    have h2 := (h.mappings x hx).base_lt_stop
    have h3 := of_decide_eq_true hle
    lia
  simp [Space.region, hnone, habove]

/-- A well-formed space reports the lowest mapping that ends above the address, and fails if there is none. -/
theorem WellFormed.region_cases (h : space.WellFormed) (hs : space.Addressable) (a : Address) :
    (∃ m protection, space.Next a m ∧ space.region a = .done ⟨m.base, m.size, protection⟩) ∨
      ((∀ m ∈ space, m.stop ≤ a) ∧ space.region a = .failed .invalidAddress) := by
  by_cases hex : ∃ m ∈ space, a < m.stop
  · obtain ⟨m, hm, ha⟩ := hex
    obtain ⟨x, hx⟩ := h.exists_next hm ha
    obtain ⟨protection, hregion⟩ := h.region_eq_done hs hx
    exact Or.inl ⟨x, protection, hx, hregion⟩
  · have hnone : ∀ m ∈ space, m.stop ≤ a := fun m hm => Nat.le_of_not_lt fun ha => hex ⟨m, hm, ha⟩
    exact Or.inr ⟨hnone, h.region_eq_failed hs hnone⟩

/-- There is one lowest mapping that ends above an address. -/
theorem WellFormed.next_unique (h : space.WellFormed) (hm : space.Next a m) (hm' : space.Next a m') : m = m' :=
  h.eq_of_base_eq hm.mem hm'.mem (Nat.le_antisymm (hm.lowest m' hm'.mem hm'.above) (hm'.lowest m hm.mem hm.above))

/-- A mapping is the lowest one that ends above its base. -/
theorem WellFormed.next_base (h : space.WellFormed) (hm : m ∈ space) : space.Next m.base m := by
  refine ⟨hm, (h.mappings m hm).base_lt_stop, fun x hx hlt => ?_⟩
  have hpos := (h.mappings m hm).base_lt_stop
  rcases h.apart hm hx with rfl | h' | h'
  · exact Nat.le_refl _
  · lia
  · lia

end Space

end LivePatch
