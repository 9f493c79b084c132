import LivePatch.Proofs.Space.Upkeep

/-!
# Protections of pages

Which protections the pages of a space have after a change: those that they had before, and those that the change gives them. The
relation `PageAt` says what stands in the mappings, also in a mapping that ends above the addresses; where all mappings end at
addresses it says the same as `protectionAt`.
-/

namespace LivePatch.Space

variable {space next : Space} {m m' : Mapping} {a b d base : Address} {n : Nat} {p q : Protection} {bytes : Bytes}

/-- The page that holds the address has the protection. -/
def PageAt (space : Space) (a : Address) (p : Protection) : Prop := ∃ m ∈ space, m.Covers a ∧ m.pages[m.pageOf a]? = some p

/-- A protection that can be told is that of a page of a mapping that ends at an address. -/
theorem exists_of_protectionAt_eq_some (h : space.protectionAt a = some p) :
    ∃ m ∈ space, m.stop < Word.count ∧ m.Covers a ∧ m.pages[m.pageOf a]? = some p := by
  unfold protectionAt at h
  split at h
  · rename_i m hm
    obtain ⟨hmem, hbase, hstop⟩ := mem_of_holding_eq_done hm
    exact ⟨m, hmem, stop_lt_of_holding_eq_done hm, ⟨hbase, hstop⟩, h⟩
  · cases h

theorem pageAt_of_protectionAt (h : space.protectionAt a = some p) : space.PageAt a p := by
  obtain ⟨m, hm, -, ha, hp⟩ := exists_of_protectionAt_eq_some h
  exact ⟨m, hm, ha, hp⟩

/-- In a mapping that ends at an address the protection of a page can be told. -/
theorem WellFormed.protectionAt_of_covers (h : space.WellFormed) (hm : m ∈ space) (hs : m.stop < Word.count) (ha : m.Covers a) :
    space.protectionAt a = m.pages[m.pageOf a]? := by
  rw [protectionAt, h.holding_eq_done hm ha ha.2 hs]

theorem WellFormed.protectionAt_eq_some_iff (h : space.WellFormed) (hs : space.Addressable) :
    space.protectionAt a = some p ↔ space.PageAt a p := by
  refine ⟨pageAt_of_protectionAt, ?_⟩
  rintro ⟨m, hm, ha, hp⟩
  rw [h.protectionAt_of_covers hm (hs m hm) ha, hp]

/-! ## Changes of protections -/

/-- Pages of other mappings than the one that is exchanged are as they were. -/
theorem pageAt_of_update (hshape : m.SameShape m') (h : (space.update m').PageAt a p) :
    space.PageAt a p ∨ m.Covers a ∧ m'.pages[m'.pageOf a]? = some p := by
  obtain ⟨x, hx, hcovers, hp⟩ := h
  rcases mem_update_iff.1 hx with ⟨rfl, -⟩ | ⟨hx, -⟩
  · exact Or.inr ⟨hshape.covers_iff.1 hcovers, hp⟩
  · exact Or.inl ⟨x, hx, hcovers, hp⟩

/-- Protecting pages gives them that protection, and no others another one. -/
theorem pageAt_of_protect (hdone : space.protect a n q = .done next) (h : next.PageAt b p) : p = q ∨ space.PageAt b p := by
  obtain ⟨m, hm, first, stop, rfl⟩ := update_of_protect_eq_done hdone
  rcases pageAt_of_update (m.sameShape_withProtection first stop q) h with h | ⟨hcovers, hp⟩
  · exact Or.inr h
  · rw [Mapping.getElem?_withProtection] at hp
    split at hp
    · obtain ⟨_, -, rfl⟩ := Option.map_eq_some_iff.1 hp
      exact Or.inl rfl
    · exact Or.inr ⟨m, hm, hcovers, hp⟩

/-- Writing leaves protections alone. -/
theorem pageAt_of_store (hdone : space.store a bytes = .done next) (h : next.PageAt b p) : space.PageAt b p := by
  obtain ⟨m, hm, hbase, hstop, rfl⟩ := update_of_store_eq_done hdone
  rcases pageAt_of_update (Mapping.sameShape_withBytes hbase hstop) h with h | ⟨hcovers, hp⟩
  · exact h
  · exact ⟨m, hm, hcovers, hp⟩

/-- New memory can be read and written. -/
theorem pageAt_of_allocate {placement : Placement} (hdone : space.allocate placement n = .done (base, next)) (h : next.PageAt b p) :
    p = .readWrite ∨ space.PageAt b p := by
  obtain ⟨-, -, -, rfl⟩ := allocate_eq_done_iff.1 hdone
  obtain ⟨m, hm, hcovers, hp⟩ := h
  rcases mem_of_mem_insert hm with rfl | hm
  · exact Or.inl (Mapping.mem_pages_fresh (Array.mem_of_getElem? hp))
  · exact Or.inr ⟨m, hm, hcovers, hp⟩

theorem pageAt_of_deallocate (hdone : space.deallocate a n = .done next) (h : next.PageAt b p) : space.PageAt b p := by
  cases remove_of_deallocate_eq_done hdone
  obtain ⟨m, hm, hcovers, hp⟩ := h
  exact ⟨m, (mem_remove_iff.1 hm).1, hcovers, hp⟩

/-! ## Ranges that were protected -/

/-- A range that was protected lies in one mapping, which ends at an address. -/
theorem exists_covers_of_protect_eq_done (h : space.protect a n p = .done next) :
    ∃ m ∈ space, m.stop < Word.count ∧ ∀ b, a ≤ b → b < a + n → m.Covers b := by
  unfold protect at h
  simp only [Outcome.bind_eq_done_iff, Outcome.require_eq_done_iff, Option.bind_eq_some_iff, Word.add_eq_some_iff,
    roundUp_eq_some_iff] at h
  obtain ⟨_, ⟨_, ⟨rfl, -⟩, -, rfl⟩, m, hholding, -⟩ := h
  obtain ⟨hm, hbase, hstop⟩ := mem_of_holding_eq_done hholding
  have hfloor : pageFloor a ≤ a := Nat.sub_le _ _
  have hceil : a + n ≤ pageFloor (a + n + pageBytes - 1) := by
    simp only [pageFloor, pageBytes]
    lia
  exact ⟨m, hm, stop_lt_of_holding_eq_done hholding, fun b ha hb => ⟨by lia, by lia⟩⟩

/-- It has the protection on all its pages. -/
theorem WellFormed.protectionAt_of_protect (h : space.WellFormed) (hdone : space.protect a n p = .done next) (ha : a ≤ b)
    (hb : b < a + n) : next.protectionAt b = some p := by
  obtain ⟨m, hm, hstop, hrange⟩ := exists_covers_of_protect_eq_done hdone
  have hcovers := hrange b ha hb
  obtain ⟨rfl, hfirst, hlast⟩ := h.update_of_protect_covered hm hcovers ha hb hdone
  have hshape := m.sameShape_withProtection (m.pageOf (pageFloor a)) (m.pageOf (pageFloor (a + n + pageBytes - 1))) p
  have hpage : (m.withProtection (m.pageOf (pageFloor a)) (m.pageOf (pageFloor (a + n + pageBytes - 1))) p).pages[m.pageOf b]? =
      some p := by
    rw [Mapping.getElem?_withProtection, if_pos ⟨hfirst, hlast⟩,
      Array.getElem?_eq_getElem ((h.mappings m hm).pageOf_lt hcovers)]
    rfl
  have hupdated := mem_update_self hm hshape.base
  exact ((h.update hm hshape).protectionAt_of_covers hupdated (hshape.stop ▸ hstop) (hshape.covers_iff.2 hcovers)).trans hpage

/-- The pages of a mapping that is exchanged for another at its place aside, all pages are as they were. -/
theorem WellFormed.protectionAt_update_of_not_covers (h : space.WellFormed) (hs : space.Addressable) (hm : m ∈ space)
    (hshape : m.SameShape m') (hb : ¬ m.Covers b) : (space.update m').protectionAt b = space.protectionAt b := by
  apply Option.ext
  intro q
  rw [(h.update hm hshape).protectionAt_eq_some_iff (hs.update hm hshape), h.protectionAt_eq_some_iff hs]
  constructor
  · intro hq
    rcases pageAt_of_update hshape hq with hq | ⟨hcovers, -⟩
    · exact hq
    · exact absurd hcovers hb
  · rintro ⟨x, hx, hcovers, hq⟩
    have hbase : x.base ≠ m'.base := by
      intro heq
      rw [hshape.base] at heq
      exact hb (h.eq_of_base_eq hx hm heq ▸ hcovers)
    exact ⟨x, mem_update_iff.2 (Or.inr ⟨hx, hbase⟩), hcovers, hq⟩

/-- A range that was protected leaves the pages in front of its first and behind its last one alone. -/
theorem WellFormed.protectionAt_of_protect_outside (h : space.WellFormed) (hs : space.Addressable) (hn : 0 < n)
    (hdone : space.protect a n p = .done next) (hb : b < pageFloor a ∨ pageFloor (a + n + pageBytes - 1) ≤ b) :
    next.protectionAt b = space.protectionAt b := by
  obtain ⟨m, hm, hstop, hrange⟩ := exists_covers_of_protect_eq_done hdone
  have ha : m.Covers a := hrange a (Nat.le_refl _) (by lia)
  obtain ⟨rfl, -, -⟩ := h.update_of_protect_covered hm ha (Nat.le_refl _) (by lia) hdone
  have hshape := m.sameShape_withProtection (m.pageOf (pageFloor a)) (m.pageOf (pageFloor (a + n + pageBytes - 1))) p
  by_cases hcovers : m.Covers b
  · have houtside : ¬ (m.pageOf (pageFloor a) ≤ m.pageOf b ∧ m.pageOf b < m.pageOf (pageFloor (a + n + pageBytes - 1))) := by
      have haligned := (h.mappings m hm).aligned
      have hbase := hcovers.1
      have hfirst := ha.1
      simp only [Mapping.pageOf, pageFloor, pageBytes] at *
      lia
    have hupdated := mem_update_self hm hshape.base
    rw [(h.update hm hshape).protectionAt_of_covers hupdated (hshape.stop ▸ hstop) (hshape.covers_iff.2 hcovers),
      h.protectionAt_of_covers hm hstop hcovers]
    exact (Mapping.getElem?_withProtection _ _ _ _ _).trans (if_neg houtside)
  · exact h.protectionAt_update_of_not_covers hs hm hshape hcovers

/-- The addresses of a page have the same protection. -/
theorem WellFormed.protectionAt_congr (h : space.WellFormed) (hs : space.Addressable) (hab : pageFloor a = pageFloor b) :
    space.protectionAt a = space.protectionAt b := by
  have hpage : ∀ {a b q}, pageFloor a = pageFloor b → space.PageAt a q → space.PageAt b q := by
    rintro a b q hab ⟨m, hm, ⟨hbase, hlimit⟩, hq⟩
    have haligned := (h.mappings m hm).aligned
    have hstop := (h.mappings m hm).stop_aligned
    have hpages : m.base ≤ b ∧ b < m.stop ∧ m.pageOf b = m.pageOf a := by
      simp only [Mapping.pageOf, pageFloor, pageBytes] at *
      lia
    exact ⟨m, hm, ⟨hpages.1, hpages.2.1⟩, hpages.2.2 ▸ hq⟩
  apply Option.ext
  intro q
  rw [h.protectionAt_eq_some_iff hs, h.protectionAt_eq_some_iff hs]
  exact ⟨hpage hab, hpage hab.symm⟩

/-- Writing memory leaves what can be told of protections alone. -/
theorem WellFormed.protectionAt_of_store (h : space.WellFormed) (hdone : space.store a bytes = .done next)
    (hb : space.protectionAt b = some p) : next.protectionAt b = some p := by
  obtain ⟨m, hm, hstop, hcovers, hp⟩ := exists_of_protectionAt_eq_some hb
  have hnext := h.stored hdone
  obtain ⟨old, hold, hbase, hend, rfl⟩ := update_of_store_eq_done hdone
  by_cases hsame : m.base = old.base
  · cases h.eq_of_base_eq hm hold hsame
    have hshape := Mapping.sameShape_withBytes hbase hend
    have hupdated := mem_update_self hold hshape.base
    exact (hnext.protectionAt_of_covers hupdated (hshape.stop ▸ hstop) (hshape.covers_iff.2 hcovers)).trans hp
  · exact (hnext.protectionAt_of_covers (mem_update_iff.2 (Or.inr ⟨hm, hsame⟩)) hstop hcovers).trans hp

end LivePatch.Space
