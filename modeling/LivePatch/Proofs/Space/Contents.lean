import LivePatch.Memory.Region
import LivePatch.Proofs.Space.Copy

/-!
# Contents of regions

What a region of a space holds, whatever its protection. Protecting changes nothing of it, and a write inside the region is a
splice. Looking at the region without a kernel call shows what it holds.
-/

namespace LivePatch

/-- The region is a mapping of a well-formed space, with these bytes. -/
structure Space.Holds (space : Space) (region : Region) (bytes : Bytes) : Prop where
  wellFormed : space.WellFormed
  mapping : ∃ m ∈ space, m.base = region.base ∧ m.size = region.size ∧ m.bytes = bytes ∧ m.stop < Word.count

/-- A range lies in a region if it starts there and does not end behind it. -/
theorem Region.containsRange_eq_some {region : Region} {a : Address} {n : Nat} (h : region.containsRange a n = some true) :
    region.base ≤ a ∧ a < region.base + region.size ∧ a + n ≤ region.base + region.size := by
  unfold Region.containsRange at h
  split at h
  · cases h
  · rename_i stop hstop
    obtain ⟨limit, hlimit, h⟩ := Option.map_eq_some_iff.1 h
    obtain ⟨rfl, -⟩ := Word.add_eq_some_iff.1 hstop
    obtain ⟨rfl, -⟩ := Word.add_eq_some_iff.1 hlimit
    exact of_decide_eq_true h

namespace Space

variable {space space' : Space} {region : Region} {bytes new : Bytes} {a : Address} {n : Nat} {p : Protection}

/-- Looking at a region shows what it holds. -/
theorem Holds.peek_eq (h : space.Holds region bytes) : space.peek region.base region.size = some bytes := by
  obtain ⟨m, hm, hbase, hsize, rfl, hstop⟩ := h.mapping
  have hcovers : m.Covers m.base := ⟨Nat.le_refl _, (h.wellFormed.mappings m hm).base_lt_stop⟩
  have hholding := h.wellFormed.holding_eq_done hm hcovers (Nat.le_refl _) hstop
  simp [peek, ← hbase, ← hsize, hholding, Mapping.bytesAt_base]

/-- An exchange that changes the pages of a mapping alone changes no contents. -/
theorem Holds.update {m m' : Mapping} (h : space.Holds region bytes) (hm : m ∈ space) (hshape : m.SameShape m')
    (hbytes : m'.bytes = m.bytes) : (space.update m').Holds region bytes := by
  refine ⟨h.wellFormed.update hm hshape, ?_⟩
  obtain ⟨x, hx, hbase, hsize, rfl, hstop⟩ := h.mapping
  by_cases hb : x.base = m'.base
  · cases h.wellFormed.eq_of_base_eq hx hm (hb.trans hshape.base)
    exact ⟨m', mem_update_self hm hshape.base, hshape.base.trans hbase, hshape.size.trans hsize, hbytes, hshape.stop ▸ hstop⟩
  · exact ⟨x, mem_update_iff.2 (Or.inr ⟨hx, hb⟩), hbase, hsize, rfl, hstop⟩

/-- Protecting changes no contents. -/
theorem Holds.protect (h : space.Holds region bytes) (hprotect : space.protect a n p = .done space') :
    space'.Holds region bytes := by
  obtain ⟨m, hm, first, stop, rfl⟩ := update_of_protect_eq_done hprotect
  exact h.update hm (Mapping.sameShape_withProtection m first stop p) rfl

/-- A write inside a region is a splice. -/
theorem Holds.store (h : space.Holds region bytes) (hpos : 0 < new.size) (ha : region.base ≤ a)
    (hstop : a + new.size ≤ region.base + region.size) (hstore : space.store a new = .done space') :
    space'.Holds region (bytes.splice (a - region.base) new) := by
  obtain ⟨m, hm, hma, hmstop, rfl⟩ := update_of_store_eq_done hstore
  obtain ⟨x, hx, hbase, hsize, rfl, hlimit⟩ := h.mapping
  have hstop' : a + new.size ≤ x.stop := by
    rw [Mapping.stop, hbase, hsize]
    exact hstop
  cases h.wellFormed.eq_of_covers hx hm ⟨hbase ▸ ha, by lia⟩ ⟨hma, by lia⟩
  have hshape := Mapping.sameShape_withBytes hma hmstop
  exact ⟨h.wellFormed.update hm hshape, _, mem_update_self hm hshape.base, hbase, hshape.size.trans hsize, by
    rw [Mapping.withBytes, hbase], hshape.stop ▸ hlimit⟩

end Space

end LivePatch
