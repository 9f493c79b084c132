import LivePatch.Proofs.Memory.Splice
import LivePatch.Proofs.Space.Access

/-!
# Copying mappings

A copy reads its source and writes its destination. A whole mapping can be read if all its pages can; then a copy of it into a
mapping that can be written succeeds, and otherwise it fails and changes nothing. Copies behind each other in an otherwise
empty place put the contents of the mappings together.
-/

namespace LivePatch

namespace Mapping

/-- Every page of the mapping can be read. -/
def Readable (mapping : Mapping) : Prop := ∀ p ∈ mapping.pages, p.allows .readOnly

/-- The bytes of mappings one after the other. -/
def contents : List Mapping → Bytes
  | [] => #[]
  | mapping :: rest => mapping.bytes ++ contents rest

variable {m : Mapping} {a b : Address} {x y : Bytes}

/-- The bytes of the whole mapping. -/
theorem bytesAt_base (m : Mapping) : m.bytesAt m.base m.size = m.bytes := by
  rw [bytesAt, Nat.sub_self, Nat.zero_add, size, Array.extract_size]

/-- No bytes are at any address. -/
theorem bytesAt_zero (m : Mapping) (a : Address) : m.bytesAt a 0 = #[] := by
  refine Array.eq_empty_of_size_eq_zero ?_
  rw [bytesAt, Array.size_extract]
  lia

/-- Replacing no bytes changes nothing. -/
theorem withBytes_empty (m : Mapping) (a : Address) : m.withBytes a #[] = m := by rw [withBytes, Bytes.splice_empty]

/-- Replacing adjacent bytes in two steps. -/
theorem withBytes_append (ha : m.base ≤ a) (hs : a + (x ++ y).size ≤ m.stop) :
    (m.withBytes a x).withBytes (a + x.size) y = m.withBytes a (x ++ y) := by
  simp only [stop, size] at hs
  have hb : a + x.size - m.base = a - m.base + x.size := by lia
  simp only [withBytes, hb, Bytes.splice_append (show a - m.base + (x ++ y).size ≤ m.bytes.size by lia)]

/-- Replaced bytes are there. -/
theorem bytesAt_withBytes (ha : m.base ≤ a) (hs : a + x.size ≤ m.stop) : (m.withBytes a x).bytesAt a x.size = x := by
  simp only [stop, size] at hs
  exact Bytes.extract_splice (by lia)

end Mapping

namespace Space

variable {space space' : Space} {m x y : Mapping} {a d : Address} {n : Nat} {bytes : Bytes}

/-- An exchange of the last mapping of a space. -/
theorem update_append_singleton (h : ∀ z ∈ space, z.base ≠ x.base) (hy : y.base = x.base) :
    update (space ++ [x]) y = space ++ [y] := by
  have hkeep : space.update y = space := update_eq_self fun z hz => by rw [hy]; exact h z hz
  simp only [update] at hkeep ⊢
  rw [List.map_append, hkeep]
  simp [hy]

/-- No mapping of a well-formed space has the base of one that lies behind it. -/
theorem WellFormed.base_ne_of_append (h : WellFormed (space ++ [x])) : ∀ z ∈ space, z.base ≠ x.base := by
  intro z hz
  have h1 := (List.pairwise_append.1 h.ordered).2.2 z hz x (by simp)
  have h2 := (h.mappings z (by simp [hz])).base_lt_stop
  lia

/-- A whole mapping that can be read is read. -/
theorem WellFormed.load_whole (h : space.WellFormed) (hm : m ∈ space) (hs : m.stop < Word.count) (hr : m.Readable) :
    space.load m.base m.size = .done m.bytes := by
  rw [h.load_eq_done hm hs (h.mappings m hm).size_pos (Nat.le_refl _) (Nat.le_refl _) hr, Mapping.bytesAt_base]

/-- Reading a whole mapping fails if a page cannot be read. -/
theorem WellFormed.load_whole_eq_failed (h : space.WellFormed) (hm : m ∈ space) (hs : m.stop < Word.count)
    (hr : ¬ m.Readable) : space.load m.base m.size = .failed .protectionFailure := by
  have hwf := h.mappings m hm
  have hpos := hwf.size_pos
  have hpages := hwf.size_eq
  have hrefused : ¬ ∀ i, m.pageOf m.base ≤ i → i ≤ m.pageOf (m.base + m.size - 1) → ∀ p, m.pages[i]? = some p →
      p.allows .readOnly := by
    intro hall
    refine hr fun p hp => ?_
    obtain ⟨i, hi⟩ := Array.mem_iff_getElem?.1 hp
    obtain ⟨hlt, -⟩ := Array.getElem?_eq_some_iff.1 hi
    refine hall i ?_ ?_ p hi
    · simp [Mapping.pageOf]
    · simp only [Mapping.pageOf, pageBytes] at *
      lia
  rw [load, h.granting_eq_failed hm hs hpos (Nat.le_refl _) (Nat.le_refl _) hrefused, Outcome.failed_bind]

/-- A copy that is read and written. -/
theorem copy_eq_done (hload : space.load a n = .done bytes) (hstore : space.store d bytes = .done space') :
    space.copy a n d = .done space' := by
  rw [copy, hload, Outcome.done_bind, hstore]

/-- Copying a whole mapping into one that can be written. -/
theorem WellFormed.copy_whole (h : space.WellFormed) (hs : space.Addressable) (hm : m ∈ space) (hx : x ∈ space)
    (hd : x.base ≤ d) (hstop : d + m.size ≤ x.stop) (hp : ∀ p ∈ x.pages, p = .readWrite) :
    (m.Readable ∧ space.copy m.base m.size d = .done (space.update (x.withBytes d m.bytes))) ∨
      (¬ m.Readable ∧ space.copy m.base m.size d = .failed .protectionFailure) := by
  by_cases hr : m.Readable
  · refine Or.inl ⟨hr, copy_eq_done (h.load_whole hm (hs m hm) hr) ?_⟩
    refine h.store_eq_done hx (hs x hx) (h.mappings m hm).size_pos hd hstop fun i _ _ p hi => ?_
    rw [hp p (Array.mem_of_getElem? hi)]
    rfl
  · refine Or.inr ⟨hr, ?_⟩
    rw [copy, h.load_whole_eq_failed hm (hs m hm) hr, Outcome.failed_bind]

end Space

end LivePatch
