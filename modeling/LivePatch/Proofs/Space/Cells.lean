import LivePatch.Proofs.Space.Protections

/-!
# Single bytes

What a space holds at one address. A write gives the addresses of its range the new bytes, a copy those that its source held before,
and all others keep theirs; protecting leaves every byte alone. What is read are the bytes that are held, address by address.
-/

namespace LivePatch

namespace Mapping

variable {m : Mapping} {a d s : Address} {n i : Nat} {new : Bytes}

/-- The bytes of a range inside the mapping are as many as were asked for. -/
theorem size_bytesAt (hbase : m.base ≤ s) (hstop : s + n ≤ m.stop) : (m.bytesAt s n).size = n := by
  simp only [stop, size] at hstop
  simp only [bytesAt, Array.size_extract]
  lia

/-- They are the bytes of the mapping from there on. -/
theorem getElem?_bytesAt (hbase : m.base ≤ s) (hstop : s + n ≤ m.stop) (hi : i < n) :
    (m.bytesAt s n)[i]? = m.bytes[s + i - m.base]? := by
  simp only [stop, size] at hstop
  have hrange : i < min (s - m.base + n) m.bytes.size - (s - m.base) := by lia
  rw [bytesAt, Array.getElem?_extract, if_pos hrange, show s - m.base + i = s + i - m.base by lia]

/-- Replacing bytes gives their range the new ones and leaves the others. -/
theorem getElem?_withBytes (hbase : m.base ≤ d) (hstop : d + new.size ≤ m.stop) (ha : m.base ≤ a) :
    (m.withBytes d new).bytes[a - m.base]? =
      if d ≤ a ∧ a < d + new.size then new[a - d]? else m.bytes[a - m.base]? := by
  simp only [stop, size] at hstop
  have hfits : d - m.base + new.size ≤ m.bytes.size := by lia
  rw [withBytes, Bytes.getElem?_splice hfits]
  by_cases hrange : d ≤ a ∧ a < d + new.size
  · rw [if_pos (by lia), if_pos hrange, show a - m.base - (d - m.base) = a - d by lia]
  · rw [if_neg (by lia), if_neg hrange]

end Mapping

namespace Space

variable {space next : Space} {m m' : Mapping} {a d s : Address} {n : Nat} {b : UInt8} {p : Protection} {bytes : Bytes}

/-- The space holds the byte at the address. -/
def ByteAt (space : Space) (a : Address) (b : UInt8) : Prop := ∃ m ∈ space, m.Covers a ∧ m.bytes[a - m.base]? = some b

/-- It is the byte of the mapping that covers the address. -/
theorem WellFormed.byteAt_iff (h : space.WellFormed) (hm : m ∈ space) (ha : m.Covers a) :
    space.ByteAt a b ↔ m.bytes[a - m.base]? = some b := by
  constructor
  · rintro ⟨x, hx, hcovers, hb⟩
    rw [h.eq_of_covers hm hx ha hcovers]
    exact hb
  · intro hb
    exact ⟨m, hm, ha, hb⟩

/-- An exchange of a mapping for one at its place changes what is held there alone. -/
theorem WellFormed.byteAt_update (h : space.WellFormed) (hm : m ∈ space) (hshape : m.SameShape m') :
    (space.update m').ByteAt a b ↔ (m.Covers a ∧ m'.bytes[a - m.base]? = some b) ∨ (¬ m.Covers a ∧ space.ByteAt a b) := by
  have hupdated := h.update hm hshape
  have hm' := mem_update_self hm hshape.base
  by_cases hcovers : m.Covers a
  · rw [hupdated.byteAt_iff hm' (hshape.covers_iff.2 hcovers), hshape.base]
    simp [hcovers]
  · simp only [hcovers, false_and, not_false_iff, true_and, false_or]
    constructor
    · rintro ⟨x, hx, hxa, hb⟩
      rcases mem_update_iff.1 hx with ⟨rfl, -⟩ | ⟨hx, -⟩
      · exact absurd (hshape.covers_iff.1 hxa) hcovers
      · exact ⟨x, hx, hxa, hb⟩
    · rintro ⟨x, hx, hxa, hb⟩
      have hne : x.base ≠ m'.base := by
        intro heq
        rw [hshape.base] at heq
        exact hcovers (h.eq_of_base_eq hx hm heq ▸ hxa)
      exact ⟨x, mem_update_iff.2 (Or.inr ⟨hx, hne⟩), hxa, hb⟩

/-- A write gives its range the new bytes, and nothing else others. -/
theorem WellFormed.byteAt_of_store (h : space.WellFormed) (hstore : space.store d bytes = .done next) :
    next.ByteAt a b ↔ if d ≤ a ∧ a < d + bytes.size then bytes[a - d]? = some b else space.ByteAt a b := by
  obtain ⟨m, hm, hbase, hstop, rfl⟩ := update_of_store_eq_done hstore
  rw [h.byteAt_update hm (Mapping.sameShape_withBytes hbase hstop)]
  by_cases hcovers : m.Covers a
  · rw [Mapping.getElem?_withBytes hbase hstop hcovers.1, h.byteAt_iff hm hcovers]
    simp only [hcovers, true_and, not_true, false_and, or_false]
    split <;> rfl
  · have houtside : ¬ (d ≤ a ∧ a < d + bytes.size) := by
      rintro ⟨hle, hlt⟩
      exact hcovers ⟨Nat.le_trans hbase hle, Nat.lt_of_lt_of_le hlt hstop⟩
    simp [hcovers, houtside]

/-- What is read are the bytes that the space holds. -/
theorem WellFormed.byteAt_of_load (h : space.WellFormed) (hload : space.load s n = .done bytes) :
    bytes.size = n ∧ ∀ i < n, ∀ b, bytes[i]? = some b ↔ space.ByteAt (s + i) b := by
  obtain ⟨m, hgranted, hbytes⟩ := Outcome.bind_eq_done_iff.1 hload
  cases hbytes
  obtain ⟨⟨hm, hbase, hstop⟩, -⟩ := granted_of_granting_eq_done hgranted
  refine ⟨Mapping.size_bytesAt hbase hstop, fun i hi b => ?_⟩
  rw [Mapping.getElem?_bytesAt hbase hstop hi, h.byteAt_iff hm ⟨by lia, by lia⟩]

/-- A copy gives its destination what the source held before, also where the two meet, and nothing else anything else. -/
theorem WellFormed.byteAt_of_copy (h : space.WellFormed) (hcopy : space.copy s n d = .done next) :
    next.ByteAt a b ↔ if d ≤ a ∧ a < d + n then space.ByteAt (s + (a - d)) b else space.ByteAt a b := by
  obtain ⟨bytes, hload, hstore⟩ := Outcome.bind_eq_done_iff.1 hcopy
  obtain ⟨rfl, hheld⟩ := h.byteAt_of_load hload
  rw [h.byteAt_of_store hstore]
  split
  · exact hheld (a - d) (by lia) b
  · rfl

/-- Protecting changes no byte. -/
theorem WellFormed.byteAt_of_protect (h : space.WellFormed) (hprotect : space.protect a n p = .done next) :
    next.ByteAt d b ↔ space.ByteAt d b := by
  obtain ⟨m, hm, first, stop, rfl⟩ := update_of_protect_eq_done hprotect
  rw [h.byteAt_update hm (m.sameShape_withProtection first stop p)]
  by_cases hcovers : m.Covers d
  · rw [h.byteAt_iff hm hcovers]
    simp [hcovers, Mapping.withProtection]
  · simp [hcovers]

/-- Where mappings end at addresses, a look without a kernel call shows the byte that is held. -/
theorem WellFormed.byteAt_iff_peek (h : space.WellFormed) (hs : space.Addressable) :
    space.ByteAt a b ↔ space.peek a 1 = some #[b] := by
  constructor
  · rintro ⟨m, hm, hcovers, hb⟩
    have hstop : a + 1 ≤ m.stop := hcovers.2
    have hsize := Mapping.size_bytesAt hcovers.1 hstop
    have hbyte := Mapping.getElem?_bytesAt hcovers.1 hstop Nat.one_pos
    rw [Nat.add_zero, hb] at hbyte
    have hsingle : m.bytesAt a 1 = #[b] := by
      obtain ⟨c, hc⟩ := Array.size_eq_one_iff.1 hsize
      rw [hc] at hbyte ⊢
      exact congrArg (#[·]) (Option.some.inj hbyte)
    simp [peek, h.holding_eq_done hm hcovers hstop (hs m hm), hsingle]
  · intro hpeek
    unfold peek at hpeek
    split at hpeek
    · rename_i m hholding
      obtain ⟨hm, hbase, hstop⟩ := mem_of_holding_eq_done hholding
      have hbyte := Mapping.getElem?_bytesAt hbase hstop Nat.one_pos
      rw [Option.some.inj hpeek] at hbyte
      exact ⟨m, hm, ⟨hbase, hstop⟩, hbyte.symm⟩
    · cases hpeek

end Space

end LivePatch
