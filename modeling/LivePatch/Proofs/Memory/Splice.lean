import LivePatch.Memory.Bytes

/-!
# Splices

How splices follow each other: two that are adjacent are one, of two at the same place the last one counts, two that are apart
commute, and putting back what a splice replaced undoes it.
-/

namespace LivePatch

namespace Bytes

variable {bytes a b new : Bytes} {o o' n : Nat}

/-- Splicing in nothing changes nothing, wherever. -/
theorem splice_empty (bytes : Bytes) (o : Nat) : bytes.splice o #[] = bytes := by
  rw [splice, Array.append_empty, Array.size_empty, Nat.add_zero, Array.extract_append_extract, Nat.min_eq_left (Nat.zero_le o)]
  exact Array.extract_eq_self_of_le (Nat.le_max_right _ _)

/-- Splicing in as many bytes as there are leaves the new ones. -/
theorem splice_all (h : new.size = bytes.size) : bytes.splice 0 new = new := by
  refine Array.ext_getElem? fun i => ?_
  rw [getElem?_splice (by lia)]
  split
  · rw [Nat.sub_zero]
  · rw [Array.getElem?_eq_none (by lia), Array.getElem?_eq_none (by lia)]

/-- Adjacent splices are one. -/
theorem splice_append (h : o + (a ++ b).size ≤ bytes.size) :
    (bytes.splice o a).splice (o + a.size) b = bytes.splice o (a ++ b) := by
  have hsize : (a ++ b).size = a.size + b.size := Array.size_append
  have ha : o + a.size ≤ bytes.size := by lia
  refine Array.ext_getElem? fun i => ?_
  rw [getElem?_splice (by rw [size_splice ha]; lia), getElem?_splice ha, getElem?_splice h]
  by_cases h1 : o ≤ i ∧ i < o + a.size
  · rw [if_neg (by lia), if_pos h1, if_pos (by lia), Array.getElem?_append_left (by lia)]
  · by_cases h2 : o + a.size ≤ i ∧ i < o + a.size + b.size
    · rw [if_pos h2, if_pos (by lia), Array.getElem?_append_right (by lia), Nat.sub_sub]
    · rw [if_neg h2, if_neg h1, if_neg (by lia)]

/-- Of two splices at the same place the last one counts. -/
theorem splice_splice (hsize : a.size = b.size) (h : o + b.size ≤ bytes.size) :
    (bytes.splice o a).splice o b = bytes.splice o b := by
  have ha : o + a.size ≤ bytes.size := by lia
  refine Array.ext_getElem? fun i => ?_
  rw [getElem?_splice (by rw [size_splice ha]; lia), getElem?_splice ha, getElem?_splice h, hsize]
  split
  · rfl
  · rfl

/-- Splicing in what is there changes nothing. -/
theorem splice_extract (h : o + n ≤ bytes.size) : bytes.splice o (bytes.extract o (o + n)) = bytes := by
  have hsize : (bytes.extract o (o + n)).size = n := by rw [Array.size_extract]; lia
  refine Array.ext_getElem? fun i => ?_
  rw [getElem?_splice (by lia)]
  split
  · rw [Array.getElem?_extract, if_pos (by lia), show o + (i - o) = i by lia]
  · rfl

/-- The bytes in the range of a splice are the new ones. -/
theorem extract_splice (h : o + new.size ≤ bytes.size) : (bytes.splice o new).extract o (o + new.size) = new := by
  refine Array.ext_getElem? fun i => ?_
  rw [Array.getElem?_extract, size_splice h, Nat.min_eq_left h, Nat.add_sub_cancel_left]
  split
  · rw [getElem?_splice h, if_pos (by lia), Nat.add_sub_cancel_left]
  · rw [Array.getElem?_eq_none (by lia)]

/-- Putting back what a splice replaced undoes it. -/
theorem splice_undo (h : o + new.size ≤ bytes.size) :
    (bytes.splice o new).splice o (bytes.extract o (o + new.size)) = bytes := by
  have hsize : (bytes.extract o (o + new.size)).size = new.size := by rw [Array.size_extract]; lia
  rw [splice_splice hsize.symm (by lia), splice_extract h]

/-- Splices that are apart commute. -/
theorem splice_comm (ha : o + a.size ≤ bytes.size) (hb : o' + b.size ≤ bytes.size)
    (h : o + a.size ≤ o' ∨ o' + b.size ≤ o) :
    (bytes.splice o a).splice o' b = (bytes.splice o' b).splice o a := by
  refine Array.ext_getElem? fun i => ?_
  rw [getElem?_splice (by rwa [size_splice ha]), getElem?_splice ha, getElem?_splice (by rwa [size_splice hb]),
    getElem?_splice hb]
  by_cases h1 : o ≤ i ∧ i < o + a.size
  · rw [if_pos h1, if_pos h1, if_neg (by lia)]
  · rw [if_neg h1, if_neg h1]

end Bytes

end LivePatch
