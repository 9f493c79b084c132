/-!
# Byte strings

The contents of memory, the bytes of a patch and the bytes that a guard keeps. `splice` is what a write does to the contents
of a mapping: the new bytes take the place of as many old ones, and all others stay where they are.
-/

namespace LivePatch

/-- A byte string. -/
abbrev Bytes := Array UInt8

namespace Bytes

/-- The length of the longest byte string, one less than half of the address space. -/
def maxSize : Nat := 0x7fffffffffffffff

/-- The bytes with `new` in place of those from `offset` on. -/
def splice (bytes : Bytes) (offset : Nat) (new : Bytes) : Bytes :=
  bytes.extract 0 offset ++ new ++ bytes.extract (offset + new.size) bytes.size

/-- A splice that stays inside keeps the length. -/
theorem size_splice {bytes : Bytes} {offset : Nat} {new : Bytes} (h : offset + new.size ≤ bytes.size) :
    (bytes.splice offset new).size = bytes.size := by
  simp only [splice, Array.size_append, Array.size_extract]
  omega

/-- After a splice that stays inside, a byte is the new one in the spliced range and the old one elsewhere. -/
theorem getElem?_splice {bytes : Bytes} {offset : Nat} {new : Bytes} (h : offset + new.size ≤ bytes.size) (i : Nat) :
    (bytes.splice offset new)[i]? =
      if offset ≤ i ∧ i < offset + new.size then new[i - offset]? else bytes[i]? := by
  have hl : (bytes.extract 0 offset).size = offset := by simp only [Array.size_extract]; omega
  have hm : (bytes.extract 0 offset ++ new).size = offset + new.size := by rw [Array.size_append, hl]
  unfold splice
  by_cases h1 : i < offset
  · rw [Array.getElem?_append_left (by omega), Array.getElem?_append_left (by omega), if_neg (by omega),
      Array.getElem?_extract, if_pos (by omega), Nat.zero_add]
  · by_cases h2 : i < offset + new.size
    · rw [Array.getElem?_append_left (by omega), Array.getElem?_append_right (by omega), if_pos (by omega), hl]
    · rw [Array.getElem?_append_right (by omega), if_neg (by omega), hm, Array.getElem?_extract, Nat.min_self,
        show offset + new.size + (i - (offset + new.size)) = i by omega]
      split
      · rfl
      · exact (Array.getElem?_eq_none (by omega)).symm

/-- The 32-bit checksum of a page: start from the offset basis, and for each byte first exclusive-or, then multiply by the
prime, modulo 2^32. -/
def checksum (bytes : Bytes) : UInt32 :=
  bytes.foldl (fun sum byte => (sum ^^^ byte.toUInt32) * 0x01000193) 0x811c9dc5

end Bytes

end LivePatch
