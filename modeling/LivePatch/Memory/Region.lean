import LivePatch.Memory.Protection
import LivePatch.Memory.Word

/-!
# Regions and placements

A region is what a kernel reports about a stretch of mapped memory: where it starts, how long it is and how it is protected.
Its limit, the first address behind it, is a checked sum; the tests for membership need it and are missing when it is.
-/

namespace LivePatch

/-- A mapped stretch of the address space. -/
structure Region where
  /-- Its first address. -/
  base : Address
  /-- Its length in bytes. -/
  size : Nat
  /-- Its protection when it was looked up. -/
  protection : Protection
  deriving DecidableEq, Repr

namespace Region

/-- The first address behind the region. -/
def limit (region : Region) : Option Address := Word.add region.base region.size

/-- Whether the address lies in the region. -/
def contains (region : Region) (address : Address) : Option Bool :=
  region.limit.map fun limit => decide (region.base ≤ address ∧ address < limit)

/-- Whether the range lies entirely in the region. A range that leaves the address space lies in no region, whatever the
limit of the region is. -/
def containsRange (region : Region) (address : Address) (len : Nat) : Option Bool :=
  match Word.add address len with
  | none => some false
  | some stop => region.limit.map fun limit => decide (region.base ≤ address ∧ address < limit ∧ stop ≤ limit)

end Region

/-- Where an allocation is placed. -/
inductive Placement where
  /-- Wherever the kernel likes. -/
  | anywhere
  /-- At this address and nowhere else. -/
  | fixed (address : Address)
  deriving DecidableEq, Repr

end LivePatch
