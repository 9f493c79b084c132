import LivePatch.Memory.Bytes
import LivePatch.Memory.Region

/-!
# Mappings

A mapping is a stretch of the address space with its contents and the protection of each of its pages. Pages are counted
from the base of the mapping.
-/

namespace LivePatch

/-- The size of a page of mapped memory. -/
def pageBytes : Nat := 0x1000

/-- The start of the page that holds the address. -/
def pageFloor (address : Address) : Address := address - address % pageBytes

/-- A mapped stretch of memory. -/
structure Mapping where
  /-- Its first address. -/
  base : Address
  /-- Its contents. -/
  bytes : Bytes
  /-- The protection of each page. -/
  pages : Array Protection
  deriving DecidableEq, Repr

namespace Mapping

/-- A mapping of `size` bytes, byte `o` of which is `fill o`, with one protection on all pages. -/
def filled (base : Address) (size : Nat) (protection : Protection) (fill : Nat → UInt8) : Mapping where
  base := base
  bytes := Array.ofFn fun i : Fin size => fill i
  pages := Array.replicate (size / pageBytes) protection

/-- A new mapping: zeros that can be read and written. -/
def fresh (base : Address) (size : Nat) : Mapping where
  base := base
  bytes := Array.replicate size 0
  pages := Array.replicate (size / pageBytes) .readWrite

/-- The length in bytes. -/
def size (mapping : Mapping) : Nat := mapping.bytes.size

/-- The first address behind the mapping. -/
def limit (mapping : Mapping) : Option Address := Word.add mapping.base mapping.size

/-- The number of the page that holds the address. -/
def pageOf (mapping : Mapping) (address : Address) : Nat := (address - mapping.base) / pageBytes

/-- Whether the pages from `first` to `last` all grant the access; missing if the mapping has no page `last`. -/
def allows? (mapping : Mapping) (first last : Nat) (needed : Protection) : Option Bool :=
  if last < mapping.pages.size then
    some ((mapping.pages.extract first (last + 1)).all (·.allows needed))
  else
    none

/-- The `len` bytes from `address` on. -/
def bytesAt (mapping : Mapping) (address : Address) (len : Nat) : Bytes :=
  mapping.bytes.extract (address - mapping.base) (address - mapping.base + len)

/-- The mapping with the bytes from `address` on replaced. -/
def withBytes (mapping : Mapping) (address : Address) (bytes : Bytes) : Mapping :=
  { mapping with bytes := mapping.bytes.splice (address - mapping.base) bytes }

/-- The mapping with the pages from `first` up to, but without, `stop` protected anew. -/
def withProtection (mapping : Mapping) (first stop : Nat) (protection : Protection) : Mapping :=
  { mapping with
    pages := mapping.pages.mapIdx fun i old => if first ≤ i ∧ i < stop then protection else old }

end Mapping

end LivePatch
