import LivePatch.Effect.Outcome
import LivePatch.Kernel.Code
import LivePatch.Simulation.Mapping

/-!
# Address spaces

An address space is the list of its mappings in the order of their bases. This module holds what each kernel call does to it,
as functions: a call looks at the space and either gives a new one, or fails with a code, or crashes; it never does a part of
its work, because the new space is built only once all its checks have passed.

A range is looked up through the mapping with the greatest base that is not above its start, and has to lie inside that one.
-/

namespace LivePatch

/-- An address space: its mappings, lowest base first. -/
abbrev Space := List Mapping

namespace Space

open Outcome

/-- Where the first allocation of an empty space goes, and where the image of a process starts. -/
def imageBase : Address := 0x100000000

/-- The distance from the highest mapping to an allocation that may go anywhere. -/
def allocationGap : Nat := 0x10 * pageBytes

/-! ## Finding mappings -/

/-- The mapping with the greatest base that is not above the address. -/
def atOrBelow? (space : Space) (address : Address) : Option Mapping :=
  (space.filter fun mapping => mapping.base ≤ address).getLast?

/-- The mapping with the least base that is not below the address. -/
def atOrAbove? (space : Space) (address : Address) : Option Mapping :=
  space.find? fun mapping => address ≤ mapping.base

/-- The mapping with this base. -/
def at? (space : Space) (base : Address) : Option Mapping :=
  space.find? fun mapping => mapping.base = base

/-- The mapping that holds the whole range. -/
def holding (space : Space) (address : Address) (len : Nat) : Outcome KernelCode Mapping :=
  match space.atOrBelow? address with
  | none => .failed .invalidAddress
  | some mapping => do
    let stop ← require (Word.add address len)
    let limit ← require mapping.limit
    if limit < stop then .failed .invalidAddress else pure mapping

/-- The mapping that holds the whole range, provided that every page that the range touches grants the access. A range
without bytes touches the page of its address. -/
def granting (space : Space) (address : Address) (len : Nat) (needed : Protection) : Outcome KernelCode Mapping := do
  let mapping ← space.holding address len
  let stop ← require (Word.add address (max len 1))
  let granted ← require (mapping.allows? (mapping.pageOf address) (mapping.pageOf (stop - 1)) needed)
  if granted then pure mapping else .failed .protectionFailure

/-- Whether the range meets a mapping. The mappings are asked in order, and none behind the first that is met. -/
def overlaps (space : Space) (address : Address) (size : Nat) : Outcome KernelCode Bool :=
  match space with
  | [] => pure false
  | mapping :: rest => do
    let stop ← require (Word.add address size)
    if mapping.base < stop then
      let limit ← require mapping.limit
      if address < limit then pure true else overlaps rest address size
    else
      overlaps rest address size

/-! ## Changing mappings -/

/-- The space with `mapping` in place of the mapping of the same base. -/
def update (space : Space) (mapping : Mapping) : Space :=
  space.map fun old => if old.base = mapping.base then mapping else old

/-- The space with `mapping` added in the order of bases, in place of one of the same base if there is any. -/
def insert (space : Space) (mapping : Mapping) : Space :=
  match space with
  | [] => [mapping]
  | old :: rest =>
    if mapping.base < old.base then mapping :: old :: rest
    else if mapping.base = old.base then mapping :: rest
    else old :: insert rest mapping

/-- The space without the mapping of this base. -/
def remove (space : Space) (base : Address) : Space :=
  space.filter fun mapping => mapping.base ≠ base

/-! ## Kernel calls -/

/-- The mapping that contains the address, if there is one. -/
def containing (space : Space) (address : Address) : Outcome KernelCode (Option Mapping) :=
  match space.atOrBelow? address with
  | none => pure none
  | some mapping => do
    let limit ← require mapping.limit
    pure (if address < limit then some mapping else none)

/-- The region that contains the address, or else the closest one above it, with the protection of the page that holds the
address or of its first page. -/
def region (space : Space) (address : Address) : Outcome KernelCode Region := do
  let containing ← space.containing address
  match containing.or (space.atOrAbove? address) with
  | none => .failed .invalidAddress
  | some mapping => do
    let protection ← require mapping.pages[mapping.pageOf (max address mapping.base)]?
    pure { base := mapping.base, size := mapping.size, protection := protection }

/-- A size in whole pages. -/
def roundUp (size : Nat) : Option Nat := (Word.add size pageBytes).map fun top => pageFloor (top - 1)

/-- Where an allocation goes: to its fixed address, or some pages above the highest mapping. -/
def place (space : Space) (placement : Placement) : Outcome KernelCode Address :=
  match placement with
  | .fixed address => pure address
  | .anywhere => do
    let limits ← require (space.mapM Mapping.limit)
    match limits.max? with
    | none => pure imageBase
    | some top => require (Word.add top allocationGap)

/-- Maps `size` zero bytes, a number of whole pages, unless they would meet a mapping. Gives the base as well. -/
def allocate (space : Space) (placement : Placement) (size : Nat) : Outcome KernelCode (Address × Space) := do
  let base ← space.place placement
  if ← space.overlaps base size then
    .failed .noSpace
  else if size ≤ Bytes.maxSize then
    pure (base, space.insert (.fresh base size))
  else
    .crashed

/-- Unmaps a whole mapping: base and size have to fit it exactly. -/
def deallocate (space : Space) (address : Address) (size : Nat) : Outcome KernelCode Space :=
  match space.at? address with
  | none => .failed .invalidArgument
  | some mapping => if mapping.size = size then pure (space.remove address) else .failed .invalidArgument

/-- Protects every page that the range meets. -/
def protect (space : Space) (address : Address) (size : Nat) (protection : Protection) : Outcome KernelCode Space := do
  let start := pageFloor address
  let stop ← require ((Word.add address size).bind roundUp)
  let mapping ← space.holding start (stop - start)
  if mapping.pageOf stop ≤ mapping.pages.size then
    pure (space.update (mapping.withProtection (mapping.pageOf start) (mapping.pageOf stop) protection))
  else
    .crashed

/-- The bytes of a range, every page of which has to be readable. -/
def load (space : Space) (address : Address) (len : Nat) : Outcome KernelCode Bytes := do
  let mapping ← space.granting address len .readOnly
  pure (mapping.bytesAt address len)

/-- Puts bytes into a range, every page of which has to be writable. -/
def store (space : Space) (address : Address) (bytes : Bytes) : Outcome KernelCode Space := do
  let mapping ← space.granting address bytes.size .writeOnly
  pure (space.update (mapping.withBytes address bytes))

/-- Copies a range to another; the source is checked first. -/
def copy (space : Space) (source : Address) (size : Nat) (destination : Address) : Outcome KernelCode Space := do
  let bytes ← space.load source size
  space.store destination bytes

/-! ## Looking without a kernel call -/

/-- The bytes of a range, whatever its protection; missing if no mapping holds it. -/
def peek (space : Space) (address : Address) (len : Nat) : Option Bytes :=
  match space.holding address len with
  | .done mapping => some (mapping.bytesAt address len)
  | _ => none

/-- The protection of the page that holds the address; missing if nothing is mapped there. -/
def protectionAt (space : Space) (address : Address) : Option Protection :=
  match space.holding address 1 with
  | .done mapping => mapping.pages[mapping.pageOf address]?
  | _ => none

/-- Whether anything is mapped at the address; missing if the question leaves the address space. -/
def isMapped (space : Space) (address : Address) : Option Bool :=
  match space.holding address 1 with
  | .done _ => some true
  | .failed _ => some false
  | .crashed => none

end Space

end LivePatch
