import LivePatch.Engine.Layout

/-!
# Shadow images

A shadow image is a copy of the three regions of an image, laid out as they are, so that every reference from the copied
code to its surroundings holds in the copy as well. What must not run from the code while it is changed runs from there. It
is filled while it can be written and made executable only when it is complete; a shadow image that cannot be completed is
unmapped again.
-/

namespace LivePatch

/-- A complete shadow image. -/
structure Shadow where
  /-- Its first address. -/
  base : Address
  /-- The length of the three regions together. -/
  size : Nat
  /-- The code region that it copies. -/
  code : Region
  deriving DecidableEq, Repr

namespace Shadow

/-- Where the copy of a code address lies. The outer option is missing if a sum is no address, the inner one if the address
is not in the code. -/
def toCopy (shadow : Shadow) (address : Address) : Option (Option Address) := do
  if ← shadow.code.contains address then
    some <$> Word.add (address - shadow.code.base) shadow.base
  else
    pure none

/-- The code address that an address of the shadow image copies. -/
def toCode (shadow : Shadow) (address : Address) : Option (Option Address) :=
  if shadow.base ≤ address ∧ address - shadow.base < shadow.code.size then
    some <$> Word.add shadow.code.base (address - shadow.base)
  else
    some none

end Shadow

/-- The step that copies a part into the shadow image. -/
def Part.copyStep : Part → Step
  | code => .copyCode
  | constants => .copyConstants
  | data => .copyData

open Program (request require note)

/-- Copies regions to their offsets from `base`. -/
def copyParts (base : Address) : List PlacedRegion → Engine Unit
  | [] => pure ()
  | placed :: rest => do
    let destination ← require (Word.add base placed.offset)
    (request (.copy placed.region.base placed.region.size destination)).during placed.part.copyStep
    copyParts base rest

/-- Fills the shadow image at `base` and makes it executable. -/
def fillShadow (layout : Layout) (base : Address) (size : Nat) : Engine Unit := do
  (request (.protect base size .readWrite)).during .unlockShadow
  let parts ← require layout.parts
  copyParts base parts
  (request (.protect base size .readExecute)).during .sealShadow

/-- Unmaps an incomplete shadow image, or notes that it stays. -/
def discardShadow (base : Address) (size : Nat) : Engine Unit := do
  match ← request (.deallocate base size) with
  | .ok () => pure ()
  | .error code => note (.shadowLeaked base code)

/-- Builds the shadow image of a layout. -/
def buildShadow (layout : Layout) : Engine Shadow := do
  let size ← require layout.size
  let base ← (request (.allocate .anywhere size)).during .allocateShadow
  match ← (fillShadow layout base size).attempt with
  | .error error => do
    discardShadow base size
    .failed error
  | .ok () => do
    let limit ← require (Word.add base size)
    note (.shadowBuilt base limit)
    pure { base, size, code := layout.code }

end LivePatch
