import LivePatch.Engine.Program

/-!
# The layout of an image

The code of a process and its two data regions lie back to back: read-only data starts where the code ends, and writable
data where the read-only data ends. `locate` finds them and makes nothing but queries. The code is taken wherever the kernel
reports it, so an image that was moved is found from the place where it was expected.
-/

namespace LivePatch

open Program (request require note)

/-- The three adjacent regions of an image. -/
structure Layout where
  code : Region
  constants : Region
  data : Region
  deriving DecidableEq, Repr

/-- A region of an image with its distance from the start of the code. -/
structure PlacedRegion where
  part : Part
  region : Region
  offset : Nat
  deriving DecidableEq, Repr

namespace Layout

/-- The length of the three regions together. -/
def size (layout : Layout) : Option Nat :=
  (Word.add layout.code.size layout.constants.size).bind (Word.add · layout.data.size)

/-- The regions in the order of addresses. -/
def parts (layout : Layout) : Option (List PlacedRegion) :=
  (Word.add layout.code.size layout.constants.size).map fun dataOffset =>
    [⟨.code, layout.code, 0⟩, ⟨.constants, layout.constants, layout.code.size⟩, ⟨.data, layout.data, dataOffset⟩]

end Layout

/-- The region that starts exactly where it is expected. -/
def queryAt (expected : Address) (part : Part) (step : Step) : Engine Region := do
  let region ← (request (.region expected)).during step
  if region.base = expected then pure region else .failed (.layoutViolated part expected region.base)

/-- Notes where the regions of an image are. -/
def noteParts : List PlacedRegion → Engine Unit
  | [] => pure ()
  | placed :: rest => do
    let limit ← require placed.region.limit
    note (.partLocated placed.part placed.region.base limit placed.region.protection)
    noteParts rest

/-- Finds the two data regions behind the code. -/
def locateBehind (code : Region) : Engine Layout := do
  let constantsBase ← require code.limit
  let constants ← queryAt constantsBase .constants .queryConstants
  let dataBase ← require constants.limit
  let data ← queryAt dataBase .data .queryData
  let layout : Layout := { code, constants, data }
  let parts ← require layout.parts
  noteParts parts
  pure layout

/-- Finds the code at or above `base`, and the two data regions behind it. -/
def locate (base : Address) : Engine Layout := do
  let code ← (request (.region base)).during .queryCode
  if code.base ≠ base then note (.codeSlid code.base base)
  locateBehind code

end LivePatch
