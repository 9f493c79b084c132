import LivePatch.Memory.Word

/-!
# Page spans

A protection change applies to whole pages. The span of a range starts at the page that holds its first byte and ends with
its last byte; the kernel rounds the end up to a page by itself.
-/

namespace LivePatch

/-- A range that starts on a page boundary. -/
structure PageSpan where
  start : Address
  size : Nat
  deriving DecidableEq, Repr

/-- The span of a range: from the start of its first page to its own end. It is missing if the page size is no power of
two, or if the end of the range is no address. -/
def PageSpan.covering (address : Address) (len pageSize : Nat) : Option PageSpan :=
  if pageSize.isPowerOfTwo then
    (Word.add address len).map fun stop =>
      let start := address - address % pageSize
      { start := start, size := stop - start }
  else
    none

/-- A range across a page boundary keeps its end. -/
example : PageSpan.covering 0xffc 0x10 0x1000 = some ⟨0, 0x100c⟩ := by decide +kernel

/-- The end of a range has to be an address. -/
example : PageSpan.covering (Word.count - 8) 8 0x1000 = none := by decide +kernel

/-- Three bytes are no page. -/
example : PageSpan.covering 0 1 3 = none := by decide +kernel

end LivePatch
