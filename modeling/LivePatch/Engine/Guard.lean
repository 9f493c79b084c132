import LivePatch.Engine.Image

/-!
# Guards

A guard stands for a patch that can be taken back. It keeps the bytes that the patch replaced and puts them back when it is
released; a release never fails, but a restoration that did is noted.
-/

namespace LivePatch

/-- A patch with the bytes that it replaced. -/
structure Guard where
  /-- The image that was patched. -/
  image : Image
  /-- Where the patch is. -/
  target : Address
  /-- The bytes that were there before. -/
  saved : Bytes
  deriving DecidableEq, Repr

open Program (request require note)

/-- The bytes that a patch is about to replace. -/
def Image.save (image : Image) (target : Address) (len : Nat) : Engine Bytes := do
  if len = 0 then
    pure #[]
  else if ← require (image.code.containsRange target len) then
    (request (.read target len)).during .saveTarget
  else do
    let error ← require (image.rangeError target len)
    .failed error

/-- Overwrites the code at `target` and keeps what was there. -/
def Image.guardedPatch (image : Image) (host : Host) (target : Address) (bytes : Bytes) : Engine Guard := do
  let saved ← image.save target bytes.size
  image.patch host target bytes
  pure { image, target, saved }

/-- Puts the bytes back. -/
def Guard.release (guard : Guard) (host : Host) : Engine Unit := do
  match ← (guard.image.patch host guard.target guard.saved).attempt with
  | .ok () => pure ()
  | .error error => note (.restorationFailed guard.target error)

end LivePatch
