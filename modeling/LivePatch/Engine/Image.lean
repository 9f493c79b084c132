import LivePatch.Engine.Config
import LivePatch.Engine.Routine

/-!
# Patchable images

Preparing a process finds its image, builds the shadow image and replaces the code region by a private mapping that can be
protected at will. After that, `Image.patch` overwrites code in place. Both note their failures in the journal.
-/

namespace LivePatch

/-- A prepared image. -/
structure Image where
  /-- The settings it was prepared with. -/
  config : Config
  /-- The code region as it was found. -/
  code : Region
  /-- The shadow image that the routines run from. -/
  shadow : Shadow
  /-- The page size, asked for once. -/
  pageSize : Nat
  deriving DecidableEq, Repr

namespace Image

open Program (request require note ofOutcome)

/-- Finds the image, copies it, and recreates its code region. Nothing is changed before the layout is known and the
routines were found in the code. -/
def establish (host : Host) (imageBase : Address) (pageSize : Nat) (config : Config) : Engine Image := do
  let layout ← locate (config.imageBase.getD imageBase)
  ofOutcome (Routine.recreate.checkInside host layout.code)
  ofOutcome (Routine.overwrite.checkInside host layout.code)
  let shadow ← buildShadow layout
  recreateCode host shadow config.strictThreads
  request (.flush layout.code.base layout.code.size)
  let limit ← require layout.code.limit
  note (.codeRecreated layout.code.base limit shadow.base)
  pure { config, code := layout.code, shadow, pageSize }

/-- Prepares the process for patching, with the image base and the page size that the kernel reports. The image of the
engine itself can be prepared only if no attempt was made before; then nothing is done and nothing noted. -/
def prepare (host : Host) (attempted : Bool) (imageBase : Address) (pageSize : Nat) (config : Config) : Engine Image :=
  match host, attempted with
  | .own .., true => .failed .alreadyInitialized
  | _, _ => reporting .initialization (establish host imageBase pageSize config)

/-- Reads the range back and compares it. -/
def verify (target : Address) (bytes : Bytes) : Engine Unit := do
  let actual ← (request (.read target bytes.size)).during .verifyTarget
  if actual = bytes then pure () else .failed (.verificationFailed target)

/-- Overwrites a range of the code. -/
def overwrite (image : Image) (host : Host) (target : Address) (bytes : Bytes) : Engine Unit := do
  overwriteCode host image.shadow target bytes image.pageSize image.config.strictThreads
  request (.flush target bytes.size)
  if image.config.verifyWrites then verify target bytes
  note (.patched bytes.size target)

/-- The error of a range that is not in the code. -/
def rangeError (image : Image) (target : Address) (len : Nat) : Option Error :=
  image.code.limit.map fun limit => .outOfRange target len image.code.base limit

/-- Overwrites the code at `target`. Without bytes nothing is done. -/
def patch (image : Image) (host : Host) (target : Address) (bytes : Bytes) : Engine Unit := do
  if bytes.isEmpty then
    pure ()
  else if ← require (image.code.containsRange target bytes.size) then
    reporting .patch (image.overwrite host target bytes)
  else do
    let error ← require (image.rangeError target bytes.size)
    reporting .patch (.failed error)

end Image

end LivePatch
