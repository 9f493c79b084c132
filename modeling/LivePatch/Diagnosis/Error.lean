import LivePatch.Diagnosis.Step
import LivePatch.Kernel.Code
import LivePatch.Memory.Word

/-!
# Errors

Why preparing the process or patching its code failed. An error is a cause with what there is to know about it; its message,
its small number and whether the code can still be trusted are functions of the cause.
-/

namespace LivePatch

/-- The parts of an image, in the order of their addresses. -/
inductive Part where
  /-- Executable code. -/
  | code
  /-- Read-only data behind the code. -/
  | constants
  /-- Writable data behind the read-only data. -/
  | data
  deriving DecidableEq, Repr

/-- The name of a part in messages. -/
def Part.describe : Part → String
  | code => "code"
  | constants => "read-only data"
  | data => "data"

/-- The causes of a failure. -/
inductive Error where
  /-- A part of the image does not start where the one before it ends. -/
  | layoutViolated (part : Part) (expected found : Address)
  /-- A kernel call failed. -/
  | kernelFailed (facility : Facility) (step : Step) (code : KernelCode)
  /-- Some threads could not be suspended although all have to be. -/
  | partialSuspension (failed requested : Nat)
  /-- The new code region is not where the old one was. -/
  | relocated (requested actual : Address)
  /-- The patch does not lie in the code region. -/
  | outOfRange (target : Address) (len : Nat) (start limit : Address)
  /-- A routine that has to run from the shadow image is not part of the code. -/
  | routineOutsideImage (address : Address)
  /-- The process was prepared before, or an attempt was made. -/
  | alreadyInitialized
  /-- The patch does not read back as it was written. -/
  | verificationFailed (target : Address)
  deriving DecidableEq, Repr

namespace Error

open Word (hex)

/-- A failed kernel call is an error of the facility of its step. -/
def ofKernel (step : Step) (code : KernelCode) : Error := .kernelFailed step.facility step code

/-- The message of an error. -/
def describe : Error → String
  | layoutViolated part expected found =>
    part.describe ++ " region expected at " ++ hex expected ++ " but the kernel reported " ++ hex found
  | kernelFailed facility step code =>
    step.describe ++ ": " ++ facility.describe ++ " failed with " ++ code.describe
  | partialSuspension failed requested =>
    toString failed ++ " of " ++ toString requested ++ " threads could not be suspended"
  | relocated requested actual =>
    "code region reallocated at " ++ hex actual ++ " instead of " ++ hex requested
  | outOfRange target len start limit =>
    "patch of " ++ toString len ++ " bytes at " ++ hex target ++ " is outside the code region " ++ hex start ++ ".." ++
      hex limit
  | routineOutsideImage address =>
    "routine at " ++ hex address ++ " is outside the code region, cannot relocate it"
  | alreadyInitialized => "the process image was already initialized"
  | verificationFailed target => "patch at " ++ hex target ++ " did not read back as written"

/-- The number of an error; zero is kept for success. -/
def number : Error → Nat
  | layoutViolated .. => 1
  | kernelFailed .query .. => 2
  | kernelFailed .allocation .. => 3
  | kernelFailed .protection .. => 4
  | kernelFailed .copy .. => 5
  | kernelFailed .threads .. => 6
  | partialSuspension .. => 6
  | relocated .. => 7
  | outOfRange .. => 8
  | routineOutsideImage .. => 9
  | alreadyInitialized => 10
  | verificationFailed .. => 11

/-- The step and the code behind an error, if a kernel call is behind it. -/
def kernelFailure? : Error → Option (Step × KernelCode)
  | kernelFailed _ step code => some (step, code)
  | _ => none

/-- Whether the process can no longer rely on its code. -/
def isFatal : Error → Bool
  | layoutViolated .. | relocated .. => true
  | kernelFailed _ step _ => step.isFatal
  | _ => false

example : (ofKernel .sealCode .failure).describe =
    "make code region executable: protection change failed with 5 (KERN_FAILURE)" := by decide +kernel

example : (outOfRange 0x100003ffc 8 0x100000000 0x100004000).describe =
    "patch of 8 bytes at 0x100003ffc is outside the code region 0x100000000..0x100004000" := by decide +kernel

end Error

end LivePatch
