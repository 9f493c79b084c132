/-!
# Return codes of the kernel

A kernel call answers with a number; zero is success. Those that the engine is likely to meet have names.
-/

namespace LivePatch

/-- The return code of a kernel call. -/
structure KernelCode where
  value : Int
  deriving DecidableEq, Repr

namespace KernelCode

def success : KernelCode := ⟨0⟩

/-- Nothing is mapped where something has to be. -/
def invalidAddress : KernelCode := ⟨1⟩

/-- A page does not grant the access. -/
def protectionFailure : KernelCode := ⟨2⟩

/-- The address range is taken. -/
def noSpace : KernelCode := ⟨3⟩

/-- The arguments fit no mapping. -/
def invalidArgument : KernelCode := ⟨4⟩

/-- The kernel refuses. -/
def failure : KernelCode := ⟨5⟩

/-- The symbolic name of a code. -/
def name? (code : KernelCode) : Option String :=
  match code.value with
  | 0 => some "KERN_SUCCESS"
  | 1 => some "KERN_INVALID_ADDRESS"
  | 2 => some "KERN_PROTECTION_FAILURE"
  | 3 => some "KERN_NO_SPACE"
  | 4 => some "KERN_INVALID_ARGUMENT"
  | 5 => some "KERN_FAILURE"
  | 8 => some "KERN_NO_ACCESS"
  | 14 => some "KERN_ABORTED"
  | 15 => some "KERN_INVALID_NAME"
  | 16 => some "KERN_INVALID_TASK"
  | _ => none

/-- The number, and the name in parentheses if there is one. -/
def describe (code : KernelCode) : String :=
  match code.name? with
  | some name => toString code.value ++ " (" ++ name ++ ")"
  | none => toString code.value

example : noSpace.describe = "3 (KERN_NO_SPACE)" := by decide +kernel

example : (⟨-308⟩ : KernelCode).describe = "-308" := by decide +kernel

end KernelCode

end LivePatch
