/-!
# Steps

Every kernel call that the engine makes is a step with a name, so that a diagnosis says exactly where things went wrong. A
step belongs to a facility of the kernel, which decides the kind of the error, and it is fatal if its failure leaves the
process without intact code: those are the steps between unmapping the code and making its replacement executable.
-/

namespace LivePatch

/-- The steps of the engine that can fail. -/
inductive Step where
  /-- Obtaining the privileged handle of the own task. -/
  | obtainTask
  | queryCode
  | queryConstants
  | queryData
  | allocateShadow
  /-- Making the shadow image writable. -/
  | unlockShadow
  | copyCode
  | copyConstants
  | copyData
  /-- Making the shadow image executable. -/
  | sealShadow
  | suspendThreads
  /-- Unmapping the code of the process. -/
  | unmapCode
  /-- Mapping memory in the place of the code. -/
  | remapCode
  /-- Making the new code region writable. -/
  | unlockCode
  /-- Copying the code back from the shadow image. -/
  | restoreCode
  /-- Making the new code region executable. -/
  | sealCode
  | resumeThreads
  /-- Reading the bytes that a patch replaces. -/
  | saveTarget
  /-- Making the pages of a patch writable. -/
  | unlockTarget
  | writeTarget
  /-- Making the pages of a patch executable again. -/
  | sealTarget
  /-- Reading the bytes of a patch back. -/
  | verifyTarget
  deriving DecidableEq, Repr

/-- The families of kernel calls. -/
inductive Facility where
  /-- Looking at regions, tasks and memory. -/
  | query
  /-- Mapping and unmapping. -/
  | allocation
  /-- Protecting pages. -/
  | protection
  /-- Moving bytes. -/
  | copy
  /-- Listing threads. -/
  | threads
  deriving DecidableEq, Repr

namespace Step

/-- The name of a step in messages. -/
def describe : Step → String
  | obtainTask => "task_for_pid"
  | queryCode => "query code region"
  | queryConstants => "query read-only data region"
  | queryData => "query data region"
  | allocateShadow => "allocate shadow image"
  | unlockShadow => "make shadow image writable"
  | copyCode => "copy code region to shadow"
  | copyConstants => "copy read-only data region to shadow"
  | copyData => "copy data region to shadow"
  | sealShadow => "make shadow image executable"
  | suspendThreads => "suspend threads"
  | unmapCode => "deallocate code region"
  | remapCode => "reallocate code region"
  | unlockCode => "make code region writable"
  | restoreCode => "restore code region from shadow"
  | sealCode => "make code region executable"
  | resumeThreads => "resume threads"
  | saveTarget => "save original bytes"
  | unlockTarget => "make patch target writable"
  | writeTarget => "write patch bytes"
  | sealTarget => "make patch target executable"
  | verifyTarget => "read patch target back"

/-- Whether a failure of the step leaves the process without intact code. -/
def isFatal : Step → Bool
  | remapCode | unlockCode | restoreCode | sealCode => true
  | _ => false

/-- The facility that the step uses. -/
def facility : Step → Facility
  | obtainTask | queryCode | queryConstants | queryData | saveTarget | verifyTarget => .query
  | allocateShadow | unmapCode | remapCode => .allocation
  | unlockShadow | sealShadow | unlockCode | sealCode | unlockTarget | sealTarget => .protection
  | copyCode | copyConstants | copyData | restoreCode | writeTarget => .copy
  | suspendThreads | resumeThreads => .threads

end Step

/-- What a failed call of a facility is called in messages. -/
def Facility.describe : Facility → String
  | query => "kernel query"
  | allocation => "allocation"
  | protection => "protection change"
  | copy => "copy"
  | threads => "thread control"

end LivePatch
