import LivePatch.Diagnosis.Error
import LivePatch.Kernel.Request

/-!
# Events

What the engine writes down about its work. An event is kept as what happened; its level and its message are functions of
it, so that statements about the records need not look into texts.
-/

namespace LivePatch

/-- How much an event matters. -/
inductive Level where
  | error
  | warn
  | info
  | debug
  | trace
  deriving DecidableEq, Repr

/-- The operations whose failure is reported. -/
inductive Operation where
  | initialization
  | patch
  deriving DecidableEq, Repr

/-- The name of an operation in messages. -/
def Operation.describe : Operation → String
  | initialization => "initialization"
  | patch => "patch"

/-- The events that the engine records. -/
inductive Event where
  /-- The code starts elsewhere than expected. -/
  | codeSlid (found expected : Address)
  /-- A part of the image was found. -/
  | partLocated (part : Part) (base limit : Address) (protection : Protection)
  /-- The shadow image is complete. -/
  | shadowBuilt (base limit : Address)
  /-- An incomplete shadow image could not be unmapped. -/
  | shadowLeaked (base : Address) (code : KernelCode)
  /-- A thread refused to be suspended or resumed. -/
  | requestRefused (step : Step) (thread : Thread) (code : KernelCode)
  /-- More threads refused than were noted one by one. -/
  | moreRefused (step : Step) (count : Nat)
  /-- How many requests of a sweep succeeded. -/
  | sweepEnded (step : Step) (succeeded requested : Nat)
  /-- The code region is a private mapping now. -/
  | codeRecreated (base limit shadow : Address)
  /-- A patch was made. -/
  | patched (len : Nat) (target : Address)
  /-- An operation failed. -/
  | operationFailed (operation : Operation) (error : Error)
  /-- The code of the process is lost. -/
  | codeLost
  /-- The bytes under a patch could not be put back. -/
  | restorationFailed (target : Address) (error : Error)
  deriving DecidableEq, Repr

namespace Event

open Word (hex)

/-- The level of an event. -/
def level : Event → Level
  | operationFailed .. | codeLost => .error
  | shadowLeaked .. | requestRefused .. | moreRefused .. | restorationFailed .. => .warn
  | codeRecreated .. => .info
  | codeSlid .. | partLocated .. | shadowBuilt .. => .debug
  | sweepEnded .. | patched .. => .trace

/-- The message of an event. -/
def describe : Event → String
  | codeSlid found expected => "code region found at " ++ hex found ++ ", slid from " ++ hex expected
  | partLocated part base limit protection =>
    part.describe ++ " region at " ++ hex base ++ ".." ++ hex limit ++ " (" ++ protection.describe ++ ")"
  | shadowBuilt base limit => "shadow image at " ++ hex base ++ ".." ++ hex limit
  | shadowLeaked base code =>
    "could not release partial shadow image at " ++ hex base ++ ": " ++ code.describe
  | requestRefused step thread code =>
    step.describe ++ ": request for thread " ++ toString thread ++ " failed with " ++ code.describe
  | moreRefused step count => step.describe ++ ": " ++ toString count ++ " more thread requests failed"
  | sweepEnded step succeeded requested =>
    step.describe ++ ": " ++ toString succeeded ++ " of " ++ toString requested ++ " thread requests succeeded"
  | codeRecreated base limit shadow =>
    "code region " ++ hex base ++ ".." ++ hex limit ++ " recreated, shadow image at " ++ hex shadow
  | patched len target => "patched " ++ toString len ++ " bytes at " ++ hex target
  | operationFailed operation error =>
    operation.describe ++ " failed (error " ++ toString error.number ++ "): " ++ error.describe
  | codeLost => "the code region of this process can no longer be trusted"
  | restorationFailed target error => "could not restore code at " ++ hex target ++ ": " ++ error.describe

end Event

end LivePatch
