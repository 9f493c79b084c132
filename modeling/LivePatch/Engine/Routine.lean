import LivePatch.Engine.Bracket
import LivePatch.Engine.Shadow
import LivePatch.Memory.PageSpan

/-!
# The mutating routines

Two routines change the code of a process: one replaces the code region by a private copy of itself, the other overwrites a
part of it. A kernel does not let a thread unmap or protect what it executes, so if the code is that of the engine itself the
routines run from their copies in the shadow image, and have to be part of the code for that. They write nothing to the
journal; what happened in them comes back as a value and is noted afterwards.
-/

namespace LivePatch

/-- The routines that change the code of the process. -/
inductive Routine where
  /-- Replaces the code region by a private copy. -/
  | recreate
  /-- Overwrites a part of the code region. -/
  | overwrite
  deriving DecidableEq, Repr

/-- Whose code the engine changes. -/
inductive Host where
  /-- That of another image: the routines can run where they are. -/
  | other
  /-- That of its own image, where the routines have these addresses. -/
  | own (recreate overwrite : Address)
  deriving DecidableEq, Repr

/-- The address of a routine in the image that it changes, if it is a part of that image. -/
def Host.addressOf? : Host → Routine → Option Address
  | other, _ => none
  | own recreate _, .recreate => some recreate
  | own _ overwrite, .overwrite => some overwrite

namespace Routine

/-- A routine that has an address has to lie in the code. -/
def checkInside (routine : Routine) (host : Host) (code : Region) : Outcome Error Unit :=
  match host.addressOf? routine with
  | none => .done ()
  | some address =>
    match code.contains address with
    | none => .crashed
    | some inside => if inside then .done () else .failed (.routineOutsideImage address)

/-- Where a routine runs: where it is (`none`) if the code is that of another image, and else at its copy in the shadow
image, of which it has to be a part. -/
def entry (routine : Routine) (host : Host) (shadow : Shadow) : Outcome Error (Option Address) :=
  match host.addressOf? routine with
  | none => .done none
  | some address =>
    match shadow.toCopy address with
    | none => .crashed
    | some none => .failed (.routineOutsideImage address)
    | some (some copy) => .done (some copy)

end Routine

open Program (request require noteAll ofExcept ofOutcome)

/-- Copies the code back from the start of the shadow image into the new memory in its place, and makes it executable. -/
def refillCode (code : Region) (shadowBase : Address) : Engine Unit := do
  (request (.protect code.base code.size .readWrite)).during .unlockCode
  (request (.copy shadowBase code.size code.base)).during .restoreCode
  (request (.protect code.base code.size .readExecute)).during .sealCode

/-- The change that replaces the code region: unmap it, map new memory in its place, and copy the code back. In between there
is no code. -/
def replaceCode (code : Region) (shadowBase : Address) : Engine Unit := do
  (request (.deallocate code.base code.size)).during .unmapCode
  let actual ← (request (.allocate (.fixed code.base) code.size)).during .remapCode
  if actual ≠ code.base then
    .failed (.relocated code.base actual)
  else
    refillCode code shadowBase

/-- The change that writes a patch: make its pages writable, write, and make them executable again, also if the write
failed. The error of the write comes first. -/
def writeCode (target : Address) (bytes : Bytes) (span : PageSpan) : Engine Unit := do
  (request (.protect span.start span.size .readWrite)).during .unlockTarget
  let written ← ((request (.write target bytes)).during .writeTarget).attempt
  let restored ← ((request (.protect span.start span.size .readExecute)).during .sealTarget).attempt
  ofExcept (written.bind fun _ => restored)

/-- Makes the change of a routine in a bracket, from where the routine has to run, notes what the bracket reported, and ends
as it ended. A routine that cannot be entered leaves the reports of a bracket that asked nobody. -/
def runRoutine (routine : Routine) (host : Host) (shadow : Shadow) (strict : Bool) (change : Engine Unit) :
    Engine Unit := do
  match ← (ofOutcome (routine.entry host shadow)).attempt with
  | .error error => do
    noteAll (BracketReports.events {})
    .failed error
  | .ok _ => do
    let (reports, result) ← paused strict change
    noteAll reports.events
    ofExcept result

/-- Replaces the code region by a private copy of itself. -/
def recreateCode (host : Host) (shadow : Shadow) (strict : Bool) : Engine Unit :=
  runRoutine .recreate host shadow strict (replaceCode shadow.code shadow.base)

/-- Writes bytes into the code region. -/
def overwriteCode (host : Host) (shadow : Shadow) (target : Address) (bytes : Bytes) (pageSize : Nat) (strict : Bool) :
    Engine Unit := do
  let span ← require (PageSpan.covering target bytes.size pageSize)
  runRoutine .overwrite host shadow strict (writeCode target bytes span)

end LivePatch
