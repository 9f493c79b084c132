import LivePatch.Engine.Sweep

/-!
# Changing memory while the others are paused

A change of the code is made in a bracket of two sweeps: the other threads are suspended, the change is made, and they are
resumed, whether the change succeeded or not. In strict mode a thread that cannot be suspended calls the change off. Nothing
in a bracket writes to the journal; what the sweeps saw comes back in reports.
-/

namespace LivePatch

/-- The reports of the two sweeps of a bracket. -/
structure BracketReports where
  suspended : SweepReport := {}
  resumed : SweepReport := {}
  deriving DecidableEq, Repr

/-- What the journal says about a bracket. -/
def BracketReports.events (reports : BracketReports) : List Event :=
  reports.suspended.events .suspendThreads ++ reports.resumed.events .resumeThreads

/-- Makes a change with every other thread paused.

A failed list of threads for suspending ends the bracket before it began. After that the resume sweep is always made. An
error of the change wins over a failed list for resuming; so does, in strict mode, that list over the refused suspensions,
because threads that stay suspended are the greater trouble. -/
def paused {ε α : Type} (strict : Bool) (change : Engine α) : Program ε (BracketReports × Except Error α) := do
  match ← suspendOthers {} with
  | .error code => pure ({}, .error (.ofKernel .suspendThreads code))
  | .ok suspended =>
    if strict && !suspended.isComplete then
      match ← resumeOthers {} with
      | .error code => pure ({ suspended }, .error (.ofKernel .resumeThreads code))
      | .ok resumed =>
        pure ({ suspended, resumed }, .error (.partialSuspension suspended.failed suspended.requested))
    else do
      let result ← change.attempt
      match ← resumeOthers {} with
      | .error code => pure ({ suspended }, result.bind fun _ => .error (.ofKernel .resumeThreads code))
      | .ok resumed => pure ({ suspended, resumed }, result)

end LivePatch
