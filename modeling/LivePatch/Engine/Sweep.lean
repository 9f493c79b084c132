import LivePatch.Engine.Program

/-!
# Sweeps over the other threads

A sweep asks every thread but the calling one for something: to stop, or to go on. One refusal does not end a sweep; it is
counted, and the first few are kept one by one. The thread list is taken anew for every sweep, because threads come and go,
and is given back when the sweep is over. Only a sweep that gets no list fails, and then it asks nobody.
-/

namespace LivePatch

/-- What came of the requests of one or more sweeps. -/
structure SweepReport where
  /-- The requests made. -/
  requested : Nat := 0
  /-- The requests refused. -/
  failed : Nat := 0
  /-- The first refusals, in the order of the requests. -/
  failures : List (Thread × KernelCode) := []
  deriving DecidableEq, Repr

namespace SweepReport

/-- The number of refusals that a report keeps one by one. -/
def kept : Nat := 8

/-- Whether nobody refused. -/
def isComplete (report : SweepReport) : Bool := report.failed == 0

/-- Counts a request and what came of it. -/
def record (report : SweepReport) (thread : Thread) : Except KernelCode Unit → SweepReport
  | .ok () => { report with requested := report.requested + 1 }
  | .error code =>
    { requested := report.requested + 1
      failed := report.failed + 1
      failures := if report.failed < kept then report.failures ++ [(thread, code)] else report.failures }

/-- What the journal says about a report: each refusal that was kept, how many more there were, and the balance. -/
def events (report : SweepReport) (step : Step) : List Event :=
  (report.failures.map fun (thread, code) => Event.requestRefused step thread code) ++
    (if kept < report.failed then [.moreRefused step (report.failed - kept)] else []) ++
    [.sweepEnded step (report.requested - report.failed) report.requested]

end SweepReport

/-- What a sweep asks of a thread. -/
inductive ThreadRequest where
  | suspend
  | resume
  deriving DecidableEq, Repr

/-- Asks one thread. -/
def ThreadRequest.ask {ε : Type} (kind : ThreadRequest) (thread : Thread) : Program ε (Except KernelCode Unit) :=
  match kind with
  | suspend => .request (.suspend thread)
  | resume => .request (.resume thread)

/-- Asks each of the threads and records what came of it. -/
def askAll {ε : Type} (kind : ThreadRequest) (threads : List Thread) (report : SweepReport) : Program ε SweepReport :=
  match threads with
  | [] => pure report
  | thread :: rest => do
    let result ← kind.ask thread
    askAll kind rest (report.record thread result)

/-- Asks every thread but the calling one, and gives the report with what came of it, or the code that kept the sweep from
its list of threads. -/
def sweep {ε : Type} (kind : ThreadRequest) (report : SweepReport) : Program ε (Except KernelCode SweepReport) := do
  match ← Program.request .threads with
  | .error code => pure (.error code)
  | .ok list => do
    let caller ← Program.request .currentThread
    let report ← askAll kind (list.threads.filter (· ≠ caller)) report
    Program.request (.release list)
    pure (.ok report)

/-- Suspends every thread but the calling one. -/
def suspendOthers {ε : Type} (report : SweepReport) : Program ε (Except KernelCode SweepReport) := sweep .suspend report

/-- Resumes every thread but the calling one, also those that were not suspended. -/
def resumeOthers {ε : Type} (report : SweepReport) : Program ε (Except KernelCode SweepReport) := sweep .resume report

end LivePatch
