import LivePatch.Mach.Process
import LivePatch.Session.Operation

/-!
# Sessions on a Mach process

A session on a Mach process starts by obtaining the privileged handle of the task. Preparing the process obtains the handle
anew, for that step only. The code of the engine itself is what would be changed, so preparing is attempted at most once.
-/

namespace LivePatch.Session

open LivePatch.Mach (Process Trap)

/-- A step of a session on a Mach process. -/
inductive ProcessCommand where
  | imageBase
  | call (request : Request)
  | operate (operation : Operation)
  deriving DecidableEq, Repr

/-- A whole session on a Mach process. -/
inductive Transcript where
  /-- The kernel gave no handle of the task. -/
  | refused (error : Error) (traps : List Trap)
  /-- The handle was obtained with these traps; the steps follow, and the number of thread lists that nobody gave back. -/
  | opened (traps : List Trap) (steps : List (Entry Trap)) (heldLists : Nat)
  deriving DecidableEq, Repr

/-- The error of a process that gets no handle of its task. -/
def noTask (code : KernelCode) : Error := .ofKernel .obtainTask code

namespace State

/-- The session with another handle of the task. -/
def withTask (state : State Process) (task : Mach.Handle) : State Process :=
  { state with world := { state.world with kernel := { state.world.kernel with task := task } } }

/-- Prepares the process with a handle of its own. -/
def prepareAnew (state : State Process) (config : Config) : Answer × State Process :=
  let (result, kernel) := state.world.kernel.obtainTask
  let state := { state with world := { state.world with kernel := kernel } }
  match result with
  | .error code => (.failure (noTask code), state)
  | .ok task =>
    let (answer, after) := (state.withTask task).prepare config
    (answer, after.withTask state.world.kernel.task)

/-- Takes one command. A write answers with the whole memory. -/
def takeOnProcess (state : State Process) : ProcessCommand → Answer × State Process
  | .imageBase => (.address (Kernel.imageBase state.world.kernel), state)
  | .call (.write address bytes) =>
    match state.call (.write address bytes) with
    | (.nothing, state) => (.bytes state.world.kernel.memory, state)
    | (answer, state) => (answer, state)
  | .call request => state.call request
  | .operate (.prepare config) => state.prepareAnew config
  | .operate operation => state.operate operation

/-- The entry of a step that led from one state to another. -/
def processEntry (before after : State Process) (answer : Answer) : Entry Trap where
  answer := answer
  calls := (after.world.kernel.trace.extract before.world.kernel.trace.size).toList
  events := (after.world.journal.extract before.world.journal.size).toList

/-- Runs the commands, and gives the state that they leave as well. -/
def runOnProcess (state : State Process) : List ProcessCommand → List (Entry Trap) × State Process
  | [] => ([], state)
  | command :: rest =>
    let (answer, after) := state.takeOnProcess command
    let entry := processEntry state after answer
    if answer = .crashed then
      ([entry], after)
    else
      let (entries, last) := runOnProcess after rest
      (entry :: entries, last)

end State

/-- Runs a session on a Mach process, in which the routines of the engine have the addresses of `host`. -/
def runProcess (host : Host) (process : Process) (commands : List ProcessCommand) : Transcript :=
  match process.obtainTask with
  | (.error code, process) => .refused (noTask code) process.trace.toList
  | (.ok task, process) =>
    let state : State Process := { world := { kernel := { process with task := task } }, host := host }
    let (entries, last) := state.runOnProcess commands
    .opened process.trace.toList entries last.world.kernel.heldLists

end LivePatch.Session
