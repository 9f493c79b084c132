import LivePatch.Session.Operation
import LivePatch.Simulation.Testbed

/-!
# Sessions on a test bed

A session is a list of commands to one test bed: they set it up, call its kernel, run the engine on it, or look at its
memory behind the kernel's back. A command that crashes ends the session. After the last one, the guards that are still alive
are given up in the order of their names.
-/

namespace LivePatch.Session

/-- A change of the conditions. -/
inductive Preparation where
  /-- Maps memory whose byte at offset `o` is `o * factor + summand` modulo 251. -/
  | map (base : Address) (size : Nat) (protection : Protection) (factor summand : Nat)
  | setThreads (threads : List Thread) (caller : Thread)
  | scriptThreads (lists : List (List Thread))
  | inject (injection : Injection)
  | refuseSuspend (threads : List Thread)
  | refuseResume (threads : List Thread)
  | divert (address : Address)
  | distort (distortion : Distortion)
  | setPageSize (size : Nat)
  | setImageBase (base : Address)
  deriving DecidableEq, Repr

/-- A look at the memory that no call is made for. -/
inductive Inspection where
  | bytes (address : Address) (size : Nat)
  | protection (address : Address)
  | isMapped (address : Address)
  /-- So many pages from the address on, by protection and checksum. -/
  | pages (address : Address) (count : Nat)
  deriving DecidableEq, Repr

/-- A step of a session. -/
inductive Command where
  | setUp (preparation : Preparation)
  | call (request : Request)
  | inspect (inspection : Inspection)
  | operate (operation : Operation)
  deriving DecidableEq, Repr

/-- The conditions after a change; missing if memory is to be mapped that is no number of whole pages. -/
def Preparation.apply (bed : Testbed) : Preparation → Option Testbed
  | .map base size protection factor summand =>
    (bed.machine.map? base size protection fun offset =>
      UInt8.ofNat ((offset * factor + summand) % 251)).map ({ bed with machine := · })
  | .setThreads threads caller => some { bed with machine := { bed.machine with threads, caller } }
  | .scriptThreads lists => some { bed with script := lists }
  | .inject injection => some { bed with machine := bed.machine.inject injection }
  | .refuseSuspend threads => some { bed with
    machine := { bed.machine with suspendRefusals := threads ++ bed.machine.suspendRefusals } }
  | .refuseResume threads => some { bed with
    machine := { bed.machine with resumeRefusals := threads ++ bed.machine.resumeRefusals } }
  | .divert address => some { bed with machine := { bed.machine with diversion := some address } }
  | .distort distortion => some { bed with distortions := distortion :: bed.distortions }
  | .setPageSize size => some { bed with pageSize := size }
  | .setImageBase base => some { bed with imageBase := base }

/-- The protection and the checksum of the page at the address, if it is mapped. -/
def pageDigest (space : Space) (address : Address) : Option (Option (Protection × UInt32)) := do
  if ← space.isMapped address then
    let bytes ← space.peek address pageBytes
    let protection ← space.protectionAt address
    pure (some (protection, bytes.checksum))
  else
    pure none

/-- What a look at the memory shows; missing where it would show something that is not mapped. -/
def Inspection.look (space : Space) : Inspection → Option Answer
  | .bytes address size => Answer.bytes <$> space.peek address size
  | .protection address => Answer.protection <$> space.protectionAt address
  | .isMapped address => Answer.flag <$> space.isMapped address
  | .pages address count =>
    Answer.pages <$> (List.range count).mapM fun i => do
      pageDigest space (← Word.add address (i * pageBytes))

namespace State

/-- Takes one command. -/
def take (state : State Testbed) : Command → Answer × State Testbed
  | .setUp preparation =>
    match preparation.apply state.world.kernel with
    | none => (.crashed, state)
    | some bed => (.nothing, { state with world := { state.world with kernel := bed } })
  | .call request => state.call request
  | .inspect inspection => ((inspection.look state.world.kernel.machine.space).getD .crashed, state)
  | .operate operation => state.operate operation

/-- The entry of a step that led from one state to another. -/
def entry (before after : State Testbed) (answer : Answer) : Entry Call where
  answer := answer
  calls := (after.world.kernel.machine.calls.extract before.world.kernel.machine.calls.size).toList
  events := (after.world.journal.extract before.world.journal.size).toList

/-- Gives up the guards with these names in turn. -/
def dropGuards (state : State Testbed) : List String → List (Entry Call)
  | [] => []
  | name :: rest =>
    let (answer, after) := state.release name (.dropped name)
    let entry := entry state after answer
    if answer = .crashed then [entry] else entry :: dropGuards after rest

/-- Runs a session. -/
def run (state : State Testbed) : List Command → List (Entry Call)
  | [] => state.dropGuards (state.guards.map (·.1))
  | command :: rest =>
    let (answer, after) := state.take command
    let entry := entry state after answer
    if answer = .crashed then [entry] else entry :: run after rest

end State

end LivePatch.Session
