import LivePatch.Simulation.Call
import LivePatch.Simulation.Space

/-!
# Simulated machines

A machine has an address space and a table of threads, keeps a record of the calls that it receives, and can be told to fail:
the n-th call of a kind with a code of choice, and the requests to certain threads always. The next allocation at a fixed
address can be diverted to another one.

Every call is recorded first and counted second. Then comes the failure that was ordered for it, and only after that what
the call does to the address space.
-/

namespace LivePatch

/-- The order to fail one call. -/
structure Injection where
  kind : CallKind
  /-- Which call of the kind, from zero. -/
  index : Nat
  code : KernelCode
  deriving DecidableEq, Repr

/-- The state of a machine. -/
structure Machine where
  space : Space := []
  threads : List Thread := [1]
  /-- The calling thread. -/
  caller : Thread := 1
  /-- The calls so far. -/
  calls : Array Call := #[]
  /-- The number of calls of each kind so far. -/
  counts : CallKind → Nat := fun _ => 0
  /-- The failures ordered, the latest order first. -/
  injections : List Injection := []
  /-- The threads that refuse to be suspended. -/
  suspendRefusals : List Thread := []
  /-- The threads that refuse to be resumed. -/
  resumeRefusals : List Thread := []
  /-- Where the next allocation at a fixed address goes instead. -/
  diversion : Option Address := none

namespace Machine

/-! ## Setting a machine up -/

/-- The machine with a stretch of memory mapped, whose bytes are given by their offset. Base and size are whole pages. -/
def map? (machine : Machine) (base : Address) (size : Nat) (protection : Protection) (fill : Nat → UInt8) :
    Option Machine :=
  if base % pageBytes = 0 ∧ size % pageBytes = 0 ∧ size ≤ Bytes.maxSize then
    some { machine with space := machine.space.insert (.filled base size protection fill) }
  else
    none

/-- The byte at an offset of the regions of a new process. -/
def patternByte (offset : Nat) : UInt8 := UInt8.ofNat (offset % 251)

/-- A machine that runs a process: code, read-only data and data of the given sizes, and so many threads, of which the first
is the caller. -/
def process? (codeSize constantsSize dataSize : Nat) (threads : Nat) : Option Machine := do
  let machine ← ({} : Machine).map? Space.imageBase codeSize .readExecute patternByte
  let constantsBase ← Word.add Space.imageBase codeSize
  let machine ← machine.map? constantsBase constantsSize .readOnly patternByte
  let dataBase ← Word.add constantsBase constantsSize
  let machine ← machine.map? dataBase dataSize .readWrite patternByte
  let _ ← Word.add dataBase dataSize
  pure { machine with threads := List.range' 1 threads, caller := 1 }

/-- The machine with one more failure ordered. -/
def inject (machine : Machine) (injection : Injection) : Machine :=
  { machine with injections := injection :: machine.injections }

/-! ## Receiving a call -/

/-- The code with which the next call of a kind fails, if it is to fail. -/
def injected? (machine : Machine) (kind : CallKind) : Option KernelCode :=
  (machine.injections.find? fun injection =>
    injection.kind = kind ∧ injection.index = machine.counts kind).map (·.code)

/-- The machine with a call recorded and counted. -/
def recorded (machine : Machine) (call : Call) : Machine :=
  { machine with
    calls := machine.calls.push call
    counts := fun kind => if call.kind? = some kind then machine.counts kind + 1 else machine.counts kind }

/-- Receives a call: records it, counts it, and then fails if that was ordered or serves the call. -/
def receive {α : Type} (machine : Machine) (call : Call) (serve : Machine → Outcome KernelCode α × Machine) :
    Outcome KernelCode α × Machine :=
  match call.kind?.bind machine.injected? with
  | some code => (.failed code, machine.recorded call)
  | none => serve (machine.recorded call)

/-- Looks at the address space. -/
def observe {α : Type} (look : Space → Outcome KernelCode α) (machine : Machine) : Outcome KernelCode α × Machine :=
  (look machine.space, machine)

/-- Changes the address space, if the change goes through. -/
def alter (change : Space → Outcome KernelCode Space) (machine : Machine) : Outcome KernelCode Unit × Machine :=
  match change machine.space with
  | .done space => (.done (), { machine with space := space })
  | .failed code => (.failed code, machine)
  | .crashed => (.crashed, machine)

/-! ## The calls -/

/-- Describes the region that contains the address, or else the closest one above it. -/
def region (machine : Machine) (address : Address) : Outcome KernelCode Region × Machine :=
  machine.receive (.region address) (observe (·.region address))

/-- Where an allocation really goes, and the machine after that: a pending diversion is used up by an allocation at a fixed
address. -/
def divert (machine : Machine) : Placement → Placement × Machine
  | .anywhere => (.anywhere, machine)
  | .fixed address => (.fixed (machine.diversion.getD address), { machine with diversion := none })

/-- Maps so many bytes, a number of whole pages. A diversion is used up even if there is no room. -/
def allocatePages (placement : Placement) (size : Nat) (machine : Machine) : Outcome KernelCode Address × Machine :=
  let (placement, machine) := machine.divert placement
  match machine.space.allocate placement size with
  | .done (base, space) => (.done base, { machine with space := space })
  | .failed code => (.failed code, machine)
  | .crashed => (.crashed, machine)

/-- Maps memory. The size is rounded up to whole pages before anything else. -/
def allocate (machine : Machine) (placement : Placement) (size : Nat) : Outcome KernelCode Address × Machine :=
  machine.receive (.allocate placement size) fun machine =>
    match Space.roundUp size with
    | none => (.crashed, machine)
    | some size => allocatePages placement size machine

/-- Unmaps a whole mapping. -/
def deallocate (machine : Machine) (address : Address) (size : Nat) : Outcome KernelCode Unit × Machine :=
  machine.receive (.deallocate address size) (alter (·.deallocate address size))

/-- Protects every page that a range meets. -/
def protect (machine : Machine) (address : Address) (size : Nat) (protection : Protection) :
    Outcome KernelCode Unit × Machine :=
  machine.receive (.protect address size protection) (alter (·.protect address size protection))

/-- Copies a range to another. -/
def copy (machine : Machine) (source : Address) (size : Nat) (destination : Address) :
    Outcome KernelCode Unit × Machine :=
  machine.receive (.copy source size destination) (alter (·.copy source size destination))

/-- Writes bytes. -/
def write (machine : Machine) (address : Address) (bytes : Bytes) : Outcome KernelCode Unit × Machine :=
  machine.receive (.write address bytes.size) (alter (·.store address bytes))

/-- Reads bytes. -/
def read (machine : Machine) (address : Address) (len : Nat) : Outcome KernelCode Bytes × Machine :=
  machine.receive (.read address len) (observe (·.load address len))

/-- The thread table. It is a copy, and nothing has to be given back. -/
def listThreads (machine : Machine) : Outcome KernelCode ThreadList × Machine :=
  machine.receive .threads fun machine => (.done { threads := machine.threads, held := false }, machine)

/-- Suspends a thread, unless it refuses. -/
def suspend (machine : Machine) (thread : Thread) : Outcome KernelCode Unit × Machine :=
  machine.receive (.suspend thread) fun machine =>
    (if thread ∈ machine.suspendRefusals then .failed .failure else .done (), machine)

/-- Resumes a thread, unless it refuses. -/
def resume (machine : Machine) (thread : Thread) : Outcome KernelCode Unit × Machine :=
  machine.receive (.resume thread) fun machine =>
    (if thread ∈ machine.resumeRefusals then .failed .failure else .done (), machine)

/-- Discards cached instructions; nothing but the record shows it. -/
def flush (machine : Machine) (address : Address) (size : Nat) : Machine := machine.recorded (.flush address size)

/-- The reply that an outcome is. -/
def reply {α : Type} (result : Outcome KernelCode α × Machine) : Option (Except KernelCode α) × Machine :=
  (result.1.toExcept?, result.2)

/-- Serves a request. -/
def serve : (request : Request) → Machine → Option request.Reply × Machine
  | .region address, machine => reply (machine.region address)
  | .allocate placement size, machine => reply (machine.allocate placement size)
  | .deallocate address size, machine => reply (machine.deallocate address size)
  | .protect address size protection, machine => reply (machine.protect address size protection)
  | .copy source size destination, machine => reply (machine.copy source size destination)
  | .write address bytes, machine => reply (machine.write address bytes)
  | .read address len, machine => reply (machine.read address len)
  | .threads, machine => reply machine.listThreads
  | .currentThread, machine => (some machine.caller, machine)
  | .release _, machine => (some (), machine)
  | .suspend thread, machine => reply (machine.suspend thread)
  | .resume thread, machine => reply (machine.resume thread)
  | .flush address size, machine => (some (), machine.flush address size)

/-- A machine by itself is a kernel. -/
instance : Kernel Machine where
  imageBase _ := Space.imageBase
  pageSize _ := pageBytes
  serve := serve

end Machine

end LivePatch
