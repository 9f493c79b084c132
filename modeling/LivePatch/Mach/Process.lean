import LivePatch.Mach.Trap

/-!
# Mach processes

A Mach process serves the engine by traps. For most of them it needs the privileged handle of its own task. A list of
threads comes as an array that the process owns, with a right to every thread in it; releasing the list gives back each of
these rights and then the array. The handle of the calling thread comes with a right as well, which is given back at once.
-/

namespace LivePatch.Mach

/-- The state of a process. -/
structure Process where
  /-- The address of the header of the main image, or zero if the loader knows none. -/
  header : Address := 0
  /-- The privileged handle of the task. -/
  task : Handle := 0
  /-- The replies to come. -/
  script : Script := {}
  /-- The traps so far. -/
  trace : Array Trap := #[]
  /-- The block of memory that the process reads and writes directly, from address zero. -/
  memory : Bytes := Array.replicate 64 0
  /-- The thread lists that were not given back. -/
  heldLists : Nat := 0

namespace Process

/-- Where the main image is loaded unless the loader says otherwise. -/
def defaultImageBase : Address := 0x100000000

/-- Where an allocation that may go anywhere usually goes. -/
def usualAllocation : Address := 0x200000000

/-- Makes a trap: it is recorded, and takes the next of its replies or, if there is none left, the usual one. -/
def ask {α : Type} (process : Process) (trap : Trap) (replies : Replies α) (usual : α) : Except KernelCode α × Process :=
  ((replies.get process.script).headD (.ok usual),
    { process with
      trace := process.trace.push trap
      script := replies.put process.script (replies.get process.script).tail })

/-- Makes a trap that has no reply. -/
def tell (process : Process) (trap : Trap) : Process := { process with trace := process.trace.push trap }

/-! ## Memory -/

/-- Asks for the privileged handle. -/
def obtainTask (process : Process) : Except KernelCode Handle × Process := process.ask .taskForPid .taskForPid 300

/-- Describes the region that the kernel finds for the address. -/
def region (process : Process) (address : Address) : Except KernelCode Region × Process :=
  let (reply, process) := process.ask (.region process.task address) .region {}
  (reply.map fun found =>
    { base := found.address.getD address, size := found.size, protection := protectionOfBits found.bits }, process)

/-- Allocates memory; the kernel says where. -/
def allocate (process : Process) (placement : Placement) (size : Nat) : Except KernelCode Address × Process :=
  match placement with
  | .anywhere =>
    let (reply, process) := process.ask (.allocate process.task 0 size true) .allocate none
    (reply.map (·.getD usualAllocation), process)
  | .fixed address =>
    let (reply, process) := process.ask (.allocate process.task address size false) .allocate none
    (reply.map (·.getD address), process)

/-- Unmaps a range. -/
def deallocate (process : Process) (address : Address) (size : Nat) : Except KernelCode Unit × Process :=
  process.ask (.deallocate process.task address size) .deallocate ()

/-- Protects the pages of a range. -/
def protect (process : Process) (address : Address) (size : Nat) (protection : Protection) :
    Except KernelCode Unit × Process :=
  process.ask (.protect process.task address size (protectionBits protection)) .protect ()

/-- Copies a range to another. -/
def copy (process : Process) (source : Address) (size : Nat) (destination : Address) :
    Except KernelCode Unit × Process :=
  process.ask (.copy process.task source size destination) .copy ()

/-- Writes into the memory directly; a range that is not in it crashes. -/
def write (process : Process) (address : Address) (bytes : Bytes) : Option (Except KernelCode Unit) × Process :=
  if address + bytes.size ≤ process.memory.size then
    (some (.ok ()), { process with memory := process.memory.splice address bytes })
  else
    (none, process)

/-- Reads the memory directly; a range that is not in it crashes. -/
def read (process : Process) (address : Address) (len : Nat) : Option (Except KernelCode Bytes) × Process :=
  if address + len ≤ process.memory.size then
    (some (.ok (process.memory.extract address (address + len))), process)
  else
    (none, process)

/-- Makes instructions that were written as data visible: the two caches do not agree by themselves. -/
def flush (process : Process) (address : Address) (size : Nat) : Process :=
  (process.tell (.flushData address size)).tell (.invalidateInstructions address size)

/-! ## Threads -/

/-- Lists the threads. A list that is there is held until it is released. -/
def listThreads (process : Process) : Except KernelCode ThreadList × Process :=
  match process.ask (.listThreads process.task) .listThreads (some [1]) with
  | (.error code, process) => (.error code, process)
  | (.ok none, process) => (.ok { threads := [], held := false }, process)
  | (.ok (some threads), process) =>
    (.ok { threads := threads, held := true }, { process with heldLists := process.heldLists + 1 })

/-- Gives a right back, whatever the kernel says to it. -/
def releaseHandle (process : Process) (handle : Handle) : Process :=
  (process.ask (.releaseHandle handle) .releaseHandle ()).2

/-- Gives the array of a list of so many threads back, whatever the kernel says to it. -/
def releaseArray (process : Process) (length : Nat) : Process :=
  (process.ask (.deallocateList ownTask (4 * length)) .deallocate ()).2

/-- Gives a held list back: the right to each thread in turn, and then the array. -/
def release (process : Process) (list : ThreadList) : Process :=
  if list.held then
    let released := (list.threads.foldl releaseHandle process).releaseArray list.threads.length
    { released with heldLists := released.heldLists - 1 }
  else
    process

/-- Asks for the handle of the calling thread. -/
def askOwnThread (process : Process) : Thread × Process :=
  (process.script.ownThread.headD 1,
    { process.tell .ownThread with
      script := { process.script with ownThread := process.script.ownThread.tail } })

/-- The handle of the calling thread. The right that comes with it is given back at once; the handle stays good. -/
def currentThread (process : Process) : Thread × Process :=
  let (thread, process) := process.askOwnThread
  (thread, process.releaseHandle thread)

/-- Suspends a thread. -/
def suspend (process : Process) (thread : Thread) : Except KernelCode Unit × Process :=
  process.ask (.suspend thread) .suspend ()

/-- Resumes a thread. -/
def resume (process : Process) (thread : Thread) : Except KernelCode Unit × Process :=
  process.ask (.resume thread) .resume ()

/-- A reply that is there. -/
def reply {α : Type} (result : α × Process) : Option α × Process := (some result.1, result.2)

/-- Serves a request by traps. -/
def serve : (request : Request) → Process → Option request.Reply × Process
  | .region address, process => reply (process.region address)
  | .allocate placement size, process => reply (process.allocate placement size)
  | .deallocate address size, process => reply (process.deallocate address size)
  | .protect address size protection, process => reply (process.protect address size protection)
  | .copy source size destination, process => reply (process.copy source size destination)
  | .write address bytes, process => process.write address bytes
  | .read address len, process => process.read address len
  | .threads, process => reply process.listThreads
  | .currentThread, process => reply process.currentThread
  | .release list, process => (some (), process.release list)
  | .suspend thread, process => reply (process.suspend thread)
  | .resume thread, process => reply (process.resume thread)
  | .flush address size, process => (some (), process.flush address size)

/-- The page size of a process. Nothing shows it. -/
def pageSize : Nat := 0x4000

instance : Kernel Process where
  imageBase process := if process.header = 0 then defaultImageBase else process.header
  pageSize _ := pageSize
  serve := serve

end Process

end LivePatch.Mach
