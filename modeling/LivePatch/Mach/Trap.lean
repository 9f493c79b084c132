import LivePatch.Kernel.Request

/-!
# Mach traps

The system calls by which a Mach kernel serves the engine, and scripts of their replies. A script has a list of replies for
each trap, which are given in turn; when a list is used up, the trap succeeds with its usual reply.
-/

namespace LivePatch.Mach

/-- The name under which a process knows a task or a thread of the kernel. -/
abbrev Handle := Nat

/-- The handle that a process has of its own task, without any privilege. -/
def ownTask : Handle := 259

/-- The traps, with what they were asked. -/
inductive Trap where
  /-- Asks for the privileged handle of the own task. -/
  | taskForPid
  | region (task : Handle) (address : Address)
  | allocate (task : Handle) (address : Address) (size : Nat) (anywhere : Bool)
  | deallocate (task : Handle) (address : Address) (size : Nat)
  /-- Unmaps the array of a thread list. -/
  | deallocateList (task : Handle) (size : Nat)
  | protect (task : Handle) (address : Address) (size : Nat) (bits : Nat)
  | copy (task : Handle) (source : Address) (size : Nat) (destination : Address)
  | listThreads (task : Handle)
  /-- Asks for the handle of the calling thread. -/
  | ownThread
  /-- Gives a right to a task or a thread back. -/
  | releaseHandle (handle : Handle)
  | suspend (thread : Thread)
  | resume (thread : Thread)
  /-- Writes the data cache back. -/
  | flushData (address : Address) (size : Nat)
  /-- Discards cached instructions. -/
  | invalidateInstructions (address : Address) (size : Nat)
  deriving DecidableEq, Repr

/-- The bits of a protection: one for reading, two for writing, four for execution. -/
def protectionBits (protection : Protection) : Nat :=
  (if protection.read then 1 else 0) + (if protection.write then 2 else 0) + (if protection.execute then 4 else 0)

/-- The protection with these bits; all others are ignored. -/
def protectionOfBits (bits : Int) : Protection where
  read := bits % 2 = 1
  write := bits / 2 % 2 = 1
  execute := bits / 4 % 2 = 1

/-- Protections survive the way through their bits. -/
theorem protectionOfBits_protectionBits (protection : Protection) :
    protectionOfBits (protectionBits protection) = protection := by
  rcases protection with ⟨_ | _, _ | _, _ | _⟩ <;> rfl

/-- What a region query answers. -/
structure RegionReply where
  /-- The base of the region, if it is not the address that was asked for. -/
  address : Option Address := none
  size : Nat := 0x1000
  bits : Int := 5
  deriving DecidableEq, Repr

/-- The replies to come, for each trap that has any. -/
structure Script where
  taskForPid : List (Except KernelCode Handle) := []
  region : List (Except KernelCode RegionReply) := []
  /-- The base of the allocation, if it is not the usual one. -/
  allocate : List (Except KernelCode (Option Address)) := []
  deallocate : List (Except KernelCode Unit) := []
  protect : List (Except KernelCode Unit) := []
  copy : List (Except KernelCode Unit) := []
  /-- The thread list, or none at all. -/
  listThreads : List (Except KernelCode (Option (List Thread))) := []
  ownThread : List Thread := []
  releaseHandle : List (Except KernelCode Unit) := []
  suspend : List (Except KernelCode Unit) := []
  resume : List (Except KernelCode Unit) := []

/-- One of the lists of a script, with what it takes to shorten it. -/
structure Replies (α : Type) where
  get : Script → List (Except KernelCode α)
  put : Script → List (Except KernelCode α) → Script

namespace Replies

def taskForPid : Replies Handle := ⟨Script.taskForPid, fun script rest => { script with taskForPid := rest }⟩

def region : Replies RegionReply := ⟨Script.region, fun script rest => { script with region := rest }⟩

def allocate : Replies (Option Address) := ⟨Script.allocate, fun script rest => { script with allocate := rest }⟩

def deallocate : Replies Unit := ⟨Script.deallocate, fun script rest => { script with deallocate := rest }⟩

def protect : Replies Unit := ⟨Script.protect, fun script rest => { script with protect := rest }⟩

def copy : Replies Unit := ⟨Script.copy, fun script rest => { script with copy := rest }⟩

def listThreads : Replies (Option (List Thread)) :=
  ⟨Script.listThreads, fun script rest => { script with listThreads := rest }⟩

def releaseHandle : Replies Unit := ⟨Script.releaseHandle, fun script rest => { script with releaseHandle := rest }⟩

def suspend : Replies Unit := ⟨Script.suspend, fun script rest => { script with suspend := rest }⟩

def resume : Replies Unit := ⟨Script.resume, fun script rest => { script with resume := rest }⟩

end Replies

end LivePatch.Mach
