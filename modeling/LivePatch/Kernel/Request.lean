import LivePatch.Kernel.Code
import LivePatch.Memory.Bytes
import LivePatch.Memory.Region

/-!
# Kernel requests

What the engine asks of a kernel: to describe, map, unmap, protect and copy memory, to read and write it, to list the threads
of the process, to stop and continue them, and to discard stale instructions. A request is a value, and the type of its reply
says whether it can fail: three requests cannot, those for the handle of the calling thread, for giving a thread list back
and for discarding instructions.

A type with an answer to every request is the state of a kernel. The engine is written once for all of them.
-/

namespace LivePatch

/-- The handle of a thread. -/
abbrev Thread := Nat

/-- A snapshot of the threads of the process. -/
structure ThreadList where
  /-- The handles, in the order in which the kernel lists them. -/
  threads : List Thread
  /-- Whether the kernel keeps the list and its handles until they are released. -/
  held : Bool
  deriving DecidableEq, Repr

/-- What a kernel can be asked for. -/
inductive Request where
  /-- To describe the region that contains the address, or else the closest one above it. -/
  | region (address : Address)
  /-- To map zeroed, readable and writable bytes. -/
  | allocate (placement : Placement) (size : Nat)
  /-- To unmap a range. -/
  | deallocate (address : Address) (size : Nat)
  /-- To protect every page that a range meets. -/
  | protect (address : Address) (size : Nat) (protection : Protection)
  /-- To copy a range to another place. -/
  | copy (source : Address) (size : Nat) (destination : Address)
  /-- To write bytes at an address. -/
  | write (address : Address) (bytes : Bytes)
  /-- To read so many bytes at an address. -/
  | read (address : Address) (len : Nat)
  /-- To list the threads of the process, the calling one included. -/
  | threads
  /-- For the handle of the calling thread. -/
  | currentThread
  /-- To take a thread list back. -/
  | release (list : ThreadList)
  /-- To suspend a thread. -/
  | suspend (thread : Thread)
  /-- To resume a thread. -/
  | resume (thread : Thread)
  /-- To discard the instructions cached for a range. -/
  | flush (address : Address) (size : Nat)
  deriving DecidableEq, Repr

/-- What comes back for a request. -/
@[reducible] def Request.Reply : Request → Type
  | .region _ => Except KernelCode Region
  | .allocate .. => Except KernelCode Address
  | .deallocate .. => Except KernelCode Unit
  | .protect .. => Except KernelCode Unit
  | .copy .. => Except KernelCode Unit
  | .write .. => Except KernelCode Unit
  | .read .. => Except KernelCode Bytes
  | .threads => Except KernelCode ThreadList
  | .currentThread => Thread
  | .release _ => Unit
  | .suspend _ => Except KernelCode Unit
  | .resume _ => Except KernelCode Unit
  | .flush .. => Unit

/-- A kernel with states of type `κ`. -/
class Kernel (κ : Type) where
  /-- Where the code of the process is expected to start. -/
  imageBase : κ → Address
  /-- The size of a memory page. -/
  pageSize : κ → Nat
  /-- Serves a request. No reply means that serving it crashed. -/
  serve : (request : Request) → κ → Option request.Reply × κ

end LivePatch
