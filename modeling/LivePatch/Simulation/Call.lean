import LivePatch.Kernel.Request

/-!
# Kernel calls on the record

The calls that a simulated machine receives, as it records them.
-/

namespace LivePatch

/-- A call that was made. -/
inductive Call where
  | region (address : Address)
  | allocate (placement : Placement) (size : Nat)
  | deallocate (address : Address) (size : Nat)
  | protect (address : Address) (size : Nat) (protection : Protection)
  | copy (source : Address) (size : Nat) (destination : Address)
  | write (address : Address) (len : Nat)
  | read (address : Address) (len : Nat)
  | threads
  | suspend (thread : Thread)
  | resume (thread : Thread)
  | flush (address : Address) (size : Nat)
  deriving DecidableEq, Repr

/-- The kinds of calls that can be made to fail. -/
inductive CallKind where
  | region
  | allocate
  | deallocate
  | protect
  | copy
  | write
  | read
  | threads
  deriving DecidableEq, Repr

namespace Call

/-- The record of a request. The handle of the calling thread and the release of a thread list leave none. -/
def ofRequest? : Request → Option Call
  | .region address => some (region address)
  | .allocate placement size => some (allocate placement size)
  | .deallocate address size => some (deallocate address size)
  | .protect address size protection => some (protect address size protection)
  | .copy source size destination => some (copy source size destination)
  | .write address bytes => some (write address bytes.size)
  | .read address len => some (read address len)
  | .threads => some threads
  | .suspend thread => some (suspend thread)
  | .resume thread => some (resume thread)
  | .flush address size => some (flush address size)
  | .currentThread | .release _ => none

/-- The kind of a call; requests to threads and flushes are not counted. -/
def kind? : Call → Option CallKind
  | region .. => some .region
  | allocate .. => some .allocate
  | deallocate .. => some .deallocate
  | protect .. => some .protect
  | copy .. => some .copy
  | write .. => some .write
  | read .. => some .read
  | threads => some .threads
  | suspend .. | resume .. | flush .. => none

/-- Whether the call changes the address space. -/
def mutates : Call → Bool
  | allocate .. | deallocate .. | protect .. | copy .. | write .. => true
  | region .. | read .. | threads | suspend .. | resume .. | flush .. => false

end Call

end LivePatch
