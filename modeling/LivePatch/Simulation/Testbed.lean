import LivePatch.Simulation.Machine

/-!
# Test beds

A test bed is a machine under conditions of choice: it answers with a page size and an image base that can be set, changes
its thread table behind the back of the engine, and spoils what it reads. With none of these set it is the machine itself.
-/

namespace LivePatch

/-- The order to spoil one read: the byte at `index` of the n-th read is exclusive-ored with a mask. -/
structure Distortion where
  /-- Which read, from zero; failed ones count. -/
  read : Nat
  index : Nat
  mask : UInt8
  deriving DecidableEq, Repr

/-- A machine and the conditions that it runs under. -/
structure Testbed where
  machine : Machine := {}
  /-- The thread tables that the next lists of threads bring with them. -/
  script : List (List Thread) := []
  distortions : List Distortion := []
  pageSize : Nat := pageBytes
  imageBase : Address := Space.imageBase

namespace Testbed

/-- The test bed with the machine that an answer leaves. -/
def following {α : Type} (bed : Testbed) (answer : α × Machine) : α × Testbed :=
  (answer.1, { bed with machine := answer.2 })

/-- Takes the next thread table off the script, if there is one left. -/
def advance (bed : Testbed) : Testbed :=
  match bed.script with
  | [] => bed
  | threads :: rest => { bed with machine := { bed.machine with threads := threads }, script := rest }

/-- The bytes of the n-th read after all distortions that were ordered for it. -/
def spoil (distortions : List Distortion) (n : Nat) (bytes : Bytes) : Bytes :=
  (distortions.filter (·.read = n)).foldl (fun bytes rule => bytes.modify rule.index (· ^^^ rule.mask)) bytes

/-- Reads memory and spoils what was read. -/
def read (bed : Testbed) (address : Address) (len : Nat) : Option (Except KernelCode Bytes) × Testbed :=
  let (reply, bed') := bed.following (Machine.serve (.read address len) bed.machine)
  (reply.map fun result => result.map (spoil bed.distortions (bed.machine.counts .read)), bed')

/-- Serves a request. The thread script advances before anything else, even if the list then fails. -/
def serve : (request : Request) → Testbed → Option request.Reply × Testbed
  | .threads, bed => bed.advance.following (Machine.serve .threads bed.advance.machine)
  | .read address len, bed => bed.read address len
  | request, bed => bed.following (Machine.serve request bed.machine)

instance : Kernel Testbed where
  imageBase := Testbed.imageBase
  pageSize := Testbed.pageSize
  serve := serve

end Testbed

end LivePatch
