import LivePatch.Engine.Guard

/-!
# Answers

What a step of a session answers: a value, the failure of a kernel call, an error of the engine, that something the step
names is not there, or that it crashed.
-/

namespace LivePatch.Session

/-- What a step answers. -/
inductive Answer where
  | nothing
  | address (address : Address)
  | bytes (bytes : Bytes)
  | flag (flag : Bool)
  | protection (protection : Protection)
  | region (region : Region)
  | thread (thread : Thread)
  | threads (threads : List Thread)
  | layout (layout : Layout)
  | shadow (shadow : Shadow)
  /-- The addresses in the other image, where there is one. -/
  | addresses (addresses : List (Option Address))
  | image (image : Image)
  /-- Where a guard stands, and what it keeps. -/
  | guard (target : Address) (saved : Bytes)
  /-- What a report holds after a sweep, and the code that kept the sweep from its list of threads, if it got none. -/
  | sweep (report : SweepReport) (failure : Option KernelCode)
  /-- For each page its protection and the checksum of its bytes, if it is mapped. -/
  | pages (pages : List (Option (Protection × UInt32)))
  /-- A guard that was still alive at the end of the session was dropped. -/
  | dropped (name : String)
  | kernelFailure (code : KernelCode)
  | failure (error : Error)
  /-- Something that the step names is not there. -/
  | absent
  | crashed
  deriving DecidableEq, Repr

/-- One step of a session: its answer, the calls that the kernel received, and the events that the engine recorded. -/
structure Entry (τ : Type) where
  answer : Answer
  calls : List τ
  events : List Event
  deriving DecidableEq, Repr

end LivePatch.Session
