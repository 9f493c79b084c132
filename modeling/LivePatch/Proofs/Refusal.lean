import LivePatch.Proofs.Simulation.Replay

/-!
# Calls that are refused

A machine does nothing of a call that it refuses, whether the failure was ordered or the memory cannot do what was asked. The record
shows the one call, its kind was counted once more, and everything else is as it was; only an allocation at a fixed address may have
used up the diversion that it was sent to. A call that does not mutate leaves no more behind when it is served. None of this asks
anything of the memory: mappings may overlap, or have pages that do not match their bytes.
-/

namespace LivePatch

/-- The code with which a request was refused. -/
def Exchange.refusal? : Exchange → Option KernelCode
  | ⟨.region _, .error code⟩ | ⟨.allocate _ _, .error code⟩ | ⟨.deallocate _ _, .error code⟩ | ⟨.protect _ _ _, .error code⟩
  | ⟨.copy _ _ _, .error code⟩ | ⟨.write _ _, .error code⟩ | ⟨.read _ _, .error code⟩ | ⟨.threads, .error code⟩
  | ⟨.suspend _, .error code⟩ | ⟨.resume _, .error code⟩ => some code
  | _ => none

/-- The second machine is the first one with a call on its record, of which nothing was done. A diversion may have been used up, by memory
that was asked for at a fixed address. -/
structure Machine.OnlyRecords (machine after : Machine) (call : Call) : Prop where
  space : after.space = machine.space
  threads : after.threads = machine.threads
  caller : after.caller = machine.caller
  calls : after.calls = machine.calls.push call
  counts : ∀ kind, after.counts kind = machine.counts kind + if call.kind? = some kind then 1 else 0
  injections : after.injections = machine.injections
  suspendRefusals : after.suspendRefusals = machine.suspendRefusals
  resumeRefusals : after.resumeRefusals = machine.resumeRefusals
  diversion : after.diversion = machine.diversion ∨
    (after.diversion = none ∧ ∃ address size, call = .allocate (.fixed address) size)

namespace Machine

variable {α : Type} {machine : Machine} {request : Request} {call : Call} {code : KernelCode}

/-- A reply is an error exactly if the outcome is a failure. -/
theorem reply_eq_error_iff {result : Outcome KernelCode α × Machine} :
    (reply result).1 = some (.error code) ↔ result.1 = .failed code := by
  rcases result with ⟨_ | _ | _, _⟩ <;> simp [reply, Outcome.toExcept?]

/-! ## The memory -/

/-- A call that does not mutate leaves the memory as it is, also if it is served. -/
theorem space_serve_of_not_mutates (hcall : Call.ofRequest? request = some call) (hmutates : call.mutates = false) :
    (Kernel.serve request machine).2.space = machine.space := by
  cases request with
  | currentThread | release _ => cases hcall
  | flush _ _ => rfl
  | allocate _ _ | deallocate _ _ | protect _ _ _ | copy _ _ _ | write _ _ =>
    cases hcall
    cases hmutates
  | region _ | read _ _ | threads | suspend _ | resume _ => exact space_receive machine _ fun _ => rfl

/-- A change that is refused is not made in part: there is no new memory before all of it went through. -/
theorem space_receive_alter {change : Space → Outcome KernelCode Space}
    (hrefused : (reply (machine.receive call (alter change))).1 = some (.error code)) :
    (machine.receive call (alter change)).2.space = machine.space := by
  have hanswer := (answers_alter machine call change (fun reply next => ∀ code, reply = .error code → next = machine.space)
    (fun _ _ => nofun) fun _ _ _ => rfl).1
  exact hanswer (.error code) hrefused code rfl

/-- A call that is refused leaves the memory as it is. -/
theorem space_serve_of_refused {reply : request.Reply} (hserve : (Kernel.serve request machine).1 = some reply)
    (hrefused : Exchange.refusal? ⟨request, reply⟩ = some code) : (Kernel.serve request machine).2.space = machine.space := by
  cases request with
  | currentThread | release _ | flush _ _ => cases hrefused
  | region _ | read _ _ | threads | suspend _ | resume _ => exact space_serve_of_not_mutates rfl rfl
  | deallocate _ _ | protect _ _ _ | copy _ _ _ | write _ _ =>
    cases reply with
    | ok _ => cases hrefused
    | error _ => exact space_receive_alter hserve
  | allocate placement size =>
    cases reply with
    | ok _ => cases hrefused
    | error code => exact (answers_allocate machine placement size).1 (.error code) hserve

/-! ## The record -/

/-- Whatever is called, the record is all that changes if the memory does not. -/
theorem onlyRecords_serve (hcall : Call.ofRequest? request = some call)
    (hspace : (Kernel.serve request machine).2.space = machine.space) :
    machine.OnlyRecords (Kernel.serve request machine).2 call := by
  have hrecorded : ∀ {β : Type} {f : Machine → β}, (∀ (machine : Machine) space, f { machine with space := space } = f machine) →
      (∀ machine : Machine, f { machine with diversion := none } = f machine) →
        f (Kernel.serve request machine).2 = f (machine.recorded call) := by
    intro β f hmemory hdiversion
    have hserve := serve_recorded hmemory hdiversion request machine
    rwa [hcall] at hserve
  constructor
  case space => exact hspace
  case threads => exact threads_serve request machine
  case caller => exact hrecorded (f := Machine.caller) (fun _ _ => rfl) fun _ => rfl
  case calls => exact hrecorded (f := Machine.calls) (fun _ _ => rfl) fun _ => rfl
  case injections => exact hrecorded (f := Machine.injections) (fun _ _ => rfl) fun _ => rfl
  case suspendRefusals => exact hrecorded (f := Machine.suspendRefusals) (fun _ _ => rfl) fun _ => rfl
  case resumeRefusals => exact hrecorded (f := Machine.resumeRefusals) (fun _ _ => rfl) fun _ => rfl
  case counts =>
    intro kind
    have hcounts := hrecorded (f := (Machine.counts · kind)) (fun _ _ => rfl) fun _ => rfl
    rw [hcounts]
    simp only [recorded]
    split <;> rfl
  case diversion =>
    refine (diversion_serve request machine).imp_right (And.imp_right ?_)
    rintro ⟨address, size, rfl⟩
    exact ⟨address, size, (Option.some.inj hcall).symm⟩

/-! ## Refusals as a whole -/

/-- What is refused was a call. -/
theorem ofRequest?_of_refused {reply : request.Reply} (hrefused : Exchange.refusal? ⟨request, reply⟩ = some code) :
    ∃ call, Call.ofRequest? request = some call := by
  cases request with
  | currentThread | release _ => cases hrefused
  | _ => exact ⟨_, rfl⟩

/-- Of a call that is refused nothing is done, whatever the state of the machine is, and of a call that does not mutate nothing is done
in any case. -/
theorem serve_atomic (machine : Machine) (request : Request) :
    (∀ (reply : request.Reply) (code : KernelCode), (Kernel.serve request machine).1 = some reply →
      Exchange.refusal? ⟨request, reply⟩ = some code →
        ∃ call, Call.ofRequest? request = some call ∧ machine.OnlyRecords (Kernel.serve request machine).2 call) ∧
    ∀ call, Call.ofRequest? request = some call → call.mutates = false →
      machine.OnlyRecords (Kernel.serve request machine).2 call := by
  refine ⟨fun reply code hserve hrefused => ?_, fun call hcall hmutates => ?_⟩
  · obtain ⟨call, hcall⟩ := ofRequest?_of_refused hrefused
    exact ⟨call, hcall, onlyRecords_serve hcall (space_serve_of_refused hserve hrefused)⟩
  · exact onlyRecords_serve hcall (space_serve_of_not_mutates hcall hmutates)

/-- A machine with a mapping that lies in the middle of another one. -/
def overlapping : Machine where
  space := [.fresh Space.imageBase (3 * pageBytes), .fresh (Space.imageBase + pageBytes) pageBytes]
  diversion := some (Space.imageBase + pageBytes)

/-- Two bytes across the end of the inner mapping are refused after they were read, and so is a page that is diverted to it. Both
mappings are as they were, but the diversion is gone. -/
theorem serve_atomic_overlapping :
    (Kernel.serve (.copy Space.imageBase 2 (Space.imageBase + 2 * pageBytes - 1)) overlapping).1 =
        some (.error .invalidAddress) ∧
      (Kernel.serve (.copy Space.imageBase 2 (Space.imageBase + 2 * pageBytes - 1)) overlapping).2.space = overlapping.space ∧
    (Kernel.serve (.allocate (.fixed 0) 1) overlapping).1 = some (.error .noSpace) ∧
      (Kernel.serve (.allocate (.fixed 0) 1) overlapping).2.space = overlapping.space ∧
      (Kernel.serve (.allocate (.fixed 0) 1) overlapping).2.calls = #[.allocate (.fixed 0) 1] ∧
      (Kernel.serve (.allocate (.fixed 0) 1) overlapping).2.diversion = none := by
  have hcopy : (overlapping.copy Space.imageBase 2 (Space.imageBase + 2 * pageBytes - 1)).1 = .failed .invalidAddress := by
    decide +kernel
  have hallocate : (overlapping.allocate (.fixed 0) 1).1 = .failed .noSpace := by decide +kernel
  have hcopyReply : (Kernel.serve (.copy Space.imageBase 2 (Space.imageBase + 2 * pageBytes - 1)) overlapping).1 =
      some (.error .invalidAddress) := reply_eq_error_iff.2 hcopy
  have hallocateReply : (Kernel.serve (.allocate (.fixed 0) 1) overlapping).1 = some (.error .noSpace) :=
    reply_eq_error_iff.2 hallocate
  obtain ⟨_, -, hcopied⟩ := (serve_atomic overlapping _).1 _ _ hcopyReply rfl
  obtain ⟨_, ⟨⟩, hallocated⟩ := (serve_atomic overlapping _).1 _ _ hallocateReply rfl
  exact ⟨hcopyReply, hcopied.space, hallocateReply, hallocated.space, hallocated.calls, by decide +kernel⟩

end Machine

end LivePatch
