import LivePatch.Proofs.Engine.Condition
import LivePatch.Proofs.Space.Allocation
import LivePatch.Simulation.Testbed

/-!
# How a test bed serves

Whatever a test bed is asked, the conditions that it was set up with stay: `Follows` says which, and `Still` says that the
memory stayed as well. So no program changes them, and a quiet test bed, on which no order for a failure is left, stays quiet.
-/

namespace LivePatch

open Program (request)

/-! ## What serving leaves as it is -/

/-- The second machine is the first one some calls later, if the threads and the memory are left out. -/
structure Machine.Follows (machine machine' : Machine) : Prop where
  counts : ∀ kind, machine.counts kind ≤ machine'.counts kind
  injections : machine'.injections = machine.injections
  caller : machine'.caller = machine.caller
  suspendRefusals : machine'.suspendRefusals = machine.suspendRefusals
  resumeRefusals : machine'.resumeRefusals = machine.resumeRefusals
  diversion : machine'.diversion = machine.diversion ∨ machine'.diversion = none

namespace Machine

theorem Follows.refl (machine : Machine) : machine.Follows machine :=
  ⟨fun _ => Nat.le_refl _, rfl, rfl, rfl, rfl, Or.inl rfl⟩

theorem Follows.trans {m m' m'' : Machine} (h : m.Follows m') (h' : m'.Follows m'') : m.Follows m'' := by
  refine ⟨fun kind => Nat.le_trans (h.counts kind) (h'.counts kind), h'.injections.trans h.injections,
    h'.caller.trans h.caller, h'.suspendRefusals.trans h.suspendRefusals, h'.resumeRefusals.trans h.resumeRefusals, ?_⟩
  rcases h'.diversion with hd | hd
  · rw [hd]
    exact h.diversion
  · exact Or.inr hd

theorem follows_recorded (machine : Machine) (call : Call) : machine.Follows (machine.recorded call) := by
  refine ⟨fun kind => ?_, rfl, rfl, rfl, rfl, Or.inl rfl⟩
  simp only [recorded]
  split <;> lia

section

variable {α : Type} {machine : Machine} {call : Call} {code : KernelCode} {serve : Machine → Outcome KernelCode α × Machine}

/-- A failure that was ordered changes the record alone. -/
theorem receive_of_injected (h : call.kind?.bind machine.injected? = some code) :
    machine.receive call serve = (.failed code, machine.recorded call) := by
  rw [receive, h]

/-- A call that was not told to fail is served after it was recorded. -/
theorem receive_of_not_injected (h : call.kind?.bind machine.injected? = none) :
    machine.receive call serve = serve (machine.recorded call) := by
  rw [receive, h]

end

/-- A failure that was ordered changes the record alone, and otherwise the call is served after it was recorded. -/
theorem receive_eq {α : Type} (machine : Machine) (call : Call) (serve : Machine → Outcome KernelCode α × Machine) :
    (∃ code, call.kind?.bind machine.injected? = some code ∧
      machine.receive call serve = (.failed code, machine.recorded call)) ∨
    (call.kind?.bind machine.injected? = none ∧ machine.receive call serve = serve (machine.recorded call)) := by
  cases h : call.kind?.bind machine.injected? with
  | some code => exact Or.inl ⟨code, rfl, receive_of_injected h⟩
  | none => exact Or.inr ⟨rfl, receive_of_not_injected h⟩

theorem follows_receive {α : Type} {serve : Machine → Outcome KernelCode α × Machine}
    (hserve : ∀ machine : Machine, machine.Follows (serve machine).2) (machine : Machine) (call : Call) :
    machine.Follows (machine.receive call serve).2 := by
  rcases receive_eq machine call serve with ⟨_, -, h⟩ | ⟨-, h⟩
  · rw [h]
    exact follows_recorded machine call
  · rw [h]
    exact (follows_recorded machine call).trans (hserve _)

theorem follows_alter (change : Space → Outcome KernelCode Space) (machine : Machine) :
    machine.Follows (alter change machine).2 := by
  unfold alter
  split <;> exact ⟨fun _ => Nat.le_refl _, rfl, rfl, rfl, rfl, Or.inl rfl⟩

theorem follows_allocatePages (placement : Placement) (size : Nat) (machine : Machine) :
    machine.Follows (allocatePages placement size machine).2 := by
  have hdivert : machine.Follows (machine.divert placement).2 := by
    cases placement with
    | anywhere => exact Follows.refl machine
    | fixed address => exact ⟨fun _ => Nat.le_refl _, rfl, rfl, rfl, rfl, Or.inr rfl⟩
  refine hdivert.trans ?_
  unfold allocatePages
  simp only
  split <;> exact ⟨fun _ => Nat.le_refl _, rfl, rfl, rfl, rfl, Or.inl rfl⟩

theorem follows_serve (request : Request) (machine : Machine) : machine.Follows (serve request machine).2 := by
  cases request with
  | currentThread | release _ => exact Follows.refl machine
  | flush address size => exact follows_recorded machine _
  | region _ | read _ _ | threads | suspend _ | resume _ => exact follows_receive Follows.refl machine _
  | deallocate _ _ | protect _ _ _ | copy _ _ _ | write _ _ => exact follows_receive (follows_alter _) machine _
  | allocate placement size =>
    refine follows_receive (fun machine => ?_) machine _
    split
    · exact Follows.refl machine
    · exact follows_allocatePages placement _ machine

end Machine

namespace Machine

/-! ## What a request leaves behind in the record -/

section

variable {α β : Type} {f : Machine → β}

/-- What is not changed by serving a call is only changed by recording it. -/
theorem receive_recorded {serve : Machine → Outcome KernelCode α × Machine} (hserve : ∀ machine, f (serve machine).2 = f machine)
    (machine : Machine) (call : Call) : f (machine.receive call serve).2 = f (machine.recorded call) := by
  rcases receive_eq machine call serve with ⟨_, -, h⟩ | ⟨-, h⟩
  · rw [h]
  · rw [h, hserve]

/-- What is not in the memory is not changed with it. -/
theorem alter_eq (hspace : ∀ (machine : Machine) space, f { machine with space := space } = f machine)
    (change : Space → Outcome KernelCode Space) (machine : Machine) : f (alter change machine).2 = f machine := by
  unfold alter
  split
  · exact hspace machine _
  · rfl
  · rfl

/-- What is not in the memory and not in the diversion is only changed by recording the call. -/
theorem serve_recorded (hspace : ∀ (machine : Machine) space, f { machine with space := space } = f machine)
    (hdiversion : ∀ machine : Machine, f { machine with diversion := none } = f machine) (request : Request)
    (machine : Machine) : f (serve request machine).2 = f ((Call.ofRequest? request).elim machine machine.recorded) := by
  cases request with
  | currentThread | release _ | flush _ _ => rfl
  | region _ | read _ _ | threads | suspend _ | resume _ => exact receive_recorded (fun _ => rfl) machine _
  | deallocate _ _ | protect _ _ _ | copy _ _ _ | write _ _ => exact receive_recorded (alter_eq hspace _) machine _
  | allocate placement size =>
    refine receive_recorded (fun machine => ?_) machine _
    have hdivert : f (machine.divert placement).2 = f machine := by
      cases placement with
      | anywhere => rfl
      | fixed address => exact hdiversion machine
    split
    · rfl
    · unfold allocatePages
      dsimp only
      split
      · exact (hspace _ _).trans hdivert
      · exact hdivert
      · exact hdivert

end

/-- The threads are not changed by any request. -/
theorem threads_serve (request : Request) (machine : Machine) : (serve request machine).2.threads = machine.threads := by
  rw [serve_recorded (f := Machine.threads) (fun _ _ => rfl) (fun _ => rfl)]
  cases Call.ofRequest? request <;> rfl

/-- Only an allocation at a fixed address uses a diversion up. -/
theorem diversion_serve (request : Request) (machine : Machine) :
    (serve request machine).2.diversion = machine.diversion ∨
      ((serve request machine).2.diversion = none ∧ ∃ address size, request = .allocate (.fixed address) size) := by
  cases request with
  | currentThread | release _ | flush _ _ => exact Or.inl rfl
  | region _ | read _ _ | threads | suspend _ | resume _ => exact Or.inl (receive_recorded (fun _ => rfl) machine _)
  | deallocate _ _ | protect _ _ _ | copy _ _ _ | write _ _ => exact Or.inl (receive_recorded (alter_eq (fun _ _ => rfl) _) machine _)
  | allocate placement size =>
    cases placement with
    | fixed address =>
      exact (follows_serve (.allocate (.fixed address) size) machine).diversion.imp_right fun hnone => ⟨hnone, address, size, rfl⟩
    | anywhere =>
      refine Or.inl (receive_recorded (fun machine => ?_) machine _)
      split
      · rfl
      · simp only [allocatePages, divert]
        split <;> rfl

end Machine

namespace Testbed

/-- The second test bed is the first one some requests later, if the threads and the memory are left out. -/
structure Follows (bed bed' : Testbed) : Prop where
  machine : bed.machine.Follows bed'.machine
  distortions : bed'.distortions = bed.distortions
  pageSize : bed'.pageSize = bed.pageSize
  imageBase : bed'.imageBase = bed.imageBase

/-- The second test bed is the first one some requests later, with the same memory. -/
structure Still (bed bed' : Testbed) : Prop extends Follows bed bed' where
  space : bed'.machine.space = bed.machine.space

/-- No failure is left to come, and no read to be spoilt. -/
structure Quiet (bed : Testbed) : Prop where
  injections : ∀ injection ∈ bed.machine.injections, injection.index < bed.machine.counts injection.kind
  distortions : ∀ distortion ∈ bed.distortions, distortion.read < bed.machine.counts .read

variable {bed bed' bed'' : Testbed}

theorem Follows.refl (bed : Testbed) : bed.Follows bed := ⟨Machine.Follows.refl _, rfl, rfl, rfl⟩

theorem Follows.trans (h : bed.Follows bed') (h' : bed'.Follows bed'') : bed.Follows bed'' :=
  ⟨h.machine.trans h'.machine, h'.distortions.trans h.distortions, h'.pageSize.trans h.pageSize,
    h'.imageBase.trans h.imageBase⟩

/-- Without a pending diversion there never is one. -/
theorem Follows.undiverted (h : bed.Follows bed') (hd : bed.machine.diversion = none) : bed'.machine.diversion = none := by
  rcases h.machine.diversion with h | h
  · exact h.trans hd
  · exact h

theorem Still.refl (bed : Testbed) : bed.Still bed := ⟨Follows.refl bed, rfl⟩

theorem Still.trans (h : bed.Still bed') (h' : bed'.Still bed'') : bed.Still bed'' :=
  ⟨h.toFollows.trans h'.toFollows, h'.space.trans h.space⟩

theorem Quiet.follows (h : bed.Quiet) (h' : bed.Follows bed') : bed'.Quiet := by
  constructor
  · intro injection hi
    rw [h'.machine.injections] at hi
    exact Nat.lt_of_lt_of_le (h.injections injection hi) (h'.machine.counts _)
  · intro distortion hd
    rw [h'.distortions] at hd
    exact Nat.lt_of_lt_of_le (h.distortions distortion hd) (h'.machine.counts _)

/-- On a quiet test bed no call is made to fail. -/
theorem Quiet.injected?_eq_none (h : bed.Quiet) (kind : CallKind) : bed.machine.injected? kind = none := by
  rw [Machine.injected?, Option.map_eq_none_iff, List.find?_eq_none]
  intro injection hi
  have := h.injections injection hi
  simp only [decide_eq_true_eq, not_and]
  rintro rfl
  exact Nat.ne_of_lt this

/-- On a quiet test bed no read is spoilt. -/
theorem Quiet.spoil_eq (h : bed.Quiet) (bytes : Bytes) :
    spoil bed.distortions (bed.machine.counts .read) bytes = bytes := by
  have hnone : bed.distortions.filter (fun rule => decide (rule.read = bed.machine.counts .read)) = [] := by
    rw [List.filter_eq_nil_iff]
    intro rule hrule
    have := h.distortions rule hrule
    simp only [decide_eq_true_eq]
    lia
  simp [spoil, hnone]

theorem follows_following {α : Type} {answer : α × Machine} (h : bed.machine.Follows answer.2) :
    bed.Follows (bed.following answer).2 := ⟨h, rfl, rfl, rfl⟩

/-- Taking the next thread table changes the threads alone. -/
theorem still_advance (bed : Testbed) : bed.Still bed.advance := by
  unfold advance
  split
  · exact Still.refl bed
  · exact ⟨⟨⟨fun _ => Nat.le_refl _, rfl, rfl, rfl, rfl, Or.inl rfl⟩, rfl, rfl, rfl⟩, rfl⟩

/-- The thread script advances with the lists of threads alone. -/
theorem serve_eq {request : Request} (h : request ≠ .threads) (bed : Testbed) :
    (Kernel.serve request bed).2 = { bed with machine := (Machine.serve request bed.machine).2 } := by
  cases request with
  | threads => exact absurd rfl h
  | _ => rfl

/-- A request for the threads only has its call recorded, and fails if that was ordered. -/
theorem serve_threads (bed : Testbed) : Kernel.serve .threads bed =
    (some (match bed.machine.injected? .threads with
      | some code => .error code
      | none => .ok { threads := bed.advance.machine.threads, held := false }),
    { bed.advance with machine := bed.advance.machine.recorded .threads }) := by
  have hinjected : bed.advance.machine.injected? .threads = bed.machine.injected? .threads := by
    unfold advance
    split <;> rfl
  have hserve : Kernel.serve .threads bed = bed.advance.following (Machine.reply bed.advance.machine.listThreads) := rfl
  rw [hserve, Machine.listThreads, Machine.receive, Call.kind?, Option.bind_some, hinjected]
  cases bed.machine.injected? .threads with
  | none => rfl
  | some code => rfl

/-- What is not in the memory, in the diversion or in the threads is only changed by recording the call. -/
theorem serve_recorded {α : Type} {f : Machine → α}
    (hspace : ∀ (machine : Machine) space, f { machine with space := space } = f machine)
    (hdiversion : ∀ machine : Machine, f { machine with diversion := none } = f machine)
    (hthreads : ∀ (machine : Machine) threads, f { machine with threads := threads } = f machine) (request : Request)
    (bed : Testbed) :
    f (Kernel.serve request bed).2.machine = f ((Call.ofRequest? request).elim bed.machine bed.machine.recorded) := by
  by_cases h : request = .threads
  · subst h
    have hadvance : f (bed.advance.machine.recorded .threads) = f (bed.machine.recorded .threads) := by
      unfold advance
      split
      · rfl
      · exact hthreads (bed.machine.recorded .threads) _
    exact (Machine.serve_recorded hspace hdiversion .threads bed.advance.machine).trans hadvance
  · rw [serve_eq h]
    exact Machine.serve_recorded hspace hdiversion request bed.machine

/-- Serving a request keeps the conditions. -/
theorem follows_serve (request : Request) (bed : Testbed) : bed.Follows (Kernel.serve request bed).2 := by
  have hmachine : ∀ bed : Testbed, bed.Follows (bed.following (Machine.serve request bed.machine)).2 := fun bed =>
    follows_following (Machine.follows_serve request bed.machine)
  cases request with
  | threads => exact (still_advance bed).toFollows.trans (hmachine bed.advance)
  | currentThread | release _ | flush _ _ | region _ | read _ _ | suspend _ | resume _ | deallocate _ _ | protect _ _ _
  | copy _ _ _ | write _ _ | allocate _ _ => exact hmachine bed

/-- Running a program keeps the conditions, however it ends. -/
theorem follows_run {ε α : Type} (x : Program ε α) (world : World Testbed) : world.kernel.Follows (x.run world).2.kernel := by
  induction x generalizing world with
  | done | failed | crashed => exact Follows.refl world.kernel
  | emit event next ih => exact ih { world with journal := world.journal.push event }
  | ask request next ih =>
    have hserve := follows_serve request world.kernel
    rw [Program.run]
    rcases h : Kernel.serve request world.kernel with ⟨_ | reply, bed⟩
    · rw [h] at hserve
      exact hserve
    · rw [h] at hserve
      exact hserve.trans (ih reply { world with kernel := bed })

end Testbed

end LivePatch
