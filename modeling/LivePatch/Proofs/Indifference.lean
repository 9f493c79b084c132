import LivePatch.Proofs.Engine.Preparation
import LivePatch.Proofs.Engine.Tolerance
import LivePatch.Proofs.Session.History
import LivePatch.Proofs.Session.Keeping

/-!
# Threads do not matter in tolerant mode

Two sessions prepare, patch, guard and release, and tolerate refused suspensions. If their test beds differ in nothing but
threads at the start, they do so at the end of each command: the answers are the same, the memory is, and so are the calls but
for those that ask a single thread to stop or to go on. What threads there are, which of them runs the engine and which ones
refuse never decides anything.
-/

namespace LivePatch

/-- The test beds are the same but for their threads and for what is on their records already. -/
structure Testbed.DiffersInThreads (bed bed' : Testbed) : Prop where
  space : bed.machine.space = bed'.machine.space
  counts : bed.machine.counts = bed'.machine.counts
  injections : bed.machine.injections = bed'.machine.injections
  diversion : bed.machine.diversion = bed'.machine.diversion
  distortions : bed.distortions = bed'.distortions
  pageSize : bed.pageSize = bed'.pageSize
  imageBase : bed.imageBase = bed'.imageBase

namespace Testbed

variable {bed bed' : Testbed} {n n' : Nat}

/-- Test beds that are alike differ in threads only. -/
theorem Alike.differsInThreads (h : Alike n n' bed bed') : bed.DiffersInThreads bed' := by
  have hfield : ∀ {α : Type} (field : Testbed → α), field (bed.unthreaded n) = field (bed'.unthreaded n') := fun field => by
    rw [h.unthreaded]
  exact {
    space := hfield (·.machine.space)
    counts := hfield (·.machine.counts)
    injections := hfield (·.machine.injections)
    diversion := hfield (·.machine.diversion)
    distortions := hfield (·.distortions)
    pageSize := hfield (·.pageSize)
    imageBase := hfield (·.imageBase) }

/-- Test beds that differ in threads only are alike from now on. -/
theorem DiffersInThreads.alike (h : bed.DiffersInThreads bed') :
    Alike bed.machine.calls.size bed'.machine.calls.size bed bed' := by
  have hnone : ∀ machine : Machine, machine.commonCalls machine.calls.size = #[] := fun machine => by
    rw [Machine.commonCalls, Array.extract_empty_of_size_le_start (Nat.le_refl _)]
    rfl
  refine ⟨Nat.le_refl _, Nat.le_refl _, ?_⟩
  rw [unthreaded, unthreaded, Machine.unthreaded, Machine.unthreaded, hnone, hnone, h.space, h.counts, h.injections,
    h.diversion, h.distortions, h.pageSize, h.imageBase]

end Testbed

namespace Session

/-- A preparation that tolerates refusals, or what is done with its image and its guards. -/
inductive Command.Tolerant : Command → Prop where
  | prepare (config : Config) (h : config.strictThreads = false) : Tolerant (.operate (.prepare config))
  | patch (image : Nat) (target : Address) (bytes : Bytes) : Tolerant (.operate (.patch image target bytes))
  | guard (image : Nat) (name : String) (target : Address) (bytes : Bytes) : Tolerant (.operate (.guard image name target bytes))
  | release (name : String) : Tolerant (.operate (.release name))

/-- The moments have the same answer, the same calls but for those that ask a single thread for something, and leave test beds
that differ in threads only, so with the same memory. -/
structure SameButThreads (moment moment' : Moment) : Prop where
  answer : moment.1.answer = moment'.1.answer
  calls : moment.1.calls.filter (fun call => !call.ofThread) = moment'.1.calls.filter fun call => !call.ofThread
  kernels : moment.2.world.kernel.DiffersInThreads moment'.2.world.kernel

namespace State

/-- The sessions have prepared and patched the same, and all their images are tolerant. -/
structure Sharing (state state' : State Testbed) : Prop where
  host : state.host = state'.host
  attempted : state.attempted = state'.attempted
  images : state.images = state'.images
  guards : state.guards = state'.guards
  tolerant : state.Keeps (·.config.strictThreads = false)

/-- Sharing sessions whose test beds are alike. -/
structure Twins (n n' : Nat) (state state' : State Testbed) : Prop extends Sharing state state' where
  alike : Testbed.Alike n n' state.world.kernel state'.world.kernel

/-- Both sessions answer the same, and are twins again. -/
def TwinOutcomes (n n' : Nat) (outcome outcome' : Answer × State Testbed) : Prop :=
  outcome.1 = outcome'.1 ∧ Twins n n' outcome.2 outcome'.2

variable {n n' : Nat} {state state' : State Testbed}

theorem Twins.withWorld {world world' : World Testbed} (h : Twins n n' state state')
    (halike : Testbed.Alike n n' world.kernel world'.kernel) :
    Twins n n' { state with world := world } { state' with world := world' } :=
  ⟨⟨h.host, h.attempted, h.images, h.guards, h.tolerant.withWorld world⟩, halike⟩

/-- A program that agrees with itself is performed alike, if its value is kept so. -/
theorem Twins.perform {α : Type} {x x' : Engine α} {keep keep' : α → State Testbed → Answer × State Testbed}
    (h : Twins n n' state state') (hx : Program.Agree Eq x x) (hsame : x' = x)
    (hkeep : ∀ value world world', x.run state.world = (.done value, world) →
      Twins n n' { state with world := world } { state' with world := world' } →
        TwinOutcomes n n' (keep value { state with world := world }) (keep' value { state' with world := world' })) :
    TwinOutcomes n n' (state.perform x keep) (state'.perform x' keep') := by
  subst hsame
  obtain ⟨hmatches, hafter⟩ := hx h.alike
  have houtcome := hmatches.eq
  rw [State.perform, State.perform]
  rcases hrun : x'.run state.world with ⟨outcome, world⟩
  rcases hrun' : x'.run state'.world with ⟨outcome', world'⟩
  rw [hrun, hrun'] at hafter houtcome
  cases houtcome
  have htwins := h.withWorld hafter
  cases outcome with
  | done value => exact hkeep value world world' hrun htwins
  | failed error => exact ⟨rfl, htwins⟩
  | crashed => exact ⟨rfl, htwins⟩

/-- Both sessions hold the same guards, whatever is done to these. -/
theorem Twins.withGuards (h : Twins n n' state state') (guards : Registry Guard)
    (hguards : ∀ entry ∈ guards, entry.2.image.config.strictThreads = false) :
    Twins n n' { state with guards := guards } { state' with guards := guards } :=
  ⟨⟨h.host, h.attempted, h.images, rfl, h.tolerant.images, hguards⟩, h.alike⟩

theorem Twins.release (h : Twins n n' state state') (name : String) (answer : Answer) :
    TwinOutcomes n n' (state.release name answer) (state'.release name answer) := by
  rw [State.release, State.release, ← h.guards]
  cases hguard : state.guards.get? name with
  | none => exact ⟨rfl, h⟩
  | some guard =>
    have hless := h.withGuards (state.guards.erase name) (h.tolerant.erase name).guards
    exact hless.perform (agree_release (h.tolerant.guard hguard)) (by rw [h.host]) fun _ _ _ _ htwins => ⟨rfl, htwins⟩

theorem Twins.keepGuard {guard : Guard} (h : Twins n n' state state') (hguard : guard.image.config.strictThreads = false)
    (name : String) : TwinOutcomes n n' (state.keepGuard name guard) (state'.keepGuard name guard) := by
  have hmore := h.withGuards (state.guards.put name guard) (h.tolerant.put hguard name).guards
  rw [State.keepGuard, State.keepGuard, ← h.guards]
  cases hold : state.guards.get? name with
  | none => exact ⟨rfl, hmore⟩
  | some old =>
    exact hmore.perform (agree_release (h.tolerant.guard hold)) (by rw [h.host]) fun _ _ _ _ htwins => ⟨rfl, htwins⟩

/-- A tolerant command is taken alike. -/
theorem Twins.take {command : Command} (h : Twins n n' state state') (hcommand : command.Tolerant) :
    TwinOutcomes n n' (state.take command) (state'.take command) := by
  cases hcommand with
  | prepare config htolerant =>
    have hbeds := h.alike.differsInThreads
    have hbase : Kernel.imageBase state'.world.kernel = Kernel.imageBase state.world.kernel := hbeds.imageBase.symm
    have hsize : Kernel.pageSize state'.world.kernel = Kernel.pageSize state.world.kernel := hbeds.pageSize.symm
    have hattempt : Twins n n' { state with attempted := true } { state' with attempted := true } :=
      ⟨⟨h.host, rfl, h.images, h.guards, h.tolerant.images, h.tolerant.guards⟩, h.alike⟩
    refine hattempt.perform (agree_prepare htolerant) (by rw [h.host, h.attempted, hbase, hsize])
      fun image world world' hrun htwins => ⟨rfl, ?_⟩
    obtain ⟨_, _, _, _, -, -, rfl⟩ := Image.exists_of_prepare hrun
    exact ⟨⟨h.host, rfl, congrArg (Array.push · _) h.images, h.guards, htwins.tolerant.push htolerant⟩, htwins.alike⟩
  | patch i target bytes =>
    rw [State.take, State.take, operate, operate, ← h.images]
    cases hi : state.images[i]? with
    | none => exact ⟨rfl, h⟩
    | some image =>
      exact h.perform (agree_patch (h.tolerant.image hi)) (by rw [h.host]) fun _ _ _ _ htwins => ⟨rfl, htwins⟩
  | guard i name target bytes =>
    rw [State.take, State.take, operate, operate, ← h.images]
    cases hi : state.images[i]? with
    | none => exact ⟨rfl, h⟩
    | some image =>
      refine h.perform (agree_guardedPatch (h.tolerant.image hi)) (by rw [h.host])
        fun guard _ _ hrun htwins => htwins.keepGuard ?_ name
      rw [Image.image_of_guardedPatch hrun]
      exact h.tolerant.image hi
  | release name => exact h.release name .nothing

/-- What twins come to is the same but for threads, and they are twins from there on. -/
theorem TwinOutcomes.abreast {rest : List Command} {outcome outcome' : Answer × State Testbed}
    (h : TwinOutcomes state.world.kernel.machine.calls.size state'.world.kernel.machine.calls.size outcome outcome')
    (hrest : ∀ command ∈ rest, command.Tolerant) :
    Abreast (fun state state' => Twins state.world.kernel.machine.calls.size state'.world.kernel.machine.calls.size state state' ∧
        ∀ command ∈ rest, command.Tolerant) SameButThreads state state' outcome outcome' := by
  obtain ⟨hanswer, htwins⟩ := h
  have hbeds := htwins.alike.differsInThreads
  have hcommon : outcome.2.world.kernel.machine.commonCalls state.world.kernel.machine.calls.size =
      outcome'.2.world.kernel.machine.commonCalls state'.world.kernel.machine.calls.size :=
    congrArg (·.machine.calls) htwins.alike.unthreaded
  refine ⟨⟨hanswer, ?_, hbeds⟩, by rw [hanswer], fun _ => ⟨⟨htwins.toSharing, hbeds.alike⟩, hrest⟩⟩
  have hlists := congrArg Array.toList hcommon
  rw [Machine.commonCalls, Machine.commonCalls, Array.toList_filter, Array.toList_filter] at hlists
  exact hlists

end State

/-- Sessions that prepare, patch, guard and release in tolerant mode and differ in threads only go the same but for threads. -/
theorem State.indifferent_to_threads {state state' : State Testbed} {commands : List Command}
    (hbeds : state.world.kernel.DiffersInThreads state'.world.kernel) (hsharing : state.Sharing state')
    (hcommands : ∀ command ∈ commands, command.Tolerant) :
    List.Forall₂ SameButThreads (state.history State.take commands) (state'.history State.take commands) := by
  refine State.forall₂_history
    (R := fun commands state state' =>
      State.Twins state.world.kernel.machine.calls.size state'.world.kernel.machine.calls.size state state' ∧
        ∀ command ∈ commands, command.Tolerant)
    (fun h => by rw [h.1.guards]) (fun name _ _ h => (h.1.release name _).abreast h.2) (fun command rest _ _ h => ?_)
    ⟨⟨hsharing, hbeds.alike⟩, hcommands⟩
  obtain ⟨htwins, htolerant⟩ := h
  rw [List.forall_mem_cons] at htolerant
  exact (htwins.take htolerant.1).abreast htolerant.2

/-- A process with one thread, and one with three of which the others refuse what they are asked. -/
theorem State.indifferent_to_threads_threePages : ∃ state state' : State Testbed,
    state.world.kernel.machine.threads = [1] ∧ state'.world.kernel.machine.threads = [7, 8, 9] ∧
      state'.world.kernel.machine.suspendRefusals = [7, 9] ∧
      List.Forall₂ SameButThreads
        (state.history State.take [.operate (.prepare {}), .operate (.guard 0 "g" Space.imageBase #[0xcc]),
          .operate (.patch 0 Space.imageBase #[0x90]), .operate (.release "g")])
        (state'.history State.take [.operate (.prepare {}), .operate (.guard 0 "g" Space.imageBase #[0xcc]),
          .operate (.patch 0 Space.imageBase #[0x90]), .operate (.release "g")]) := by
  let machine : Machine := { Testbed.threePages.machine with
    threads := [7, 8, 9], caller := 8, suspendRefusals := [7, 9], resumeRefusals := [9] }
  let state : State Testbed := { world := { kernel := .threePages } }
  let state' : State Testbed := { world := { kernel := { Testbed.threePages with machine := machine, script := [[8], [9, 8]] } } }
  have hsharing : state.Sharing state' := ⟨rfl, rfl, rfl, rfl, nofun, nofun⟩
  have hbeds : state.world.kernel.DiffersInThreads state'.world.kernel := ⟨rfl, rfl, rfl, rfl, rfl, rfl, rfl⟩
  refine ⟨state, state', rfl, rfl, rfl, State.indifferent_to_threads hbeds hsharing fun command hcommand => ?_⟩
  simp only [List.mem_cons, List.not_mem_nil, or_false] at hcommand
  rcases hcommand with rfl | rfl | rfl | rfl
  · exact .prepare _ rfl
  · exact .guard _ _ _ _
  · exact .patch _ _ _
  · exact .release _

end Session

end LivePatch
