import LivePatch.Proofs.Engine.Transcript
import LivePatch.Proofs.Simulation.Service

/-!
# The memory that a transcript leads to

The memory of a test bed changes only through served requests, and a served request does to it what the address space does. So
the transcript of a run tells what became of the memory: `Space.Evolves` follows it from exchange to exchange.
-/

namespace LivePatch

namespace Space

/-- What an exchange makes of a space. An allocation may have been diverted, and its size was rounded. -/
def Takes (space : Space) : Exchange → Space → Prop
  | ⟨.allocate _ size, .ok base⟩, next =>
    ∃ placement rounded, roundUp size = some rounded ∧ space.allocate placement rounded = .done (base, next)
  | ⟨.deallocate address size, .ok ()⟩, next => space.deallocate address size = .done next
  | ⟨.protect address size protection, .ok ()⟩, next => space.protect address size protection = .done next
  | ⟨.copy source size destination, .ok ()⟩, next => space.copy source size destination = .done next
  | ⟨.write address bytes, .ok ()⟩, next => space.store address bytes = .done next
  | _, next => next = space

/-- What exchanges make of a space, one after the other. -/
def Evolves (space : Space) : List Exchange → Space → Prop
  | [], final => final = space
  | e :: es, final => ∃ next, space.Takes e next ∧ next.Evolves es final

variable {space final : Space} {e : Exchange} {es es' : List Exchange}

@[simp] theorem evolves_nil : space.Evolves [] final ↔ final = space := Iff.rfl

@[simp] theorem evolves_cons : space.Evolves (e :: es) final ↔ ∃ next, space.Takes e next ∧ next.Evolves es final := Iff.rfl

theorem evolves_append : space.Evolves (es ++ es') final ↔ ∃ next, space.Evolves es next ∧ next.Evolves es' final := by
  induction es generalizing space with
  | nil => simp
  | cons e es ih =>
    simp only [List.cons_append, evolves_cons, ih]
    constructor
    · rintro ⟨first, hfirst, next, hnext, hfinal⟩
      exact ⟨next, ⟨first, hfirst, hnext⟩, hfinal⟩
    · rintro ⟨next, ⟨first, hfirst, hnext⟩, hfinal⟩
      exact ⟨first, hfirst, next, hnext, hfinal⟩

/-- Idle requests leave the memory as it is, whatever came back. -/
theorem Takes.eq_of_idle (h : space.Takes e final) (he : e.request.Idle) : final = space := by
  obtain ⟨request, reply⟩ := e
  cases request with
  | region _ | read _ _ | threads | currentThread | release _ | suspend _ | resume _ => exact h
  | allocate _ _ | deallocate _ _ | protect _ _ _ | copy _ _ _ | write _ _ | flush _ _ => exact he.elim

theorem Evolves.eq_of_idle (h : space.Evolves es final) (hes : ∀ e ∈ es, e.request.Idle) : final = space := by
  induction es generalizing space with
  | nil => exact h
  | cons e es ih =>
    obtain ⟨next, hnext, hfinal⟩ := h
    rw [List.forall_mem_cons] at hes
    cases hnext.eq_of_idle hes.1
    exact ih hfinal hes.2

end Space

namespace Machine

/-- What can come of a request, and the memory after it: a reply as `P` says, or a crash and the memory as it was. -/
def Answers {β : Type} (machine : Machine) (answer : Option β × Machine) (P : β → Space → Prop) : Prop :=
  (∀ reply, answer.1 = some reply → P reply answer.2.space) ∧ (answer.1 = none → answer.2.space = machine.space)

/-- A change that is served is the change of the address space, and one that fails leaves the memory as it was. -/
theorem answers_alter (machine : Machine) (call : Call) (change : Space → Outcome KernelCode Space)
    (P : Except KernelCode Unit → Space → Prop) (hdone : ∀ next, change machine.space = .done next → P (.ok ()) next)
    (hfail : ∀ code, P (.error code) machine.space) :
    machine.Answers (reply (machine.receive call (alter change))) P := by
  rcases receive_eq machine call (alter change) with ⟨code, -, h⟩ | ⟨-, h⟩
  · rw [h]
    exact ⟨fun _ hreply => Option.some.inj hreply ▸ hfail code, fun _ => rfl⟩
  · rw [h, alter]
    have hspace : (machine.recorded call).space = machine.space := rfl
    rw [hspace]
    rcases hchange : change machine.space with next | code | _
    · exact ⟨fun _ hreply => Option.some.inj hreply ▸ hdone next hchange, nofun⟩
    · exact ⟨fun _ hreply => Option.some.inj hreply ▸ hfail code, fun _ => rfl⟩
    · exact ⟨nofun, fun _ => rfl⟩

/-- Memory that is mapped is where the address space maps it, or where that was diverted to, and a request that fails maps nothing. -/
theorem answers_allocate (machine : Machine) (placement : Placement) (size : Nat) :
    machine.Answers (reply (machine.allocate placement size)) fun result next => match result with
      | .ok base => ∃ rounded, Space.roundUp size = some rounded ∧
          machine.space.allocate (machine.divert placement).1 rounded = .done (base, next)
      | .error _ => next = machine.space := by
  have hdivert : ∀ m : Machine, (m.divert placement).2.space = m.space := fun m => by cases placement <;> rfl
  have hplacement : ((machine.recorded (.allocate placement size)).divert placement).1 = (machine.divert placement).1 := by
    cases placement <;> rfl
  rw [allocate]
  rcases receive_eq machine (.allocate placement size) _ with ⟨code, -, h⟩ | ⟨-, h⟩
  · rw [h]
    exact ⟨fun _ hreply => Option.some.inj hreply ▸ rfl, fun _ => rfl⟩
  · rw [h]
    cases hround : Space.roundUp size with
    | none => exact ⟨by rintro _ ⟨⟩, fun _ => rfl⟩
    | some rounded =>
      have hspace : (machine.recorded (.allocate placement size)).space = machine.space := rfl
      simp only [allocatePages, hdivert, hplacement, hspace]
      rcases halloc : machine.space.allocate (machine.divert placement).1 rounded with ⟨base, next⟩ | code | _
      · exact ⟨fun _ hreply => Option.some.inj hreply ▸ ⟨rounded, rfl, halloc⟩, by rintro ⟨⟩⟩
      · exact ⟨fun _ hreply => Option.some.inj hreply ▸ hdivert _, by rintro ⟨⟩⟩
      · exact ⟨by rintro _ ⟨⟩, fun _ => hdivert _⟩

/-- What goes to a fixed address goes there, or where it was diverted to. -/
theorem fixed_of_divert {machine : Machine} {address actual : Address}
    (h : (machine.divert (.fixed address)).1 = .fixed actual) : actual = address ∨ actual ∈ machine.diversion := by
  have hplace : machine.diversion.getD address = actual := Placement.fixed.inj h
  cases hdiversion : machine.diversion with
  | none =>
    rw [hdiversion, Option.getD_none] at hplace
    exact Or.inl hplace.symm
  | some diverted =>
    rw [hdiversion, Option.getD_some] at hplace
    exact Or.inr (congrArg some hplace)

/-- A call that does nothing to the memory leaves it as it is, also if it was made to fail. -/
theorem space_receive {α : Type} (machine : Machine) (call : Call) {serve : Machine → Outcome KernelCode α × Machine}
    (hserve : ∀ machine, (serve machine).2.space = machine.space) :
    (machine.receive call serve).2.space = machine.space :=
  receive_recorded hserve machine call

end Machine

namespace Testbed

/-- Idle requests leave the memory as it is. -/
theorem space_serve_of_idle (bed : Testbed) (request : Request) (h : request.Idle) :
    (Kernel.serve request bed).2.machine.space = bed.machine.space := by
  cases request with
  | currentThread | release _ => rfl
  | threads => exact (Machine.space_receive _ _ fun _ => rfl).trans (still_advance bed).space
  | region _ | read _ _ | suspend _ | resume _ => exact Machine.space_receive _ _ fun _ => rfl
  | allocate _ _ | deallocate _ _ | protect _ _ _ | copy _ _ _ | write _ _ | flush _ _ => exact h.elim

/-- What a test bed serves, it does to its memory; a request that crashes leaves the memory alone. -/
theorem takes_serve (bed : Testbed) (request : Request) :
    (∀ reply, (Kernel.serve request bed).1 = some reply →
      bed.machine.space.Takes ⟨request, reply⟩ (Kernel.serve request bed).2.machine.space) ∧
    ((Kernel.serve request bed).1 = none → (Kernel.serve request bed).2.machine.space = bed.machine.space) := by
  have halter := Machine.answers_alter bed.machine
  cases request with
  | allocate placement size =>
    obtain ⟨hanswer, hnone⟩ := Machine.answers_allocate bed.machine placement size
    refine ⟨fun reply hreply => ?_, hnone⟩
    have hnext := hanswer reply hreply
    cases reply with
    | ok base => exact ⟨_, hnext⟩
    | error code => exact hnext
  | deallocate a n => exact halter _ _ (fun reply => Space.Takes _ ⟨.deallocate a n, reply⟩) (fun _ h => h) fun _ => rfl
  | protect a n p => exact halter _ _ (fun reply => Space.Takes _ ⟨.protect a n p, reply⟩) (fun _ h => h) fun _ => rfl
  | copy s n d => exact halter _ _ (fun reply => Space.Takes _ ⟨.copy s n d, reply⟩) (fun _ h => h) fun _ => rfl
  | write a bytes => exact halter _ _ (fun reply => Space.Takes _ ⟨.write a bytes, reply⟩) (fun _ h => h) fun _ => rfl
  | flush a n => exact ⟨fun _ _ => rfl, fun _ => rfl⟩
  | region _ | read _ _ | threads | currentThread | release _ | suspend _ | resume _ =>
    exact ⟨fun _ _ => space_serve_of_idle bed _ (by trivial), fun _ => space_serve_of_idle bed _ (by trivial)⟩

/-- A region that is reported is one of the memory. -/
theorem region_of_serve {bed : Testbed} {a : Address} {region : Region}
    (h : (Kernel.serve (.region a) bed).1 = some (.ok region)) : bed.machine.space.region a = .done region := by
  have hanswer : (bed.machine.region a).1.toExcept? = some (.ok region) := h
  rw [Machine.region] at hanswer
  rcases Machine.receive_eq bed.machine (.region a) _ with ⟨code, -, hreceive⟩ | ⟨-, hreceive⟩
  · rw [hreceive] at hanswer
    cases hanswer
  · rw [hreceive] at hanswer
    exact Outcome.toExcept?_eq_some_ok_iff.1 hanswer

/-- A query that is not made to fail is answered as the memory is. -/
theorem serve_region {bed : Testbed} (h : bed.machine.injected? .region = none) (a : Address) :
    (Kernel.serve (.region a) bed).1 = (bed.machine.space.region a).toExcept? := by
  have hserve : (Kernel.serve (.region a) bed).1 = (bed.machine.region a).1.toExcept? := rfl
  have hregion : bed.machine.region a = (bed.machine.space.region a, bed.machine.recorded (.region a)) :=
    Machine.receive_of_not_injected h
  rw [hserve, hregion]

/-- The transcript of a run tells what became of the memory, however the run ends. -/
theorem evolves_run {ε α : Type} (x : Program ε α) (world : World Testbed) :
    world.kernel.machine.space.Evolves (x.exchanges world.kernel) (x.run world).2.kernel.machine.space := by
  induction x generalizing world with
  | done | failed | crashed => rfl
  | emit event next ih => exact ih { world with journal := world.journal.push event }
  | ask request next ih =>
    obtain ⟨hreply, hnone⟩ := takes_serve world.kernel request
    rw [Program.exchanges, Program.run]
    rcases hserve : Kernel.serve request world.kernel with ⟨_ | reply, kernel⟩
    · rw [hserve] at hnone
      exact hnone rfl
    · rw [hserve] at hreply
      exact ⟨_, hreply reply rfl, ih reply { world with kernel := kernel }⟩

/-! ## Transcripts that were served -/

variable {bed final : Testbed} {es : List Exchange}

/-- What a test bed served tells what became of its memory. -/
theorem evolves_served (h : Program.Served bed es final) : bed.machine.space.Evolves es final.machine.space := by
  induction es generalizing bed with
  | nil => exact congrArg (·.machine.space) h
  | cons e es ih =>
    obtain ⟨next, hserve, hes⟩ := h
    have htakes := (takes_serve bed e.request).1 e.reply (by rw [hserve])
    rw [hserve] at htakes
    exact ⟨next.machine.space, htakes, ih hes⟩

/-- The calling thread is always the same. -/
theorem caller_served (h : Program.Served bed es final) {thread : Thread} (hmem : ⟨.currentThread, thread⟩ ∈ es) :
    thread = bed.machine.caller := by
  induction es generalizing bed with
  | nil => cases hmem
  | cons e es ih =>
    obtain ⟨next, hserve, hes⟩ := h
    rcases List.mem_cons.1 hmem with rfl | hmem
    · cases hserve
      rfl
    · have hfollows := follows_serve e.request bed
      rw [hserve] at hfollows
      rw [ih hes hmem, hfollows.machine.caller]

/-- A diversion waits until memory is asked for at a fixed address. -/
theorem diversion_served (h : Program.Served bed es final)
    (hes : ∀ e ∈ es, ∀ address size, e.request ≠ .allocate (.fixed address) size) :
    final.machine.diversion = bed.machine.diversion := by
  have hserve : ∀ (request : Request) (bed : Testbed), (∀ address size, request ≠ .allocate (.fixed address) size) →
      (Kernel.serve request bed).2.machine.diversion = bed.machine.diversion := by
    intro request bed hrequest
    have hkept : ∀ machine : Machine, (Machine.serve request machine).2.diversion = machine.diversion := by
      intro machine
      rcases Machine.diversion_serve request machine with hsame | ⟨-, address, size, hfixed⟩
      · exact hsame
      · exact absurd hfixed (hrequest address size)
    by_cases hthreads : request = .threads
    · subst hthreads
      refine (hkept bed.advance.machine).trans ?_
      unfold advance
      split <;> rfl
    · rw [serve_eq hthreads]
      exact hkept bed.machine
  induction es generalizing bed with
  | nil => exact congrArg (·.machine.diversion) h
  | cons e es ih =>
    obtain ⟨next, hnext, hrest⟩ := h
    rw [List.forall_mem_cons] at hes
    have hsame := hserve e.request bed hes.1
    rw [hnext] at hsame
    exact (ih hrest hes.2).trans hsame

/-- What a test bed served is on its record, in that order. -/
theorem calls_served (h : Program.Served bed es final) :
    final.machine.calls = bed.machine.calls ++ (es.filterMap fun e => Call.ofRequest? e.request).toArray := by
  have hcalls : ∀ (request : Request) (bed : Testbed), (Kernel.serve request bed).2.machine.calls =
      bed.machine.calls ++ (Call.ofRequest? request).toList.toArray := by
    intro request bed
    rw [serve_recorded (f := Machine.calls) (fun _ _ => rfl) (fun _ => rfl) fun _ _ => rfl]
    cases Call.ofRequest? request with
    | none => simp
    | some call => simp [Machine.recorded]
  induction es generalizing bed with
  | nil =>
    cases h
    simp
  | cons e es ih =>
    obtain ⟨next, hserve, hes⟩ := h
    have hnext := hcalls e.request bed
    rw [hserve] at hnext
    rw [ih hes, hnext]
    cases hcall : Call.ofRequest? e.request <;> simp [hcall]

/-- Whether the next call of a kind is made to fail depends on the calls of that kind alone. -/
theorem injected?_served (h : Program.Served bed es final) {kind : CallKind}
    (hes : ∀ e ∈ es, (Call.ofRequest? e.request).bind Call.kind? ≠ some kind) :
    final.machine.injected? kind = bed.machine.injected? kind := by
  induction es generalizing bed with
  | nil =>
    cases h
    rfl
  | cons e es ih =>
    obtain ⟨next, hserve, hrest⟩ := h
    rw [List.forall_mem_cons] at hes
    have hnext := serve_recorded (f := (Machine.injected? · kind)) (fun _ _ => rfl) (fun _ => rfl) (fun _ _ => rfl) e.request bed
    rw [hserve] at hnext
    rw [ih hrest hes.2, hnext]
    cases hcall : Call.ofRequest? e.request with
    | none => rfl
    | some call =>
      rw [hcall, Option.bind_some] at hes
      simp [Machine.injected?, Machine.recorded, hes.1]

/-- The regions that idle requests report are mapped. -/
theorem mapped_of_served (h : Program.Served bed es final) (hes : ∀ e ∈ es, e.request.Idle) {a : Address} {region : Region}
    (hmem : ⟨.region a, .ok region⟩ ∈ es) : ∃ m ∈ bed.machine.space, region.base = m.base ∧ region.size = m.size := by
  induction es generalizing bed with
  | nil => cases hmem
  | cons e es ih =>
    obtain ⟨next, hserve, hrest⟩ := h
    rw [List.forall_mem_cons] at hes
    rcases List.mem_cons.1 hmem with rfl | hmem
    · exact Space.mem_of_region_eq_done (region_of_serve (by rw [hserve]))
    · have hspace := space_serve_of_idle bed e.request hes.1
      rw [hserve] at hspace
      exact hspace ▸ ih hrest hes.2 hmem

/-- Unmapping is refused if it is made to fail, or if the address space cannot do it. -/
theorem refused_of_serve_deallocate {a : Address} {n : Nat} {code : KernelCode}
    (h : (Kernel.serve (.deallocate a n) bed).1 = some (.error code)) :
    bed.machine.injected? .deallocate = some code ∨ bed.machine.space.deallocate a n = .failed code := by
  have hanswer : (bed.machine.deallocate a n).1.toExcept? = some (.error code) := h
  rw [Machine.deallocate] at hanswer
  rcases Machine.receive_eq bed.machine (.deallocate a n) _ with ⟨cause, hcause, hreceive⟩ | ⟨-, hreceive⟩
  · rw [hreceive] at hanswer
    cases hanswer
    exact Or.inl hcause
  · rw [hreceive, Machine.alter] at hanswer
    have hspace : (bed.machine.recorded (.deallocate a n)).space = bed.machine.space := rfl
    rw [hspace] at hanswer
    right
    split at hanswer
    · cases hanswer
    · rename_i hfailed
      cases hanswer
      exact hfailed
    · cases hanswer

/-- Memory that is mapped is where the address space maps it. -/
theorem allocate_of_serve {placement : Placement} {size : Nat} {base : Address}
    (h : (Kernel.serve (.allocate placement size) bed).1 = some (.ok base)) :
    ∃ rounded, Space.roundUp size = some rounded ∧ bed.machine.space.allocate (bed.machine.divert placement).1 rounded =
      .done (base, (Kernel.serve (.allocate placement size) bed).2.machine.space) :=
  (Machine.answers_allocate bed.machine placement size).1 _ h

/-- Memory that is asked for at a fixed address goes where it is diverted to. -/
theorem eq_of_serve_allocate_fixed {address base : Address} {size : Nat}
    (h : (Kernel.serve (.allocate (.fixed address) size) bed).1 = some (.ok base)) :
    base = bed.machine.diversion.getD address := by
  obtain ⟨rounded, -, halloc⟩ := allocate_of_serve h
  exact (Outcome.done.inj (Space.allocate_eq_done_iff.1 halloc).1).symm

/-- Memory that may go anywhere goes behind all mappings, at a distance. -/
theorem behind_of_serve_allocate {size : Nat} {base : Address} (hne : bed.machine.space ≠ [])
    (h : (Kernel.serve (.allocate .anywhere size) bed).1 = some (.ok base)) :
    ∀ m ∈ bed.machine.space, m.stop + Space.allocationGap ≤ base := by
  obtain ⟨rounded, -, halloc⟩ := allocate_of_serve h
  exact ((Space.place_anywhere_eq_done_iff hne).1 (Space.allocate_eq_done_iff.1 halloc).1).2.2.2

end Testbed

end LivePatch
