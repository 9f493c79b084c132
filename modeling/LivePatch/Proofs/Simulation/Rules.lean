import LivePatch.Engine.Sweep
import LivePatch.Proofs.Simulation.Service
import LivePatch.Proofs.Space.Copy

/-!
# Rules for the requests to a test bed

One rule for each request that a program makes: what has to hold after the request has been served, has failed, or has
crashed. A rule for a request to memory speaks of the call on the address space: `hdone` is the case that the call was
served, and in the case `hfail` a quiet test bed failed because the address space did.
-/

namespace LivePatch

open Program (request Answered)

/-- The threads that refuse a request. -/
def Machine.refusals (machine : Machine) : ThreadRequest → List Thread
  | .suspend => machine.suspendRefusals
  | .resume => machine.resumeRefusals

theorem Machine.Follows.refusals {machine machine' : Machine} (h : machine.Follows machine') (kind : ThreadRequest) :
    machine'.refusals kind = machine.refusals kind := by
  cases kind with
  | suspend => exact h.suspendRefusals
  | resume => exact h.resumeRefusals

namespace Testbed

variable {bed : Testbed} {ε α : Type} {step : Step} {E : Error → Testbed → Prop} {C : Testbed → Prop}

theorem Quiet.not_injected {call : Call} {code : KernelCode} (h : bed.Quiet) :
    call.kind?.bind bed.machine.injected? ≠ some code := by
  cases call.kind? with
  | none => simp
  | some kind => simp [h.injected?_eq_none kind]

/-- A test bed in which a call was recorded, and nothing else done. -/
theorem still_recorded (bed : Testbed) (call : Call) : bed.Still { bed with machine := bed.machine.recorded call } :=
  ⟨⟨Machine.follows_recorded _ _, rfl, rfl, rfl⟩, rfl⟩

/-! ## Changing memory -/

/-- The rule for a request that changes the memory by `change`. -/
theorem wp_alter {x : Program ε (Except KernelCode Unit)} (call : Call) (change : Space → Outcome KernelCode Space)
    {Q : Except KernelCode Unit → Testbed → Prop} {E : ε → Testbed → Prop}
    (hx : ∀ (Q : Except KernelCode Unit → Testbed → Prop) E C, x.wp Q E C bed ↔
      Answered (bed.following (Machine.reply (bed.machine.receive call (Machine.alter change)))) Q C)
    (hdone : ∀ space, change bed.machine.space = .done space →
      ∀ bed', bed.Follows bed' → bed'.machine.space = space → Q (.ok ()) bed')
    (hfail : ∀ code bed', bed.Still bed' → (bed.Quiet → change bed.machine.space = .failed code) → Q (.error code) bed')
    (hcrash : change bed.machine.space = .crashed → ∀ bed', C bed') : x.wp Q E C bed := by
  rw [hx]
  have hstill := still_recorded bed call
  rcases Machine.receive_eq bed.machine call (Machine.alter change) with ⟨code, hcode, h⟩ | ⟨-, h⟩
  · rw [h]
    exact hfail code _ hstill fun hq => absurd hcode hq.not_injected
  · rw [h]
    rcases hchange : change bed.machine.space with space | code | _
    · have halter : Machine.alter change (bed.machine.recorded call) =
          (.done (), { bed.machine.recorded call with space := space }) := by
        simp [Machine.alter, Machine.recorded, hchange]
      rw [halter]
      exact hdone space hchange _ ⟨⟨hstill.machine.counts, rfl, rfl, rfl, rfl, Or.inl rfl⟩, rfl, rfl, rfl⟩ rfl
    · have halter : Machine.alter change (bed.machine.recorded call) = (.failed code, bed.machine.recorded call) := by
        simp [Machine.alter, Machine.recorded, hchange]
      rw [halter]
      exact hfail code _ hstill fun _ => hchange
    · have halter : Machine.alter change (bed.machine.recorded call) = (.crashed, bed.machine.recorded call) := by
        simp [Machine.alter, Machine.recorded, hchange]
      rw [halter]
      exact hcrash hchange _

/-- The rule for a request whose change the memory allows: only a failure that was ordered can keep it from being served. -/
theorem wp_alter_done {x : Program ε (Except KernelCode Unit)} (call : Call) (change : Space → Outcome KernelCode Space)
    {space : Space} {Q : Except KernelCode Unit → Testbed → Prop} {E : ε → Testbed → Prop}
    (hx : ∀ (Q : Except KernelCode Unit → Testbed → Prop) E C, x.wp Q E C bed ↔
      Answered (bed.following (Machine.reply (bed.machine.receive call (Machine.alter change)))) Q C)
    (hchange : change bed.machine.space = .done space)
    (hdone : ∀ bed', bed.Follows bed' → bed'.machine.space = space → Q (.ok ()) bed')
    (hfail : ∀ code bed', bed.Still bed' → ¬ bed.Quiet → Q (.error code) bed') : x.wp Q E C bed := by
  refine wp_alter call change hx ?_ ?_ ?_
  · intro space' h bed' hbed' hspace
    rw [hchange] at h
    cases h
    exact hdone bed' hbed' hspace
  · intro code bed' hbed' hq
    refine hfail code bed' hbed' fun hquiet => ?_
    rw [hq hquiet] at hchange
    cases hchange
  · intro h
    rw [hchange] at h
    cases h

variable {a s d : Address} {n : Nat} {p : Protection} {bytes : Bytes} {space : Space} {Q : Unit → Testbed → Prop}

theorem wp_deallocate_done (h : bed.machine.space.deallocate a n = .done space)
    (hdone : ∀ bed', bed.Follows bed' → bed'.machine.space = space → Q () bed')
    (hfail : ∀ code bed', bed.Still bed' → ¬ bed.Quiet → E (.ofKernel step code) bed') :
    ((request (.deallocate a n)).during step).wp Q E C bed := by
  rw [Program.wp_during]
  exact wp_alter_done (.deallocate a n) (·.deallocate a n) (fun _ _ _ => Iff.rfl) h hdone hfail

theorem wp_protect
    (hdone : ∀ space, bed.machine.space.protect a n p = .done space →
      ∀ bed', bed.Follows bed' → bed'.machine.space = space → Q () bed')
    (hfail : ∀ code bed', bed.Still bed' → (bed.Quiet → bed.machine.space.protect a n p = .failed code) →
      E (.ofKernel step code) bed')
    (hcrash : bed.machine.space.protect a n p = .crashed → ∀ bed', C bed') :
    ((request (.protect a n p)).during step).wp Q E C bed := by
  rw [Program.wp_during]
  exact wp_alter (.protect a n p) (·.protect a n p) (fun _ _ _ => Iff.rfl) hdone hfail hcrash

theorem wp_protect_done (h : bed.machine.space.protect a n p = .done space)
    (hdone : ∀ bed', bed.Follows bed' → bed'.machine.space = space → Q () bed')
    (hfail : ∀ code bed', bed.Still bed' → ¬ bed.Quiet → E (.ofKernel step code) bed') :
    ((request (.protect a n p)).during step).wp Q E C bed := by
  rw [Program.wp_during]
  exact wp_alter_done (.protect a n p) (·.protect a n p) (fun _ _ _ => Iff.rfl) h hdone hfail

/-- The rule for a request to protect a whole mapping. -/
theorem wp_protect_whole {m : Mapping} (hwf : bed.machine.space.WellFormed) (hs : bed.machine.space.Addressable)
    (hm : m ∈ bed.machine.space)
    (hdone : m.stop + pageBytes < Word.count →
      ∀ bed', bed.Follows bed' → bed'.machine.space = bed.machine.space.update (m.painted p) → Q () bed')
    (hfail : ∀ code bed', bed.Still bed' → ¬ bed.Quiet → E (.ofKernel step code) bed')
    (hcrash : ¬ m.stop + pageBytes < Word.count → ∀ bed', C bed') :
    ((request (.protect m.base m.size p)).during step).wp Q E C bed := by
  have hprotect := hwf.protect_whole hs hm (p := p)
  by_cases hroom : m.stop + pageBytes < Word.count
  · rw [if_pos hroom] at hprotect
    exact wp_protect_done hprotect (hdone hroom) hfail
  · rw [if_neg hroom] at hprotect
    refine wp_protect ?_ ?_ fun _ => hcrash hroom
    · intro space h
      rw [hprotect] at h
      cases h
    · intro code bed' hbed' hq
      refine hfail code bed' hbed' fun hquiet => ?_
      rw [hq hquiet] at hprotect
      cases hprotect

/-- The rule for a request to protect the whole of a mapping that was exchanged for another one of its shape. -/
theorem wp_protect_exchanged {space : Space} {m y : Mapping} (hwf : space.WellFormed) (hs : space.Addressable)
    (hm : m ∈ space) (hy : m.SameShape y) (hspace : bed.machine.space = space.update y)
    (hdone : m.stop + pageBytes < Word.count →
      ∀ bed', bed.Follows bed' → bed'.machine.space = space.update (y.painted p) → Q () bed')
    (hfail : ∀ code bed', bed.Still bed' → ¬ bed.Quiet → E (.ofKernel step code) bed')
    (hcrash : ¬ m.stop + pageBytes < Word.count → ∀ bed', C bed') :
    ((request (.protect m.base m.size p)).during step).wp Q E C bed := by
  have hwf' := hwf.update hm hy
  have hs' := hs.update hm hy
  have hmem := Space.mem_update_self hm hy.base
  rw [← hspace] at hwf' hs' hmem
  rw [← hy.base, ← hy.size]
  rw [← hy.stop] at hdone hcrash
  refine wp_protect_whole hwf' hs' hmem (fun hroom bed' h hbed' => hdone hroom bed' h ?_) hfail hcrash
  rw [hbed', hspace, Space.update_update (Mapping.sameShape_painted y p).base]

theorem wp_copy
    (hdone : ∀ space, bed.machine.space.copy s n d = .done space →
      ∀ bed', bed.Follows bed' → bed'.machine.space = space → Q () bed')
    (hfail : ∀ code bed', bed.Still bed' → (bed.Quiet → bed.machine.space.copy s n d = .failed code) →
      E (.ofKernel step code) bed')
    (hcrash : bed.machine.space.copy s n d = .crashed → ∀ bed', C bed') :
    ((request (.copy s n d)).during step).wp Q E C bed := by
  rw [Program.wp_during]
  exact wp_alter (.copy s n d) (·.copy s n d) (fun _ _ _ => Iff.rfl) hdone hfail hcrash

theorem wp_copy_done (h : bed.machine.space.copy s n d = .done space)
    (hdone : ∀ bed', bed.Follows bed' → bed'.machine.space = space → Q () bed')
    (hfail : ∀ code bed', bed.Still bed' → ¬ bed.Quiet → E (.ofKernel step code) bed') :
    ((request (.copy s n d)).during step).wp Q E C bed := by
  rw [Program.wp_during]
  exact wp_alter_done (.copy s n d) (·.copy s n d) (fun _ _ _ => Iff.rfl) h hdone hfail

/-- The rule for a request to copy a whole mapping into one that can be written. -/
theorem wp_copy_whole {m x : Mapping} (hwf : bed.machine.space.WellFormed) (hs : bed.machine.space.Addressable)
    (hm : m ∈ bed.machine.space) (hx : x ∈ bed.machine.space) (hd : x.base ≤ d) (hstop : d + m.size ≤ x.stop)
    (hp : ∀ p ∈ x.pages, p = .readWrite)
    (hdone : m.Readable →
      ∀ bed', bed.Follows bed' → bed'.machine.space = bed.machine.space.update (x.withBytes d m.bytes) → Q () bed')
    (hfail : ∀ code bed', bed.Still bed' → (bed.Quiet → ¬ m.Readable ∧ code = .protectionFailure) →
      E (.ofKernel step code) bed') :
    ((request (.copy m.base m.size d)).during step).wp Q E C bed := by
  rcases hwf.copy_whole hs hm hx hd hstop hp with ⟨hr, hcopy⟩ | ⟨hr, hcopy⟩
  · exact wp_copy_done hcopy (hdone hr) fun code bed' hbed' hq => hfail code bed' hbed' fun hquiet => absurd hquiet hq
  · refine wp_copy ?_ (fun code bed' hbed' hq => hfail code bed' hbed' fun hquiet => ?_) ?_
    · intro space h
      rw [hcopy] at h
      cases h
    · rw [hcopy] at hq
      cases hq hquiet
      exact ⟨hr, rfl⟩
    · intro h
      rw [hcopy] at h
      cases h

theorem wp_write
    (hdone : ∀ space, bed.machine.space.store a bytes = .done space →
      ∀ bed', bed.Follows bed' → bed'.machine.space = space → Q () bed')
    (hfail : ∀ code bed', bed.Still bed' → (bed.Quiet → bed.machine.space.store a bytes = .failed code) →
      E (.ofKernel step code) bed')
    (hcrash : bed.machine.space.store a bytes = .crashed → ∀ bed', C bed') :
    ((request (.write a bytes)).during step).wp Q E C bed := by
  rw [Program.wp_during]
  exact wp_alter (.write a bytes.size) (·.store a bytes) (fun _ _ _ => Iff.rfl) hdone hfail hcrash

theorem wp_write_done (h : bed.machine.space.store a bytes = .done space)
    (hdone : ∀ bed', bed.Follows bed' → bed'.machine.space = space → Q () bed')
    (hfail : ∀ code bed', bed.Still bed' → ¬ bed.Quiet → E (.ofKernel step code) bed') :
    ((request (.write a bytes)).during step).wp Q E C bed := by
  rw [Program.wp_during]
  exact wp_alter_done (.write a bytes.size) (·.store a bytes) (fun _ _ _ => Iff.rfl) h hdone hfail

/-- The rule for a request to map memory. The size is rounded first, and a pending diversion applies. -/
theorem wp_allocate {placement : Placement} {Q : Address → Testbed → Prop}
    (hdone : ∀ size base space, Space.roundUp n = some size →
      bed.machine.space.allocate (bed.machine.divert placement).1 size = .done (base, space) →
      ∀ bed', bed.Follows bed' → bed'.machine.space = space → Q base bed')
    (hfail : ∀ code bed', bed.Still bed' → (bed.Quiet → ∃ size, Space.roundUp n = some size ∧
      bed.machine.space.allocate (bed.machine.divert placement).1 size = .failed code) → E (.ofKernel step code) bed')
    (hcrash : (Space.roundUp n = none ∨ ∃ size, Space.roundUp n = some size ∧
      bed.machine.space.allocate (bed.machine.divert placement).1 size = .crashed) → ∀ bed', C bed') :
    ((request (.allocate placement n)).during step).wp Q E C bed := by
  have hserve : ∀ (Q : Except KernelCode Address → Testbed → Prop) (E : Error → Testbed → Prop) C,
      (request (.allocate placement n)).wp Q E C bed ↔
        Answered (bed.following (Machine.reply (bed.machine.allocate placement n))) Q C := fun _ _ _ => Iff.rfl
  have hstill := still_recorded bed (.allocate placement n)
  rw [Program.wp_during, hserve, Machine.allocate]
  rcases Machine.receive_eq bed.machine (.allocate placement n) _ with ⟨code, hcode, h⟩ | ⟨-, h⟩
  · rw [h]
    exact hfail code _ hstill fun hq => absurd hcode hq.not_injected
  · rw [h]
    cases hround : Space.roundUp n with
    | none => exact hcrash (Or.inl hround) _
    | some size =>
      have hfollows := hstill.machine.trans (Machine.follows_allocatePages placement size _)
      have hdivert : ((bed.machine.recorded (.allocate placement n)).divert placement).1 =
          (bed.machine.divert placement).1 := by cases placement <;> rfl
      have hspace : ((bed.machine.recorded (.allocate placement n)).divert placement).2.space = bed.machine.space := by
        cases placement <;> rfl
      simp only [Machine.allocatePages, hdivert, hspace] at hfollows ⊢
      rcases halloc : bed.machine.space.allocate (bed.machine.divert placement).1 size with ⟨base, space⟩ | code | _
      · simp only [halloc] at hfollows
        exact hdone size base space hround halloc _ ⟨hfollows, rfl, rfl, rfl⟩ rfl
      · simp only [halloc] at hfollows
        exact hfail code _ ⟨⟨hfollows, rfl, rfl, rfl⟩, hspace⟩ fun _ => ⟨size, hround, halloc⟩
      · exact hcrash (Or.inr ⟨size, hround, halloc⟩) _

/-! ## Looking at memory -/

/-- The rule for a read. What a quiet test bed reads is what is there. -/
theorem wp_read {Q : Bytes → Testbed → Prop}
    (hdone : ∀ actual bytes, bed.machine.space.load a n = .done actual → (bed.Quiet → bytes = actual) →
      ∀ bed', bed.Still bed' → Q bytes bed')
    (hfail : ∀ code bed', bed.Still bed' → (bed.Quiet → bed.machine.space.load a n = .failed code) →
      E (.ofKernel step code) bed')
    (hcrash : bed.machine.space.load a n = .crashed → ∀ bed', C bed') :
    ((request (.read a n)).during step).wp Q E C bed := by
  have hserve : ∀ (Q : Except KernelCode Bytes → Testbed → Prop) (E : Error → Testbed → Prop) C,
      (request (.read a n)).wp Q E C bed ↔
        Answered (bed.following (Machine.reply (bed.machine.receive (.read a n) (Machine.observe (·.load a n)))))
          (fun reply => Q (reply.map (spoil bed.distortions (bed.machine.counts .read)))) C := by
    intro Q E C
    rw [Program.wp_request]
    simp only [Kernel.serve, serve, Testbed.read, Machine.serve, Machine.read, following, Machine.reply, Answered]
    cases (bed.machine.receive (.read a n) (Machine.observe (·.load a n))).1.toExcept? <;> rfl
  have hstill := still_recorded bed (.read a n)
  rw [Program.wp_during, hserve]
  rcases Machine.receive_eq bed.machine (.read a n) (Machine.observe (·.load a n)) with ⟨code, hcode, h⟩ | ⟨-, h⟩
  · rw [h]
    exact hfail code _ hstill fun hq => absurd hcode hq.not_injected
  · have hlook : Machine.observe (·.load a n) (bed.machine.recorded (.read a n)) =
        (bed.machine.space.load a n, bed.machine.recorded (.read a n)) := rfl
    rw [h, hlook]
    rcases hl : bed.machine.space.load a n with actual | code | _
    · exact hdone actual _ hl (fun hq => hq.spoil_eq actual) _ hstill
    · exact hfail code _ hstill fun _ => hl
    · exact hcrash hl _

/-! ## Threads and instructions -/

variable {E : ε → Testbed → Prop} {thread : Thread}

/-- The rule for a request to list the threads. The next thread table applies even if the list then fails. -/
theorem wp_threads {Q : Except KernelCode ThreadList → Testbed → Prop}
    (hdone : ∀ bed', bed.Still bed' → Q (.ok { threads := bed.advance.machine.threads, held := false }) bed')
    (hfail : ∀ code bed', bed.Still bed' → ¬ bed.Quiet → Q (.error code) bed') :
    (request .threads : Program ε _).wp Q E C bed := by
  have hserve : ∀ (Q : Except KernelCode ThreadList → Testbed → Prop) (E : ε → Testbed → Prop) C,
      (request .threads : Program ε _).wp Q E C bed ↔
        Answered (bed.advance.following (Machine.reply bed.advance.machine.listThreads)) Q C := fun _ _ _ => Iff.rfl
  have hstill := (still_advance bed).trans (still_recorded bed.advance .threads)
  rw [hserve, Machine.listThreads]
  rcases Machine.receive_eq bed.advance.machine .threads _ with ⟨code, hcode, h⟩ | ⟨-, h⟩
  · rw [h]
    exact hfail code _ hstill fun hq => absurd hcode (hq.follows (still_advance bed).toFollows).not_injected
  · rw [h]
    exact hdone _ hstill

@[simp] theorem wp_currentThread {Q : Thread → Testbed → Prop} :
    (request .currentThread : Program ε _).wp Q E C bed ↔ Q bed.machine.caller bed := Iff.rfl

@[simp] theorem wp_release {list : ThreadList} {Q : Unit → Testbed → Prop} :
    (request (.release list) : Program ε _).wp Q E C bed ↔ Q () bed := Iff.rfl

/-- The rule for a request to a thread: the thread refuses, or it does not. -/
theorem wp_ask {kind : ThreadRequest} {Q : Except KernelCode Unit → Testbed → Prop}
    (h : ∀ bed', bed.Still bed' →
      Q (if thread ∈ bed.machine.refusals kind then .error .failure else .ok ()) bed') :
    (kind.ask thread : Program ε _).wp Q E C bed := by
  cases kind with
  | suspend =>
    have := h _ (still_recorded bed (.suspend thread))
    by_cases hr : thread ∈ bed.machine.suspendRefusals
    all_goals
      simpa [ThreadRequest.ask, request, Program.wp, Kernel.serve, serve, following, Machine.serve, Machine.suspend,
        Machine.reply, Machine.receive, Call.kind?, Machine.recorded, Outcome.toExcept?, Machine.refusals, hr] using this
  | resume =>
    have := h _ (still_recorded bed (.resume thread))
    by_cases hr : thread ∈ bed.machine.resumeRefusals
    all_goals
      simpa [ThreadRequest.ask, request, Program.wp, Kernel.serve, serve, following, Machine.serve, Machine.resume,
        Machine.reply, Machine.receive, Call.kind?, Machine.recorded, Outcome.toExcept?, Machine.refusals, hr] using this

/-- The rule for a flush, which only the record shows. -/
theorem wp_flush {Q : Unit → Testbed → Prop} (h : ∀ bed', bed.Still bed' → Q () bed') :
    (request (.flush a n) : Program ε _).wp Q E C bed := h _ (still_recorded bed (.flush a n))

end Testbed

end LivePatch
