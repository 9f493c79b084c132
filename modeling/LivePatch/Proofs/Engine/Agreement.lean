import LivePatch.Engine.Guard
import LivePatch.Proofs.Engine.Requests
import LivePatch.Proofs.Simulation.Service

/-!
# Programs that agree whatever the threads do

Two test beds are alike if they differ in their threads only: in the thread tables and what is still to come of them, in the
calling thread, and in who refuses what. Programs agree if they end the same on test beds that are alike and leave such again.
A program that asks nothing of threads agrees with itself. A sweep is of threads and nothing else, so two sweeps agree on whether
there was a list, and in tolerant mode nobody looks at more of them than that.
-/

namespace LivePatch

/-! ## Test beds without their threads -/

/-- The call asks a single thread for something. -/
def Call.ofThread : Call → Bool
  | .suspend _ | .resume _ => true
  | _ => false

/-- Of the calls from a number on, those that do not ask a single thread for something. -/
def Machine.commonCalls (machine : Machine) (n : Nat) : Array Call :=
  (machine.calls.extract n).filter fun call => !call.ofThread

/-- The machine without its threads and without the calls that ask one of them, and on its record only the calls from a number on. -/
def Machine.unthreaded (machine : Machine) (n : Nat) : Machine :=
  { machine with threads := [], caller := 0, calls := machine.commonCalls n, suspendRefusals := [], resumeRefusals := [] }

/-- The test bed without its threads. -/
def Testbed.unthreaded (bed : Testbed) (n : Nat) : Testbed :=
  { bed with machine := bed.machine.unthreaded n, script := [] }

namespace Machine

variable {machine : Machine} {call : Call} {n : Nat}

theorem commonCalls_recorded (hn : n ≤ machine.calls.size) : (machine.recorded call).commonCalls n =
    if call.ofThread then machine.commonCalls n else (machine.commonCalls n).push call := by
  have hextract : (machine.calls.push call).extract n = (machine.calls.extract n).push call := by
    rw [Array.extract_push, Array.size_push, if_neg (by lia), if_pos hn]
  have hcalls : (machine.recorded call).calls = machine.calls.push call := rfl
  rw [commonCalls, hcalls, hextract, Array.filter_push]
  cases call.ofThread <;> rfl

/-- A call is recorded without the threads as it is with them. -/
theorem recorded_unthreaded (hn : n ≤ machine.calls.size) (hcall : call.ofThread = false) :
    (machine.unthreaded n).recorded call = (machine.recorded call).unthreaded n := by
  rw [unthreaded, unthreaded, commonCalls_recorded hn, hcall, if_neg Bool.false_ne_true]
  rfl

/-- Nothing is recorded of a call that asks a single thread. -/
theorem unthreaded_recorded (hn : n ≤ machine.calls.size) (hcall : call.ofThread = true) :
    (machine.recorded call).unthreaded n = machine.unthreaded n := by
  have hkind : call.kind? = none := by
    cases call with
    | suspend | resume => rfl
    | _ => cases hcall
  rw [unthreaded, unthreaded, commonCalls_recorded hn, if_pos hcall, recorded, hkind]
  rfl

/-- The record of a machine only grows. -/
theorem size_le_serve (request : Request) (machine : Machine) :
    machine.calls.size ≤ (serve request machine).2.calls.size := by
  rw [serve_recorded (f := fun machine => machine.calls.size) (fun _ _ => rfl) fun _ => rfl]
  cases Call.ofRequest? request with
  | none => exact Nat.le_refl _
  | some call =>
    rw [Option.elim_some, recorded, Array.size_push]
    exact Nat.le_succ _

/-- A call is received without the threads as it is with them, if it is served so. -/
theorem receive_unthreaded {α : Type} {serve : Machine → Outcome KernelCode α × Machine} (hn : n ≤ machine.calls.size)
    (hcall : call.ofThread = false) (hserve : ∀ machine : Machine, serve (machine.unthreaded n) =
      ((serve machine).1, (serve machine).2.unthreaded n)) :
    (machine.unthreaded n).receive call serve =
      ((machine.receive call serve).1, (machine.receive call serve).2.unthreaded n) := by
  have hinjected : (machine.unthreaded n).injected? = machine.injected? := rfl
  rw [receive, receive, hinjected, recorded_unthreaded hn hcall]
  cases call.kind?.bind machine.injected? with
  | some code => rfl
  | none => exact hserve _

theorem alter_unthreaded (change : Space → Outcome KernelCode Space) (machine : Machine) :
    alter change (machine.unthreaded n) = ((alter change machine).1, (alter change machine).2.unthreaded n) := by
  have hspace : (machine.unthreaded n).space = machine.space := rfl
  rw [alter, alter, hspace]
  rcases change machine.space with space | code | _
  · rfl
  · rfl
  · rfl

theorem allocatePages_unthreaded (placement : Placement) (size : Nat) (machine : Machine) :
    allocatePages placement size (machine.unthreaded n) =
      ((allocatePages placement size machine).1, (allocatePages placement size machine).2.unthreaded n) := by
  have hdivert : ∃ (placement' : Placement) (machine' : Machine), machine.divert placement = (placement', machine') ∧
      (machine.unthreaded n).divert placement = (placement', machine'.unthreaded n) := by
    cases placement with
    | anywhere => exact ⟨_, _, rfl, rfl⟩
    | fixed address => exact ⟨_, _, rfl, rfl⟩
  obtain ⟨placement', machine', hdivert, hunthreaded⟩ := hdivert
  have hspace : (machine'.unthreaded n).space = machine'.space := rfl
  simp only [allocatePages, hdivert, hunthreaded, hspace]
  rcases machine'.space.allocate placement' size with ⟨base, space⟩ | code | _
  · rfl
  · rfl
  · rfl

/-- Requests that are not about threads are served without the threads as they are with them. -/
theorem serve_unthreaded {request : Request} (hn : n ≤ machine.calls.size) (h : ¬ request.OfThreads) :
    serve request (machine.unthreaded n) = ((serve request machine).1, (serve request machine).2.unthreaded n) := by
  have hreceive : ∀ {α : Type} {serve : Machine → Outcome KernelCode α × Machine} (call : Call), call.ofThread = false →
      (∀ machine : Machine, serve (machine.unthreaded n) = ((serve machine).1, (serve machine).2.unthreaded n)) →
      reply ((machine.unthreaded n).receive call serve) =
        ((reply (machine.receive call serve)).1, (reply (machine.receive call serve)).2.unthreaded n) :=
    fun call hcall hserve => by rw [receive_unthreaded hn hcall hserve]; rfl
  cases request with
  | threads | currentThread | release _ | suspend _ | resume _ => exact absurd trivial h
  | region _ | read _ _ => exact hreceive _ rfl fun _ => rfl
  | deallocate _ _ | protect _ _ _ | copy _ _ _ | write _ _ => exact hreceive _ rfl (alter_unthreaded _)
  | flush address size => exact Prod.ext rfl (recorded_unthreaded hn rfl)
  | allocate placement size =>
    refine hreceive _ rfl fun machine => ?_
    cases Space.roundUp size with
    | none => rfl
    | some rounded => exact allocatePages_unthreaded placement rounded machine

end Machine

namespace Testbed

variable {bed bed' : Testbed} {n n' : Nat}

theorem size_le_serve (request : Request) (bed : Testbed) :
    bed.machine.calls.size ≤ (Kernel.serve request bed).2.machine.calls.size := by
  by_cases hthreads : request = .threads
  · subst hthreads
    have hadvance : bed.advance.machine.calls = bed.machine.calls := by
      unfold advance
      split <;> rfl
    exact hadvance ▸ Machine.size_le_serve .threads bed.advance.machine
  · rw [serve_eq hthreads]
    exact Machine.size_le_serve request bed.machine

theorem serve_unthreaded {request : Request} (hn : n ≤ bed.machine.calls.size) (h : ¬ request.OfThreads) :
    Kernel.serve request (bed.unthreaded n) =
      ((Kernel.serve request bed).1, (Kernel.serve request bed).2.unthreaded n) := by
  have hmachine := Machine.serve_unthreaded hn h
  have hfollowing : (bed.unthreaded n).following (Machine.serve request (bed.machine.unthreaded n)) =
      ((bed.following (Machine.serve request bed.machine)).1,
        (bed.following (Machine.serve request bed.machine)).2.unthreaded n) := by
    rw [hmachine]
    rfl
  cases request with
  | threads | currentThread | release _ | suspend _ | resume _ => exact absurd trivial h
  | region _ | flush _ _ | deallocate _ _ | protect _ _ _ | copy _ _ _ | write _ _ | allocate _ _ => exact hfollowing
  | read address len =>
    have hread : (bed.unthreaded n).read address len = ((bed.read address len).1, (bed.read address len).2.unthreaded n) := by
      have hbed : (bed.unthreaded n).machine = bed.machine.unthreaded n := rfl
      rw [read, read, hbed, hfollowing]
      rfl
    exact hread

/-- The second test bed is the first one some requests to threads later. -/
structure Beside (bed bed' : Testbed) : Prop where
  size_le : bed.machine.calls.size ≤ bed'.machine.calls.size
  unthreaded : ∀ n ≤ bed.machine.calls.size, bed'.unthreaded n = bed.unthreaded n

theorem Beside.refl (bed : Testbed) : bed.Beside bed := ⟨Nat.le_refl _, fun _ _ => rfl⟩

theorem Beside.trans {bed'' : Testbed} (h : bed.Beside bed') (h' : bed'.Beside bed'') : bed.Beside bed'' :=
  ⟨Nat.le_trans h.size_le h'.size_le,
    fun n hn => (h'.unthreaded n (Nat.le_trans hn h.size_le)).trans (h.unthreaded n hn)⟩

theorem beside_recorded {call : Call} (hcall : call.ofThread = true) (bed : Testbed) :
    bed.Beside { bed with machine := bed.machine.recorded call } := by
  refine ⟨?_, fun n hn => ?_⟩
  · rw [Machine.recorded, Array.size_push]
    exact Nat.le_succ _
  · rw [Testbed.unthreaded, Testbed.unthreaded, Machine.unthreaded_recorded hn hcall]

/-- The test beds differ in their threads only, and in what is on their records up to the two numbers of calls. -/
structure Alike (n n' : Nat) (bed bed' : Testbed) : Prop where
  size_le : n ≤ bed.machine.calls.size
  size_le' : n' ≤ bed'.machine.calls.size
  unthreaded : bed.unthreaded n = bed'.unthreaded n'

theorem Alike.beside {after after' : Testbed} (h : Alike n n' bed bed') (hbed : bed.Beside after) (hbed' : bed'.Beside after') :
    Alike n n' after after' where
  size_le := Nat.le_trans h.size_le hbed.size_le
  size_le' := Nat.le_trans h.size_le' hbed'.size_le
  unthreaded := by rw [hbed.unthreaded n h.size_le, hbed'.unthreaded n' h.size_le', h.unthreaded]

/-- Requests that are not about threads are served alike. -/
theorem Alike.serve {request : Request} (h : Alike n n' bed bed') (hrequest : ¬ request.OfThreads) :
    (Kernel.serve request bed).1 = (Kernel.serve request bed').1 ∧
      Alike n n' (Kernel.serve request bed).2 (Kernel.serve request bed').2 := by
  have hboth := h.unthreaded ▸ serve_unthreaded h.size_le hrequest
  obtain ⟨hreply, hbed⟩ := Prod.ext_iff.1 (hboth.symm.trans (serve_unthreaded h.size_le' hrequest))
  exact ⟨hreply, Nat.le_trans h.size_le (size_le_serve request bed), Nat.le_trans h.size_le' (size_le_serve request bed'), hbed⟩

/-- Requests for the threads are served alike, but for what is on the lists. -/
theorem Alike.serve_threads (h : Alike n n' bed bed') :
    ((∃ code, (Kernel.serve .threads bed).1 = some (.error code) ∧ (Kernel.serve .threads bed').1 = some (.error code)) ∨
      ∃ list list', (Kernel.serve .threads bed).1 = some (.ok list) ∧ (Kernel.serve .threads bed').1 = some (.ok list')) ∧
    Alike n n' (Kernel.serve .threads bed).2 (Kernel.serve .threads bed').2 := by
  have hinjected : bed.machine.injected? .threads = bed'.machine.injected? .threads := by
    have hboth : (bed.unthreaded n).machine.injected? .threads = (bed'.unthreaded n').machine.injected? .threads := by
      rw [h.unthreaded]
    exact hboth
  have hrecorded : ∀ {bed : Testbed} {n : Nat}, n ≤ bed.machine.calls.size →
      (Kernel.serve .threads bed).2.unthreaded n =
        { bed.unthreaded n with machine := (bed.unthreaded n).machine.recorded .threads } := by
    intro bed n hn
    have hadvance : bed.advance.unthreaded n = bed.unthreaded n ∧ bed.advance.machine.calls = bed.machine.calls := by
      unfold advance
      split <;> exact ⟨rfl, rfl⟩
    rw [Testbed.serve_threads, ← hadvance.1]
    exact congrArg (fun machine => { bed.advance.unthreaded n with machine := machine })
      (Machine.recorded_unthreaded (hadvance.2 ▸ hn) (rfl : Call.threads.ofThread = false)).symm
  refine ⟨?_, Nat.le_trans h.size_le (size_le_serve _ bed), Nat.le_trans h.size_le' (size_le_serve _ bed'), ?_⟩
  · rw [Testbed.serve_threads, Testbed.serve_threads, hinjected]
    cases bed'.machine.injected? .threads with
    | some code => exact Or.inl ⟨code, rfl, rfl⟩
    | none => exact Or.inr ⟨_, _, rfl, rfl⟩
  · rw [hrecorded h.size_le, hrecorded h.size_le', h.unthreaded]

end Testbed

/-! ## Programs -/

/-- The outcomes are both values, and such as `V` says, or both the same error, or both crashes. -/
inductive Outcome.Matches {ε α β : Type} (V : α → β → Prop) : Outcome ε α → Outcome ε β → Prop where
  | done {a : α} {b : β} (h : V a b) : Matches V (.done a) (.done b)
  | failed (error : ε) : Matches V (.failed error) (.failed error)
  | crashed : Matches V .crashed .crashed

/-- Outcomes that match with equal values are equal. -/
theorem Outcome.Matches.eq {ε α : Type} {x y : Outcome ε α} (h : x.Matches Eq y) : x = y := by
  cases h with
  | done h => rw [h]
  | failed | crashed => rfl

namespace Program

variable {ε ε' α α' β β' : Type}

/-- The program makes requests to threads at most, and ends with a value. -/
def Aside (x : Program ε α) : Prop :=
  ∀ bed : Testbed, x.wp (fun _ bed' => bed.Beside bed') (fun _ _ => False) (fun _ => False) bed

/-- On test beds that are alike the programs end alike, with values as `V` says, and leave test beds that are alike. -/
def Agree (V : α → β → Prop) (x : Program ε α) (y : Program ε β) : Prop :=
  ∀ ⦃n n' : Nat⦄ ⦃world world' : World Testbed⦄, Testbed.Alike n n' world.kernel world'.kernel →
    (x.run world).1.Matches V (y.run world').1 ∧ Testbed.Alike n n' (x.run world).2.kernel (y.run world').2.kernel

theorem Aside.bind {x : Program ε α} {f : α → Program ε β} (hx : x.Aside) (hf : ∀ value, (f value).Aside) :
    (x >>= f).Aside := by
  intro bed
  rw [wp_bind]
  refine wp_mono (hx bed) (fun value bed' hbed' => ?_) (fun _ _ h => h) fun _ h => h
  exact wp_mono (hf value bed') (fun _ _ h => hbed'.trans h) (fun _ _ h => h) fun _ h => h

theorem aside_done (value : α) : (done value : Program ε α).Aside := Testbed.Beside.refl

section

variable {V : α → β → Prop} {W : α' → β' → Prop}

theorem Agree.done {a : α} {b : β} (h : V a b) : Agree V (Program.done a : Program ε α) (.done b) :=
  fun _ _ _ _ halike => ⟨.done h, halike⟩

theorem Agree.failed (error : ε) : Agree V (Program.failed error : Program ε α) (.failed error) :=
  fun _ _ _ _ halike => ⟨.failed error, halike⟩

theorem Agree.noteAll {x : Program ε α} {y : Program ε β} (h : Agree V x y) (events events' : List Event) :
    Agree V (Program.noteAll events >>= fun _ => x) (Program.noteAll events' >>= fun _ => y) := by
  have hrun : ∀ {γ : Type} (z : Program ε γ) (events : List Event) (world : World Testbed), ∃ noted : World Testbed,
      noted.kernel = world.kernel ∧ (Program.noteAll events >>= fun _ => z).run world = z.run noted := by
    intro γ z events
    induction events with
    | nil => exact fun world => ⟨world, rfl, rfl⟩
    | cons event rest ih =>
      intro world
      obtain ⟨noted, hkernel, hnoted⟩ := ih { world with journal := world.journal.push event }
      exact ⟨noted, hkernel, hnoted⟩
  intro n n' world world' halike
  obtain ⟨noted, hkernel, hnoted⟩ := hrun x events world
  obtain ⟨noted', hkernel', hnoted'⟩ := hrun y events' world'
  rw [hnoted, hnoted']
  exact h (hkernel ▸ hkernel' ▸ halike)

theorem Agree.bind {x : Program ε α} {y : Program ε β} {f : α → Program ε α'} {g : β → Program ε β'} (h : Agree V x y)
    (hfg : ∀ a b, V a b → Agree W (f a) (g b)) : Agree W (x >>= f) (y >>= g) := by
  intro n n' world world' halike
  obtain ⟨hmatches, hafter⟩ := h halike
  rw [run_bind, run_bind]
  rcases hx : x.run world with ⟨outcome, after⟩
  rcases hy : y.run world' with ⟨outcome', after'⟩
  rw [hx, hy] at hmatches hafter
  cases hmatches with
  | done hvalues => exact hfg _ _ hvalues hafter
  | failed error => exact ⟨.failed error, hafter⟩
  | crashed => exact ⟨.crashed, hafter⟩

/-- A program that agrees with itself and is followed by programs that do so is followed by them on both sides. -/
theorem Agree.bind_eq {x y : Program ε α} {f : α → Program ε α'} {g : α → Program ε β'} (h : Agree Eq x y)
    (hfg : ∀ a, Agree W (f a) (g a)) : Agree W (x >>= f) (y >>= g) :=
  h.bind fun a _ hab => hab ▸ hfg a

theorem Agree.attempt {x y : Program ε α} (h : Agree Eq x y) :
    Agree Eq (x.attempt : Program ε' (Except ε α)) (y.attempt : Program ε' (Except ε α)) := by
  intro n n' world world' halike
  obtain ⟨hmatches, hafter⟩ := h halike
  rw [run_attempt, run_attempt]
  rcases hx : x.run world with ⟨outcome, after⟩
  rcases hy : y.run world' with ⟨outcome', after'⟩
  rw [hx, hy] at hmatches hafter
  cases hmatches with
  | done hvalues => exact ⟨.done (congrArg _ hvalues), hafter⟩
  | failed error => exact ⟨.done rfl, hafter⟩
  | crashed => exact ⟨.crashed, hafter⟩

/-- Programs that ask nothing but threads agree on nothing but that they end. -/
theorem Aside.agree {x : Program ε α} {y : Program ε β} (hx : x.Aside) (hy : y.Aside) : Agree (fun _ _ => True) x y := by
  intro n n' world world' halike
  obtain ⟨_, after, hrun, hbeside⟩ := exists_run_done (hx world.kernel)
  obtain ⟨_, after', hrun', hbeside'⟩ := exists_run_done (hy world'.kernel)
  rw [hrun, hrun']
  exact ⟨.done trivial, halike.beside hbeside hbeside'⟩

theorem asks_require {P : Request → Prop} {value? : Option α} : (require value? : Program ε α).Asks P := by
  cases value? <;> trivial

/-- A program that asks nothing of threads agrees with itself. -/
theorem Asks.agree {x : Program ε α} (h : x.Asks fun request => ¬ request.OfThreads) : Agree Eq x x := by
  intro n n' world world' halike
  induction x generalizing world world' with
  | done => exact ⟨.done rfl, halike⟩
  | failed error => exact ⟨.failed error, halike⟩
  | crashed => exact ⟨.crashed, halike⟩
  | emit event next ih => exact ih h halike
  | ask request next ih =>
    obtain ⟨hreply, hafter⟩ := halike.serve h.1
    rw [run, run]
    rcases hserve : Kernel.serve request world.kernel with ⟨reply, bed⟩
    rcases hserve' : Kernel.serve request world'.kernel with ⟨reply', bed'⟩
    rw [hserve, hserve'] at hreply hafter
    cases hreply
    cases reply with
    | none => exact ⟨.crashed, hafter⟩
    | some reply => exact ih reply (h.2 reply) hafter

end

end Program

end LivePatch
