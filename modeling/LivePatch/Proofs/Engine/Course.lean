import LivePatch.Proofs.Engine.Condition

/-!
# The course of a run

A run takes its kernel through one state after the other, one for each request, and the last request may crash. What every request
of a program is, whatever it was told before, says which of these states are possible: an invariant that holds at the start and
that no such request breaks holds in all of them.
-/

namespace LivePatch

namespace Program

variable {κ ε ε' α β : Type}

/-- The states of the kernel in a run: the one that the run starts in, and that after every single request, also after one that
crashes. -/
def states [Kernel κ] : Program ε α → κ → List κ
  | done _, kernel | failed _, kernel | crashed, kernel => [kernel]
  | emit _ next, kernel => next.states kernel
  | ask request next, kernel =>
    kernel :: match Kernel.serve request kernel with
    | (some reply, kernel) => (next reply).states kernel
    | (none, kernel) => [kernel]

/-- Every request of the program is as `P` says, whatever came back for those before it. -/
def Asks (P : Request → Prop) : Program ε α → Prop
  | done _ | failed _ | crashed => True
  | emit _ next => next.Asks P
  | ask request next => P request ∧ ∀ reply, (next reply).Asks P

section

variable {P : Request → Prop} {x : Program ε α}

@[simp] theorem asks_done {value : α} : (done value : Program ε α).Asks P := trivial

@[simp] theorem asks_failed {error : ε} : (failed error : Program ε α).Asks P := trivial

@[simp] theorem asks_crashed : (crashed : Program ε α).Asks P := trivial

@[simp] theorem asks_request {request : Request} : (Program.request request : Program ε _).Asks P ↔ P request :=
  and_iff_left fun _ => trivial

@[simp] theorem asks_noteAll {events : List Event} : (noteAll events : Program ε Unit).Asks P := by
  induction events with
  | nil => trivial
  | cons event rest ih => exact ih

@[simp] theorem asks_ofExcept {result : Except ε α} : (ofExcept result).Asks P := by
  cases result <;> trivial

@[simp] theorem asks_ofOutcome {outcome : Outcome ε α} : (ofOutcome outcome).Asks P := by
  cases outcome <;> trivial

theorem Asks.mono {P' : Request → Prop} (h : x.Asks P) (hP : ∀ request, P request → P' request) : x.Asks P' := by
  induction x with
  | done | failed | crashed => trivial
  | emit event next ih => exact ih h
  | ask request next ih => exact ⟨hP request h.1, fun reply => ih reply (h.2 reply)⟩

/-- Nothing is asked of the requests. -/
theorem asks_any : x.Asks fun _ => True := by
  induction x with
  | done | failed | crashed => trivial
  | emit event next ih => exact ih
  | ask request next ih => exact ⟨trivial, fun reply => ih reply⟩

theorem Asks.bind {f : α → Program ε β} (h : x.Asks P) (hf : ∀ value, (f value).Asks P) : (x >>= f).Asks P := by
  induction x with
  | done value => exact hf value
  | failed | crashed => trivial
  | emit event next ih => exact ih h
  | ask request next ih => exact ⟨h.1, fun reply => ih reply (h.2 reply)⟩

/-- A value that must be there is the one that is there. -/
theorem asks_require_bind {value? : Option α} {f : α → Program ε β} (hf : ∀ value, value? = some value → (f value).Asks P) :
    (require value? >>= f).Asks P := by
  cases value? with
  | none => trivial
  | some value => exact hf value rfl

@[simp] theorem asks_attempt : (x.attempt : Program ε' (Except ε α)).Asks P ↔ x.Asks P := by
  induction x with
  | done | failed | crashed => rfl
  | emit event next ih => exact ih
  | ask request next ih => exact and_congr_right fun _ => forall_congr' fun reply => ih reply

theorem Asks.during {step : Step} {x : Program Error (Except KernelCode α)} (h : x.Asks P) : (x.during step).Asks P :=
  h.bind fun result => by cases result <;> trivial

theorem Asks.reporting {operation : Operation} {x : Engine α} (h : x.Asks P) : (LivePatch.reporting operation x).Asks P := by
  refine Asks.bind (asks_attempt.2 h) fun result => ?_
  cases result with
  | ok => trivial
  | error error => exact asks_noteAll.bind fun _ => trivial

/-! ## Invariants -/

variable [Kernel κ] {Inv : κ → Prop}

/-- An invariant that no request of the program breaks holds in every state of its run. -/
theorem Asks.states (h : x.Asks P) (hserve : ∀ request kernel, P request → Inv kernel → Inv (Kernel.serve request kernel).2)
    {kernel : κ} (hinv : Inv kernel) : ∀ state ∈ x.states kernel, Inv state := by
  induction x generalizing kernel with
  | done | failed | crashed => simpa [Program.states] using hinv
  | emit event next ih => exact ih h hinv
  | ask request next ih =>
    have hnext := hserve request kernel h.1 hinv
    rw [Program.states]
    rcases hserved : Kernel.serve request kernel with ⟨_ | reply, kernel'⟩
    · rw [hserved] at hnext
      simpa using ⟨hinv, hnext⟩
    · rw [hserved] at hnext
      simpa using ⟨hinv, ih reply (h.2 reply) hnext⟩

/-- An invariant that no request of the program breaks may be used in every demand on its end. -/
theorem Asks.wp {Q : α → κ → Prop} {E : ε → κ → Prop} {C : κ → Prop} {kernel : κ} (h : x.Asks P)
    (hserve : ∀ request kernel, P request → Inv kernel → Inv (Kernel.serve request kernel).2) (hinv : Inv kernel)
    (hwp : x.wp (fun value k => Inv k → Q value k) (fun error k => Inv k → E error k) C kernel) : x.wp Q E C kernel := by
  induction x generalizing kernel with
  | done | failed => exact hwp hinv
  | crashed => exact hwp
  | emit event next ih => exact ih h hinv hwp
  | ask request next ih =>
    have hnext := hserve request kernel h.1 hinv
    simp only [Program.wp, Answered] at hwp ⊢
    rcases hserved : Kernel.serve request kernel with ⟨_ | reply, kernel'⟩
    · rw [hserved] at hwp
      exact hwp
    · rw [hserved] at hwp hnext
      exact ih reply (h.2 reply) hnext hwp

/-- The state that a run leaves is the last one of them. -/
theorem run_mem_states (x : Program ε α) (world : World κ) : (x.run world).2.kernel ∈ x.states world.kernel := by
  induction x generalizing world with
  | done | failed | crashed => exact List.mem_singleton.2 rfl
  | emit event next ih => exact ih { world with journal := world.journal.push event }
  | ask request next ih =>
    rw [Program.states, run]
    rcases Kernel.serve request world.kernel with ⟨_ | reply, kernel⟩
    · exact List.mem_cons_of_mem _ (List.mem_singleton.2 rfl)
    · exact List.mem_cons_of_mem _ (ih reply { world with kernel := kernel })

end

end Program

end LivePatch
