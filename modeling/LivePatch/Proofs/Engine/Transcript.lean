import LivePatch.Engine.World

/-!
# Transcripts

The transcript of a run is the list of the requests that it made and of the replies that came back. `Program.Yields` speaks
about all transcripts of a program at once: every reply to every request has to lead to what is asked of the result and of the
exchanges that led there. No kernel takes part in it, so what is yielded holds on every kernel, however it behaves. A program
that crashes promises nothing.
-/

namespace LivePatch

/-- A request and the reply to it. -/
structure Exchange where
  request : Request
  reply : request.Reply

/-- Requests that leave the memory as it is and that discard no instructions. -/
def Request.Idle : Request → Prop
  | .region _ | .read .. | .threads | .currentThread | .release _ | .suspend _ | .resume _ => True
  | .allocate .. | .deallocate .. | .protect .. | .copy .. | .write .. | .flush .. => False

namespace Program

variable {κ ε ε' α β : Type}

/-- The exchanges of a run, in their order. A request that crashes the kernel has no reply and is not among them. -/
def exchanges [Kernel κ] : Program ε α → κ → List Exchange
  | done _, _ | failed _, _ | crashed, _ => []
  | emit _ next, kernel => next.exchanges kernel
  | ask request next, kernel =>
    match Kernel.serve request kernel with
    | (some reply, kernel) => ⟨request, reply⟩ :: (next reply).exchanges kernel
    | (none, _) => []

/-- The kernel serves the exchanges one after the other, and gets to the final state with that. -/
def Served [Kernel κ] (kernel : κ) : List Exchange → κ → Prop
  | [], final => final = kernel
  | e :: es, final => ∃ next, Kernel.serve e.request kernel = (some e.reply, next) ∧ Served next es final

/-- Whatever the replies, a program that ends with a result does so as `P` asks of the result and the exchanges. -/
def Yields : Program ε α → (Except ε α → List Exchange → Prop) → Prop
  | done value, P => P (.ok value) []
  | failed error, P => P (.error error) []
  | crashed, _ => True
  | emit _ next, P => next.Yields P
  | ask request next, P => ∀ reply, (next reply).Yields fun result es => P result (⟨request, reply⟩ :: es)

/-- A sequence has the exchanges of its first part, and those of its second part from where the first one ends well. -/
theorem exchanges_bind [Kernel κ] (x : Program ε α) (f : α → Program ε β) (world : World κ) :
    (x >>= f).exchanges world.kernel = x.exchanges world.kernel ++ match x.run world with
      | (.done value, after) => (f value).exchanges after.kernel
      | (_, _) => [] := by
  induction x generalizing world with
  | done | failed | crashed => rfl
  | emit event next ih => exact ih { world with journal := world.journal.push event }
  | ask request next ih =>
    simp only [ask_bind, exchanges, run]
    rcases Kernel.serve request world.kernel with ⟨_ | reply, kernel⟩
    · rfl
    · simp only [List.cons_append]
      rw [ih reply { world with kernel := kernel }]

@[simp] theorem exchanges_attempt [Kernel κ] (x : Program ε α) (kernel : κ) :
    (x.attempt : Program ε' (Except ε α)).exchanges kernel = x.exchanges kernel := by
  induction x generalizing kernel with
  | done | failed | crashed => rfl
  | emit event next ih => exact ih kernel
  | ask request next ih =>
    simp only [attempt, exchanges]
    rcases Kernel.serve request kernel with ⟨_ | reply, kernel⟩
    · rfl
    · simp only [ih]

/-- A kernel serves two lists of exchanges as one. -/
theorem served_append [Kernel κ] {kernel final : κ} {es es' : List Exchange} :
    Served kernel (es ++ es') final ↔ ∃ next, Served kernel es next ∧ Served next es' final := by
  induction es generalizing kernel with
  | nil =>
    constructor
    · exact fun h => ⟨kernel, rfl, h⟩
    · rintro ⟨_, rfl, h⟩
      exact h
  | cons e es ih =>
    simp only [List.cons_append, Served, ih]
    constructor
    · rintro ⟨next, hnext, between, hes, hes'⟩
      exact ⟨between, ⟨next, hnext, hes⟩, hes'⟩
    · rintro ⟨between, ⟨next, hnext, hes⟩, hes'⟩
      exact ⟨next, hnext, between, hes, hes'⟩

/-- The kernel of a run that returns served its exchanges. -/
theorem served_run [Kernel κ] {x : Program ε α} {world after : World κ} {outcome : Outcome ε α}
    (hrun : x.run world = (outcome, after)) (hreturns : outcome ≠ .crashed) :
    Served world.kernel (x.exchanges world.kernel) after.kernel := by
  induction x generalizing world with
  | done | failed =>
    cases hrun
    rfl
  | crashed =>
    cases hrun
    exact absurd rfl hreturns
  | emit event next ih =>
    have hnext : next.run { world with journal := world.journal.push event } = (outcome, after) := hrun
    have hserved := ih hnext
    exact hserved
  | ask request next ih =>
    rw [run] at hrun
    rw [exchanges]
    rcases hserve : Kernel.serve request world.kernel with ⟨_ | reply, kernel⟩
    · rw [hserve] at hrun
      cases hrun
      exact absurd rfl hreturns
    · rw [hserve] at hrun
      have hnext : (next reply).run { world with kernel := kernel } = (outcome, after) := hrun
      exact ⟨kernel, hserve, ih reply hnext⟩

/-! ## Results and their transcripts -/

section Yields

variable {P P' : Except ε α → List Exchange → Prop}

@[simp] theorem yields_done {value : α} : (done value : Program ε α).Yields P ↔ P (.ok value) [] := Iff.rfl

@[simp] theorem yields_failed {error : ε} : (failed error : Program ε α).Yields P ↔ P (.error error) [] := Iff.rfl

@[simp] theorem yields_crashed : (crashed : Program ε α).Yields P := trivial

theorem yields_request {request : Request} {P : Except ε request.Reply → List Exchange → Prop} :
    (Program.request request).Yields P ↔ ∀ reply, P (.ok reply) [⟨request, reply⟩] := Iff.rfl

/-- What is yielded holds of every run that ends with a result. -/
theorem Yields.of_run [Kernel κ] {x : Program ε α} (h : x.Yields P) {world after : World κ} {outcome : Outcome ε α}
    {result : Except ε α} (hrun : x.run world = (outcome, after)) (hresult : outcome.toExcept? = some result) :
    P result (x.exchanges world.kernel) := by
  induction x generalizing P world with
  | done | failed =>
    cases hrun
    cases hresult
    exact h
  | crashed =>
    cases hrun
    cases hresult
  | emit event next ih =>
    have hP := ih h hrun
    exact hP
  | ask request next ih =>
    rw [run] at hrun
    rw [exchanges]
    rcases hserve : Kernel.serve request world.kernel with ⟨_ | reply, kernel⟩
    · rw [hserve] at hrun
      cases hrun
      cases hresult
    · rw [hserve] at hrun
      have hnext : (next reply).run { world with kernel := kernel } = (outcome, after) := hrun
      exact ih reply (h reply) hnext

/-- A weaker demand is met as well. -/
theorem Yields.mono {x : Program ε α} (h : x.Yields P) (hP : ∀ result es, P result es → P' result es) : x.Yields P' := by
  induction x generalizing P P' with
  | done | failed => exact hP _ _ h
  | crashed => trivial
  | emit event next ih => exact ih h hP
  | ask request next ih => exact fun reply => ih reply (h reply) fun result es => hP result _

/-- A sequence has the exchanges of its first part, and behind them those of its second part if there is a value for it. -/
theorem yields_bind {x : Program ε α} {f : α → Program ε β} {P : Except ε β → List Exchange → Prop} :
    (x >>= f).Yields P ↔ x.Yields fun result es => match result with
      | .ok value => (f value).Yields fun result' es' => P result' (es ++ es')
      | .error error => P (.error error) es := by
  induction x generalizing P with
  | done | failed | crashed => rfl
  | emit event next ih => exact ih
  | ask request next ih => exact forall_congr' fun reply => ih reply

/-- What is done with the reply to a request comes behind it. -/
theorem yields_request_bind {request : Request} {f : request.Reply → Program ε β} {P : Except ε β → List Exchange → Prop} :
    (Program.request request >>= f).Yields P ↔
      ∀ reply, (f reply).Yields fun result es => P result (⟨request, reply⟩ :: es) := Iff.rfl

/-- An attempt has an error for a value. -/
theorem yields_attempt {x : Program ε α} {P : Except ε' (Except ε α) → List Exchange → Prop} :
    (x.attempt : Program ε' (Except ε α)).Yields P ↔ x.Yields fun result => P (.ok result) := by
  induction x generalizing P with
  | done | failed | crashed => rfl
  | emit event next ih => exact ih
  | ask request next ih => exact forall_congr' fun reply => ih reply

theorem yields_noteAll {events : List Event} {P : Except ε Unit → List Exchange → Prop} :
    (noteAll events : Program ε Unit).Yields P ↔ P (.ok ()) [] := by
  induction events with
  | nil => rfl
  | cons event rest ih => exact ih

theorem yields_require {value? : Option α} :
    (require value? : Program ε α).Yields P ↔ ∀ value, value? = some value → P (.ok value) [] := by
  cases value? <;> simp [require]

theorem yields_ofExcept {result : Except ε α} : (ofExcept result).Yields P ↔ P result [] := by
  cases result <;> rfl

/-- A step that fails has an error that names it. -/
theorem yields_during {step : Step} {x : Program Error (Except KernelCode α)} {P : Except Error α → List Exchange → Prop} :
    (x.during step).Yields P ↔ x.Yields fun result es => match result with
      | .ok (.ok value) => P (.ok value) es
      | .ok (.error code) => P (.error (.ofKernel step code)) es
      | .error error => P (.error error) es := by
  rw [during, yields_bind]
  constructor
  all_goals
    intro h
    refine h.mono fun result es hresult => ?_
    rcases result with error | value | code
  all_goals simpa using hresult

end Yields

/-- Reporting a failure asks for nothing. -/
theorem yields_reporting {operation : Operation} {x : Engine α} {P : Except Error α → List Exchange → Prop} :
    (reporting operation x).Yields P ↔ x.Yields P := by
  rw [reporting, yields_bind, yields_attempt]
  constructor
  all_goals
    intro h
    refine h.mono fun result es hresult => ?_
    cases result
  all_goals simpa [yields_bind, yields_noteAll] using hresult

end Program

end LivePatch
