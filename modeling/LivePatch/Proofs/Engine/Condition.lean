import LivePatch.Engine.World

/-!
# Conditions on kernels

`Program.wp` is the weakest condition on a kernel under which a program that runs there ends as is asked: there is one demand
for each of the three ways to end. The journal takes no part in it, because no program reads it. `wp_iff_run` ties the
condition to the run; the other statements compute it along the structure of a program.
-/

namespace LivePatch

namespace Program

variable {κ ε ε' α β : Type}

/-- What came back for a request meets `Q`, or it was no reply and meets `C`. -/
def Answered {β : Type} (answer : Option β × κ) (Q : β → κ → Prop) (C : κ → Prop) : Prop :=
  match answer with
  | (some reply, kernel) => Q reply kernel
  | (none, kernel) => C kernel

@[simp] theorem answered_some {β : Type} {reply : β} {kernel : κ} {Q : β → κ → Prop} {C : κ → Prop} :
    Answered (some reply, kernel) Q C ↔ Q reply kernel := Iff.rfl

@[simp] theorem answered_none {β : Type} {kernel : κ} {Q : β → κ → Prop} {C : κ → Prop} :
    Answered ((none : Option β), kernel) Q C ↔ C kernel := Iff.rfl

variable [Kernel κ]

/-- The condition on a kernel under which the program ends with a value as `Q` asks, with an error as `E` asks, or by
crashing as `C` asks. -/
def wp : Program ε α → (α → κ → Prop) → (ε → κ → Prop) → (κ → Prop) → κ → Prop
  | done value, Q, _, _, kernel => Q value kernel
  | failed error, _, E, _, kernel => E error kernel
  | crashed, _, _, C, kernel => C kernel
  | emit _ next, Q, E, C, kernel => next.wp Q E C kernel
  | ask request next, Q, E, C, kernel =>
    Answered (Kernel.serve request kernel) (fun reply kernel => (next reply).wp Q E C kernel) C

variable {Q Q' : α → κ → Prop} {E E' : ε → κ → Prop} {C C' : κ → Prop} {kernel : κ}

@[simp] theorem wp_done (value : α) : (done value : Program ε α).wp Q E C kernel ↔ Q value kernel := Iff.rfl

@[simp] theorem wp_failed (error : ε) : (failed error : Program ε α).wp Q E C kernel ↔ E error kernel := Iff.rfl

@[simp] theorem wp_crashed : (crashed : Program ε α).wp Q E C kernel ↔ C kernel := Iff.rfl

@[simp] theorem wp_emit (event : Event) (next : Program ε α) : (emit event next).wp Q E C kernel ↔ next.wp Q E C kernel :=
  Iff.rfl

theorem wp_request (request : Request) {Q : request.Reply → κ → Prop} :
    (Program.request request : Program ε _).wp Q E C kernel ↔ Answered (Kernel.serve request kernel) Q C := Iff.rfl

/-- The condition speaks about the run. -/
theorem wp_iff_run (x : Program ε α) (world : World κ) :
    x.wp Q E C world.kernel ↔
      match x.run world with
      | (.done value, after) => Q value after.kernel
      | (.failed error, after) => E error after.kernel
      | (.crashed, after) => C after.kernel := by
  induction x generalizing world with
  | done | failed | crashed => rfl
  | emit event next ih => exact ih { world with journal := world.journal.push event }
  | ask request next ih =>
    simp only [wp, Answered, run]
    rcases Kernel.serve request world.kernel with ⟨_ | reply, kernel⟩
    · rfl
    · exact ih reply { world with kernel := kernel }

/-- What is asked of a value holds of the value that a run ends with. -/
theorem wp_run_done {x : Program ε α} {world after : World κ} {value : α} (h : x.wp Q E C world.kernel)
    (hrun : x.run world = (.done value, after)) : Q value after.kernel := by
  rw [wp_iff_run, hrun] at h
  exact h

/-- What is asked of an error holds of the error that a run ends with. -/
theorem wp_run_failed {x : Program ε α} {world after : World κ} {error : ε} (h : x.wp Q E C world.kernel)
    (hrun : x.run world = (.failed error, after)) : E error after.kernel := by
  rw [wp_iff_run, hrun] at h
  exact h

/-- A program that must end with a value does. -/
theorem exists_run_done {x : Program ε α} {world : World κ}
    (h : x.wp Q (fun _ _ => False) (fun _ => False) world.kernel) :
    ∃ value after, x.run world = (.done value, after) ∧ Q value after.kernel := by
  rw [wp_iff_run] at h
  rcases hrun : x.run world with ⟨value | error | _, after⟩
  · rw [hrun] at h
    exact ⟨value, after, rfl, h⟩
  · rw [hrun] at h
    exact h.elim
  · rw [hrun] at h
    exact h.elim

/-- A run that is known to end in some way leaves some world. -/
theorem exists_run_eq {x : Program ε α} {world : World κ} {outcome : Outcome ε α} (h : (x.run world).1 = outcome) :
    ∃ after, x.run world = (outcome, after) := ⟨(x.run world).2, Prod.ext h rfl⟩

/-- A weaker demand is met as well. -/
theorem wp_mono {x : Program ε α} (h : x.wp Q E C kernel) (hQ : ∀ value k, Q value k → Q' value k)
    (hE : ∀ error k, E error k → E' error k) (hC : ∀ k, C k → C' k) : x.wp Q' E' C' kernel := by
  induction x generalizing kernel with
  | done value => exact hQ _ _ h
  | failed error => exact hE _ _ h
  | crashed => exact hC _ h
  | emit event next ih => exact ih h
  | ask request next ih =>
    simp only [wp, Answered] at h ⊢
    rcases hserve : Kernel.serve request kernel with ⟨_ | reply, k⟩
    · rw [hserve] at h
      exact hC _ h
    · rw [hserve] at h
      exact ih reply h

/-- A demand that is always met is met by every program. -/
theorem wp_always {x : Program ε α} (hQ : ∀ value k, Q value k) (hE : ∀ error k, E error k) (hC : ∀ k, C k) :
    x.wp Q E C kernel := by
  rw [wp_iff_run x { kernel := kernel }]
  rcases x.run { kernel := kernel } with ⟨value | error | _, after⟩
  · exact hQ value _
  · exact hE error _
  · exact hC _

/-- Two demands that are met are met together. -/
theorem wp_and {x : Program ε α} (h : x.wp Q E C kernel) (h' : x.wp Q' E' C' kernel) :
    x.wp (fun value k => Q value k ∧ Q' value k) (fun error k => E error k ∧ E' error k) (fun k => C k ∧ C' k) kernel := by
  rw [wp_iff_run x { kernel := kernel }] at *
  revert h h'
  rcases x.run { kernel := kernel } with ⟨value | error | _, after⟩
  all_goals exact And.intro

/-- A sequence meets a demand if its first part leads to where the second part meets it. -/
theorem wp_bind (x : Program ε α) (f : α → Program ε β) {Q : β → κ → Prop} :
    (x >>= f).wp Q E C kernel ↔ x.wp (fun value k => (f value).wp Q E C k) E C kernel := by
  induction x generalizing kernel with
  | done | failed | crashed => rfl
  | emit event next ih => exact ih
  | ask request next ih =>
    simp only [ask_bind, wp, Answered]
    rcases Kernel.serve request kernel with ⟨_ | reply, k⟩
    · rfl
    · exact ih reply

/-- An attempt has an error for a value. -/
theorem wp_attempt (x : Program ε α) {Q : Except ε α → κ → Prop} {E : ε' → κ → Prop} :
    (x.attempt : Program ε' (Except ε α)).wp Q E C kernel ↔
      x.wp (fun value => Q (.ok value)) (fun error => Q (.error error)) C kernel := by
  induction x generalizing kernel with
  | done | failed | crashed => rfl
  | emit event next ih => exact ih
  | ask request next ih =>
    simp only [attempt, wp, Answered]
    rcases Kernel.serve request kernel with ⟨_ | reply, k⟩
    · rfl
    · exact ih reply

@[simp] theorem wp_note (event : Event) {Q : Unit → κ → Prop} :
    (note event : Program ε Unit).wp Q E C kernel ↔ Q () kernel := Iff.rfl

@[simp] theorem wp_noteAll (events : List Event) {Q : Unit → κ → Prop} :
    (noteAll events : Program ε Unit).wp Q E C kernel ↔ Q () kernel := by
  induction events with
  | nil => rfl
  | cons event rest ih => exact ih

/-- A value that must be there meets the demand if it is there; if it is not, the program crashes. -/
theorem wp_require {value? : Option α} :
    (require value? : Program ε α).wp Q E C kernel ↔
      (∀ value, value? = some value → Q value kernel) ∧ (value? = none → C kernel) := by
  cases value? <;> simp [require]

/-- A step that fails has an error that names it. -/
theorem wp_during {step : Step} {x : Program Error (Except KernelCode α)} {E : Error → κ → Prop} :
    (x.during step).wp Q E C kernel ↔
      x.wp (fun result k => match result with
        | .ok value => Q value k
        | .error code => E (.ofKernel step code) k) E C kernel := by
  rw [during, wp_bind]
  constructor
  all_goals
    intro h
    refine wp_mono h (fun result k hr => ?_) (fun _ _ he => he) fun _ hc => hc
    cases result <;> exact hr

end Program

/-- Reporting a failure changes nothing but the journal. -/
theorem wp_reporting {κ α : Type} [Kernel κ] {operation : Operation} {x : Engine α} {Q : α → κ → Prop}
    {E : Error → κ → Prop} {C : κ → Prop} {kernel : κ} :
    (reporting operation x).wp Q E C kernel ↔ x.wp Q E C kernel := by
  rw [reporting, Program.wp_bind, Program.wp_attempt]
  constructor
  all_goals
    intro h
    refine Program.wp_mono h (fun _ _ hq => hq) (fun error k he => ?_) fun _ hc => hc
  · simpa [Program.wp_bind] using he
  · simpa [Program.wp_bind] using he

end LivePatch
