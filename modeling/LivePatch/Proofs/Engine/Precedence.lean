import LivePatch.Proofs.Engine.Course
import LivePatch.Proofs.Engine.Transcript

/-!
# What comes before a request

Whether a request is in order can depend on what was exchanged before it. `Program.Heeds` speaks about all requests of a program
together with all that was exchanged by then, on every kernel, and also if the program crashes in the end. An invariant of what was
exchanged and of the kernel that no such request breaks holds all along a run.
-/

namespace LivePatch

namespace Program

variable {κ ε ε' α β : Type}

/-! ## Moments of a run -/

section

variable [Kernel κ] {x : Program ε α} {kernel state : κ}

/-- A state of a run is one in which some of its exchanges have been served, unless a request crashed and led there. -/
theorem served_of_mem_states {world : World κ} {outcome : Outcome ε α} {after : World κ} (hrun : x.run world = (outcome, after))
    (hreturns : outcome ≠ .crashed) (hstate : state ∈ x.states world.kernel) :
    ∃ ahead behind, x.exchanges world.kernel = ahead ++ behind ∧ Served world.kernel ahead state ∧
      Served state behind after.kernel := by
  induction x generalizing world with
  | done | failed =>
    cases hrun
    exact ⟨[], [], rfl, List.mem_singleton.1 hstate, List.mem_singleton.1 hstate ▸ rfl⟩
  | crashed =>
    cases hrun
    exact absurd rfl hreturns
  | emit event next ih => exact @ih { world with journal := world.journal.push event } hrun hstate
  | ask request next ih =>
    have hserved := served_run hrun hreturns
    rw [states, List.mem_cons] at hstate
    rcases hstate with rfl | hstate
    · exact ⟨[], _, rfl, rfl, hserved⟩
    · rw [run] at hrun
      rw [exchanges]
      rcases hserve : Kernel.serve request world.kernel with ⟨_ | reply, kernel⟩
      · rw [hserve] at hrun
        cases hrun
        exact absurd rfl hreturns
      · rw [hserve] at hrun hstate
        obtain ⟨ahead, behind, hes, hahead, hbehind⟩ := @ih reply { world with kernel := kernel } hrun hstate
        exact ⟨⟨request, reply⟩ :: ahead, behind, congrArg _ hes, ⟨kernel, hserve, hahead⟩, hbehind⟩

end

/-- Nothing is asked of a result. -/
theorem yields_any {x : Program ε α} : x.Yields fun _ _ => True := by
  induction x with
  | done | failed | crashed => trivial
  | emit event next ih => exact ih
  | ask request next ih => exact fun reply => ih reply

/-! ## Requests and what was exchanged before -/

/-- Behind the exchanges, every request of the program is as `P` says of it and of all that was exchanged by then. -/
def Heeds (P : List Exchange → Request → Prop) : List Exchange → Program ε α → Prop
  | _, done _ | _, failed _ | _, crashed => True
  | es, emit _ next => next.Heeds P es
  | es, ask request next => P es request ∧ ∀ reply, (next reply).Heeds P (es ++ [⟨request, reply⟩])

section

variable {P : List Exchange → Request → Prop} {es : List Exchange} {x : Program ε α}

@[simp] theorem heeds_request {request : Request} : (Program.request request : Program ε _).Heeds P es ↔ P es request :=
  and_iff_left fun _ => trivial

/-- What is asked of single requests is asked of them whatever was exchanged before. -/
theorem Asks.heeds {Q : Request → Prop} (h : x.Asks Q) (hQ : ∀ es request, Q request → P es request) : x.Heeds P es := by
  induction x generalizing es with
  | done | failed | crashed => trivial
  | emit event next ih => exact ih h
  | ask request next ih => exact ⟨hQ es request h.1, fun reply => ih reply (h.2 reply)⟩

/-- To heed nothing of what was exchanged is to ask. -/
theorem heeds_iff_asks {Q : Request → Prop} (es : List Exchange) : x.Heeds (fun _ => Q) es ↔ x.Asks Q := by
  induction x generalizing es with
  | done | failed | crashed => rfl
  | emit event next ih => exact ih es
  | ask request next ih => exact and_congr_right fun _ => forall_congr' fun reply => ih reply _

/-- The second part of a sequence comes behind the exchanges of the first one, with a value that the first one can have. -/
theorem Heeds.bind_yields {f : α → Program ε β} (h : x.Heeds P es)
    (hf : x.Yields fun result es' => ∀ value, result = .ok value → (f value).Heeds P (es ++ es')) : (x >>= f).Heeds P es := by
  induction x generalizing es with
  | done value =>
    have hvalue := hf value rfl
    rw [List.append_nil] at hvalue
    exact hvalue
  | failed | crashed => trivial
  | emit event next ih => exact ih h hf
  | ask request next ih =>
    refine ⟨h.1, fun reply => ih reply (h.2 reply) ((hf reply).mono fun result es' hes' value hvalue => ?_)⟩
    rw [List.append_assoc]
    exact hes' value hvalue

theorem Heeds.bind {f : α → Program ε β} (h : x.Heeds P es) (hf : ∀ value es', (f value).Heeds P (es ++ es')) :
    (x >>= f).Heeds P es :=
  h.bind_yields (yields_any.mono fun _ es' _ value _ => hf value es')

/-- A value that must be there is the one that is there. -/
theorem heeds_require_bind {value? : Option α} {f : α → Program ε β}
    (hf : ∀ value, value? = some value → (f value).Heeds P es) : (require value? >>= f).Heeds P es := by
  cases value? with
  | none => trivial
  | some value => exact hf value rfl

/-- What decides an outcome without a request leaves nothing that was exchanged. -/
theorem heeds_ofOutcome_bind {outcome : Outcome ε α} {f : α → Program ε β} (hf : ∀ value, (f value).Heeds P es) :
    (ofOutcome outcome >>= f).Heeds P es := by
  cases outcome with
  | done value => exact hf value
  | failed | crashed => trivial

@[simp] theorem heeds_attempt : (x.attempt : Program ε' (Except ε α)).Heeds P es ↔ x.Heeds P es := by
  induction x generalizing es with
  | done | failed | crashed => rfl
  | emit event next ih => exact ih
  | ask request next ih => exact and_congr_right fun _ => forall_congr' fun reply => ih reply

theorem Heeds.during {step : Step} {x : Program Error (Except KernelCode α)} (h : x.Heeds P es) : (x.during step).Heeds P es :=
  h.bind fun result _ => by cases result <;> trivial

/-- Reporting asks for nothing. -/
theorem Heeds.reporting {operation : Operation} {x : Engine α} (h : x.Heeds P es) :
    (LivePatch.reporting operation x).Heeds P es := by
  refine Heeds.bind (heeds_attempt.2 h) fun result _ => ?_
  cases result with
  | ok => trivial
  | error error =>
    have hquiet : (noteAll (failureEvents operation error) >>= fun _ => (failed error : Engine α)).Asks fun _ => False :=
      asks_noteAll.bind fun _ => trivial
    exact hquiet.heeds fun _ _ => False.elim

/-! ## Invariants of what was exchanged -/

variable [Kernel κ] {Inv : List Exchange → κ → Prop} {kernel : κ}

/-- No request that is as `P` says breaks the invariant. One that crashes leaves nothing that was exchanged. -/
def Upholds (P : List Exchange → Request → Prop) (Inv : List Exchange → κ → Prop) : Prop :=
  ∀ es request kernel, P es request → Inv es kernel →
    (∀ reply, (Kernel.serve request kernel).1 = some reply → Inv (es ++ [⟨request, reply⟩]) (Kernel.serve request kernel).2) ∧
      ((Kernel.serve request kernel).1 = none → Inv es (Kernel.serve request kernel).2)

/-- An invariant that no request of the program breaks holds in every state of its run. -/
theorem Heeds.states (h : x.Heeds P es) (hserve : Upholds P Inv) (hinv : Inv es kernel) :
    ∀ state ∈ x.states kernel, ∃ es', Inv (es ++ es') state := by
  induction x generalizing es kernel with
  | done | failed | crashed =>
    rintro state hstate
    cases List.mem_singleton.1 hstate
    exact ⟨[], (List.append_nil es).symm ▸ hinv⟩
  | emit event next ih => exact ih h hinv
  | ask request next ih =>
    obtain ⟨hreply, hnone⟩ := hserve es request kernel h.1 hinv
    rw [Program.states, List.forall_mem_cons]
    refine ⟨⟨[], (List.append_nil es).symm ▸ hinv⟩, ?_⟩
    rcases hserved : Kernel.serve request kernel with ⟨_ | reply, kernel'⟩
    · rw [hserved] at hnone
      rw [List.forall_mem_singleton]
      exact ⟨[], (List.append_nil es).symm ▸ hnone rfl⟩
    · rw [hserved] at hreply
      intro state hstate
      obtain ⟨es', hes'⟩ := ih reply (h.2 reply) (hreply reply rfl) state hstate
      exact ⟨⟨request, reply⟩ :: es', by simpa using hes'⟩

/-- At the moment of each exchange of a run the invariant holds, and the request is as the program heeds. -/
theorem Heeds.moment (h : x.Heeds P es) (hserve : Upholds P Inv) (hinv : Inv es kernel) {ahead behind : List Exchange}
    {e : Exchange} (hes : x.exchanges kernel = ahead ++ e :: behind) :
    ∃ moment ∈ x.states kernel, Served kernel ahead moment ∧ Inv (es ++ ahead) moment ∧ P (es ++ ahead) e.request := by
  induction x generalizing es kernel ahead with
  | done | failed | crashed => simp [exchanges] at hes
  | emit event next ih => exact ih h hinv hes
  | ask request next ih =>
    obtain ⟨hreply, -⟩ := hserve es request kernel h.1 hinv
    rw [exchanges] at hes
    rw [Program.states]
    rcases hserved : Kernel.serve request kernel with ⟨_ | reply, kernel'⟩
    · rw [hserved] at hes
      simp at hes
    · rw [hserved] at hes hreply
      dsimp only at hes
      rcases List.cons_eq_append_iff.1 hes with ⟨rfl, hes⟩ | ⟨ahead, rfl, -⟩
      · cases hes
        exact ⟨kernel, List.mem_cons_self, rfl, (List.append_nil es).symm ▸ hinv, (List.append_nil es).symm ▸ h.1⟩
      · obtain ⟨moment, hmem, hahead, hmoment, hrequest⟩ := ih reply (h.2 reply) (hreply reply rfl) (List.cons.inj hes).2
        rw [List.append_assoc] at hmoment hrequest
        exact ⟨moment, List.mem_cons_of_mem _ hmem, ⟨kernel', hserved, hahead⟩, hmoment, hrequest⟩

end

end Program

end LivePatch
