import LivePatch.Proofs.Engine.Requests

/-!
# From the start of a run to its end

A relation that holds over each single request holds over a whole run, however the run ends. Some relations do not hold over the
single requests of a sweep, which lists the threads and gives the list back, but over the sweep as a whole. They hold over all
operations as well, because an operation asks the threads for something in whole sweeps alone.
-/

namespace LivePatch

open Program (asks_request asks_noteAll asks_ofExcept asks_ofOutcome asks_attempt asks_require_bind)

/-- The relation holds between the kernel that a run starts with and the one that it leaves. -/
def Program.Leads {κ ε α : Type} [Kernel κ] (R : κ → κ → Prop) (x : Program ε α) : Prop :=
  ∀ world : World κ, R world.kernel (x.run world).2.kernel

/-- The relation holds over any number of steps, over every request that is not about threads, and over every sweep. -/
structure Passage {κ : Type} [Kernel κ] (R : κ → κ → Prop) : Prop where
  refl : ∀ kernel, R kernel kernel
  trans : ∀ {kernel kernel' kernel'' : κ}, R kernel kernel' → R kernel' kernel'' → R kernel kernel''
  request : ∀ (request : Request) kernel, ¬ request.OfThreads → R kernel (Kernel.serve request kernel).2
  sweep : ∀ {ε : Type} kind report, (sweep kind report : Program ε (Except KernelCode SweepReport)).Leads R

namespace Passage

variable {κ ε ε' α β : Type} [Kernel κ] {R : κ → κ → Prop} {x : Program ε α}

/-! ## Programs -/

theorem asks (h : Passage R) (hx : x.Asks fun request => ¬ request.OfThreads) : x.Leads R := by
  induction x with
  | done | failed | crashed => exact fun world => h.refl world.kernel
  | emit event next ih => exact fun world => ih hx { world with journal := world.journal.push event }
  | ask request next ih =>
    intro world
    have hserve := h.request request world.kernel hx.1
    rw [Program.run]
    rcases hserved : Kernel.serve request world.kernel with ⟨_ | reply, kernel⟩
    · rw [hserved] at hserve
      exact hserve
    · rw [hserved] at hserve
      exact h.trans hserve (ih reply (hx.2 reply) { world with kernel := kernel })

theorem bind (h : Passage R) {f : α → Program ε β} (hx : x.Leads R) (hf : ∀ value, (f value).Leads R) : (x >>= f).Leads R := by
  intro world
  have hfirst := hx world
  rw [Program.run_bind]
  rcases hrun : x.run world with ⟨value | error | _, between⟩
  · rw [hrun] at hfirst
    exact h.trans hfirst (hf value between)
  · rw [hrun] at hfirst
    exact hfirst
  · rw [hrun] at hfirst
    exact hfirst

/-- A value that must be there is the one that is there. -/
theorem require_bind (h : Passage R) {value? : Option α} {f : α → Program ε β} (hf : ∀ value, (f value).Leads R) :
    (Program.require value? >>= f).Leads R := by
  cases value? with
  | none => exact fun world => h.refl world.kernel
  | some value => exact hf value

/-- An attempt leaves the kernel that the program leaves. -/
theorem attempt (hx : x.Leads R) : (x.attempt : Program ε' (Except ε α)).Leads R := by
  intro world
  have hsame := hx world
  rw [Program.run_attempt]
  rcases hrun : x.run world with ⟨value | error | _, after⟩
  all_goals
    rw [hrun] at hsame
    exact hsame

theorem reporting (h : Passage R) {operation : Operation} {x : Engine α} (hx : x.Leads R) :
    (LivePatch.reporting operation x).Leads R := by
  refine h.bind (attempt hx) fun result => h.asks ?_
  cases result with
  | ok => trivial
  | error error => exact asks_noteAll.bind fun _ => trivial

/-! ## Operations -/

section

variable {strict attempted : Bool} {change : Engine Unit} {host : Host} {image : Image} {target imageBase : Address} {pageSize : Nat}
  {bytes : Bytes} {config : Config}

theorem paused (h : Passage R) (hchange : change.Leads R) :
    (LivePatch.paused strict change : Program ε (BracketReports × Except Error Unit)).Leads R := by
  refine h.bind (h.sweep .suspend {}) fun result => ?_
  cases result with
  | error code => exact fun world => h.refl world.kernel
  | ok suspended =>
    dsimp only
    split
    · exact h.bind (h.sweep .resume {}) fun result => h.asks (by cases result <;> trivial)
    · refine h.bind (attempt hchange) fun _ => h.bind (h.sweep .resume {}) fun result => h.asks ?_
      cases result <;> trivial

theorem runRoutine (h : Passage R) {routine : Routine} {shadow : Shadow} (hchange : change.Leads R) :
    (LivePatch.runRoutine routine host shadow strict change).Leads R := by
  refine h.bind (h.asks (asks_attempt.2 asks_ofOutcome)) fun entry => ?_
  cases entry with
  | error error => exact h.asks (asks_noteAll.bind fun _ => trivial)
  | ok =>
    refine h.bind (h.paused hchange) fun (_, _) => h.asks ?_
    exact asks_noteAll.bind fun _ => asks_ofExcept

theorem prepare (h : Passage R) : (Image.prepare host attempted imageBase pageSize config).Leads R := by
  have hsurvey : ∀ {α : Type} {x : Engine α}, x.Asks Request.OfSurvey → x.Leads R :=
    fun hx => h.asks (hx.mono fun _ => Request.OfSurvey.not_ofThreads)
  have hreplace : ∀ code shadowBase, (replaceCode code shadowBase).Leads R := fun code shadowBase => h.asks
    (asks_replaceCode id id (fun _ => id) id)
  have hestablish : (Image.establish host imageBase pageSize config).Leads R := by
    refine h.bind (hsurvey asks_locate) fun layout => ?_
    refine h.bind (h.asks asks_ofOutcome) fun _ => h.bind (h.asks asks_ofOutcome) fun _ => ?_
    refine h.bind (hsurvey asks_buildShadow) fun shadow => h.bind (h.runRoutine (hreplace _ _)) fun _ => h.asks ?_
    exact Program.Asks.bind (asks_request.2 id) fun _ => asks_require_bind fun _ _ => trivial
  unfold Image.prepare
  split
  · exact fun world => h.refl world.kernel
  · exact h.reporting hestablish

theorem patch (h : Passage R) : (image.patch host target bytes).Leads R := by
  have hwrite : ∀ span, (writeCode target bytes span).Leads R :=
    fun span => h.asks (asks_writeCode_of id id id)
  have hoverwrite : (image.overwrite host target bytes).Leads R := by
    refine h.bind (h.require_bind fun span => h.runRoutine (hwrite span)) fun _ => h.asks ?_
    refine Program.Asks.bind (asks_request.2 id) fun _ => ?_
    split
    · exact (asks_verify id).bind fun _ => trivial
    · trivial
  rw [Image.patch]
  split
  · exact fun world => h.refl world.kernel
  · refine h.require_bind fun inside => ?_
    split
    · exact h.reporting hoverwrite
    · exact h.require_bind fun error => h.reporting fun world => h.refl world.kernel

theorem guardedPatch (h : Passage R) : (image.guardedPatch host target bytes).Leads R :=
  h.bind (h.asks (asks_save id)) fun _ => h.bind h.patch fun _ world => h.refl world.kernel

theorem release (h : Passage R) {guard : Guard} : (guard.release host).Leads R := by
  refine h.bind (attempt h.patch) fun result => h.asks ?_
  cases result <;> trivial

end

end Passage

end LivePatch
