import LivePatch.Proofs.Engine.Agreement

/-!
# Tolerant operations agree

An operation that tolerates refused suspensions looks at nothing that a thread answers. The change in a bracket is made whatever
the sweeps saw, and the bracket ends as the change does, or with the code that kept a sweep from its list. So all operations of
images that are tolerant agree with themselves on test beds that differ in their threads only.
-/

namespace LivePatch

open Program (Agree request asks_request asks_require asks_ofOutcome asks_ofExcept asks_attempt asks_require_bind)

/-! ## Brackets -/

/-- The results are errors with the same code, or both none. -/
def SameFailure {κ α β : Type} : Except κ α → Except κ β → Prop
  | .error code, .error code' => code = code'
  | .ok _, .ok _ => True
  | _, _ => False

section

variable {ε : Type} {kind : ThreadRequest} {report report' : SweepReport} {change : Engine Unit}

/-- Asking a thread leaves a call on the record, whether the thread refuses or not. -/
theorem aside_ask (thread : Thread) : (kind.ask thread : Program ε (Except KernelCode Unit)).Aside := by
  intro bed
  have hreply : ∀ (machine : Machine) (refusals : List Thread), ∃ answer, Machine.reply
      ((if thread ∈ refusals then .failed .failure else .done () : Outcome KernelCode Unit), machine) =
        (some answer, machine) := by
    intro machine refusals
    split
    · exact ⟨_, rfl⟩
    · exact ⟨_, rfl⟩
  cases kind with
  | suspend =>
    obtain ⟨answer, hanswer⟩ := hreply (bed.machine.recorded (.suspend thread)) bed.machine.suspendRefusals
    have hserve : Kernel.serve (.suspend thread) bed = bed.following (some answer, bed.machine.recorded (.suspend thread)) :=
      congrArg bed.following hanswer
    rw [ThreadRequest.ask, Program.wp_request, hserve]
    exact Testbed.beside_recorded rfl bed
  | resume =>
    obtain ⟨answer, hanswer⟩ := hreply (bed.machine.recorded (.resume thread)) bed.machine.resumeRefusals
    have hserve : Kernel.serve (.resume thread) bed = bed.following (some answer, bed.machine.recorded (.resume thread)) :=
      congrArg bed.following hanswer
    rw [ThreadRequest.ask, Program.wp_request, hserve]
    exact Testbed.beside_recorded rfl bed

theorem aside_askAll (threads : List Thread) (report : SweepReport) :
    (askAll kind threads report : Program ε SweepReport).Aside := by
  induction threads generalizing report with
  | nil => exact Program.aside_done report
  | cons thread rest ih =>
    exact (aside_ask thread).bind fun result => ih _

/-- Two sweeps agree on whether they got a list. -/
theorem agree_sweep : Agree SameFailure (sweep kind report : Program ε (Except KernelCode SweepReport)) (sweep kind report') := by
  have hlist : Agree SameFailure (request .threads : Program ε _) (request .threads) := by
    intro n n' world world' halike
    obtain ⟨hreplies, hafter⟩ := halike.serve_threads
    rcases hserve : Kernel.serve .threads world.kernel with ⟨reply, bed⟩
    rcases hserve' : Kernel.serve .threads world'.kernel with ⟨reply', bed'⟩
    rw [hserve, hserve'] at hreplies hafter
    simp only [request, Program.run, hserve, hserve']
    rcases hreplies with ⟨code, rfl, rfl⟩ | ⟨list, list', rfl, rfl⟩
    · exact ⟨.done rfl, hafter⟩
    · exact ⟨.done trivial, hafter⟩
  have hcaller : (request .currentThread : Program ε Thread).Aside := Testbed.Beside.refl
  have hrelease : ∀ list, (request (.release list) : Program ε Unit).Aside := fun _ => Testbed.Beside.refl
  refine hlist.bind fun result result' h => ?_
  rcases result with code | list
  · rcases result' with code' | list'
    · cases h
      exact .done rfl
    · exact h.elim
  · rcases result' with code' | list'
    · exact h.elim
    · refine (hcaller.agree hcaller).bind fun caller caller' _ => ?_
      refine ((aside_askAll _ report).agree (aside_askAll _ report')).bind fun _ _ _ => ?_
      exact ((hrelease list).agree (hrelease list')).bind fun _ _ _ => .done trivial

/-- A tolerant bracket ends with what its change ends with, or with the failure of a sweep. -/
theorem agree_paused (h : Agree Eq change change) :
    Agree (fun outcome outcome' => outcome.2 = outcome'.2)
      (paused false change : Program ε (BracketReports × Except Error Unit)) (paused false change) := by
  refine agree_sweep.bind fun suspended suspended' hsuspended => ?_
  rcases suspended with code | suspended
  · rcases suspended' with code' | suspended'
    · cases hsuspended
      exact .done rfl
    · exact hsuspended.elim
  · rcases suspended' with code' | suspended'
    · exact hsuspended.elim
    · refine h.attempt.bind_eq fun result => agree_sweep.bind fun resumed resumed' hresumed => ?_
      rcases resumed with code | resumed
      · rcases resumed' with code' | resumed'
        · cases hresumed
          exact .done rfl
        · exact hresumed.elim
      · rcases resumed' with code' | resumed'
        · exact hresumed.elim
        · exact .done rfl

/-- So does a routine. -/
theorem agree_runRoutine {routine : Routine} {host : Host} {shadow : Shadow} (h : Agree Eq change change) :
    Agree Eq (runRoutine routine host shadow false change) (runRoutine routine host shadow false change) := by
  have hentry : Agree Eq ((Program.ofOutcome (routine.entry host shadow)).attempt : Engine _)
      (Program.ofOutcome (routine.entry host shadow)).attempt := (asks_attempt.2 asks_ofOutcome).agree
  refine hentry.bind_eq fun entry => ?_
  cases entry with
  | error error => exact Agree.noteAll (.failed error) _ _
  | ok copy =>
    refine (agree_paused h).bind fun outcome outcome' hresults => ?_
    obtain ⟨reports, result⟩ := outcome
    obtain ⟨reports', result'⟩ := outcome'
    cases hresults
    exact Agree.noteAll asks_ofExcept.agree _ _

end

/-! ## Operations -/

/-- What is noted of a failure does not count. -/
theorem agree_reporting {α : Type} {operation : Operation} {x : Engine α} (h : Agree Eq x x) :
    Agree Eq (reporting operation x) (reporting operation x) := by
  refine h.attempt.bind_eq fun result => ?_
  cases result with
  | ok value => exact .done rfl
  | error error => exact Agree.noteAll (.failed error) _ _

section

variable {host : Host} {attempted : Bool} {imageBase : Address} {pageSize : Nat} {config : Config} {image : Image}
  {target : Address} {bytes : Bytes} {guard : Guard}

theorem agree_establish (htolerant : config.strictThreads = false) :
    Agree Eq (Image.establish host imageBase pageSize config) (Image.establish host imageBase pageSize config) := by
  refine (asks_locate.mono fun _ h => h.not_ofThreads).agree.bind_eq fun layout => ?_
  refine asks_ofOutcome.agree.bind_eq fun _ => asks_ofOutcome.agree.bind_eq fun _ => ?_
  refine (asks_buildShadow.mono fun _ h => h.not_ofThreads).agree.bind_eq fun shadow => ?_
  refine Agree.bind_eq ?_ fun _ => ?_
  · rw [recreateCode, htolerant]
    exact agree_runRoutine (asks_replaceCode id id (fun _ => id) id).agree
  · exact Program.Asks.agree (Program.Asks.bind (asks_request.2 id) fun _ => asks_require_bind fun _ _ => trivial)

/-- A tolerant preparation agrees with itself. -/
theorem agree_prepare (htolerant : config.strictThreads = false) :
    Agree Eq (Image.prepare host attempted imageBase pageSize config)
      (Image.prepare host attempted imageBase pageSize config) := by
  unfold Image.prepare
  split
  · exact .failed _
  · exact agree_reporting (agree_establish htolerant)

/-- A patch of a tolerant image agrees with itself. -/
theorem agree_patch (htolerant : image.config.strictThreads = false) :
    Agree Eq (image.patch host target bytes) (image.patch host target bytes) := by
  have hoverwrite : Agree Eq (image.overwrite host target bytes) (image.overwrite host target bytes) := by
    refine Agree.bind_eq ?_ fun _ => ?_
    · rw [overwriteCode, htolerant]
      exact asks_require.agree.bind_eq fun span => agree_runRoutine (asks_writeCode_of id id id).agree
    · refine Program.Asks.agree (Program.Asks.bind (asks_request.2 id) fun _ => ?_)
      split
      · exact (asks_verify id).bind fun _ => trivial
      · trivial
  unfold Image.patch
  split
  · exact .done rfl
  · refine asks_require.agree.bind_eq fun inside => ?_
    split
    · exact agree_reporting hoverwrite
    · exact asks_require.agree.bind_eq fun error => agree_reporting (.failed error)

/-- So does a guarded one. -/
theorem agree_guardedPatch (htolerant : image.config.strictThreads = false) :
    Agree Eq (image.guardedPatch host target bytes) (image.guardedPatch host target bytes) :=
  (asks_save id).agree.bind_eq fun _ => (agree_patch htolerant).bind_eq fun _ => .done rfl

/-- And so does giving a guard up. -/
theorem agree_release (htolerant : guard.image.config.strictThreads = false) :
    Agree Eq (guard.release host) (guard.release host) := by
  refine (agree_patch htolerant).attempt.bind_eq fun result => ?_
  cases result with
  | ok => exact .done rfl
  | error error => exact Agree.noteAll (.done rfl) [_] [_]

end

end LivePatch
