import LivePatch.Engine.Routine
import LivePatch.Proofs.Simulation.Rules

/-!
# Brackets on a test bed

What the two sweeps around a change report, and how a bracket can end. Sweeps leave the memory alone, so a bracket changes
what its change does. It ends before the change if there is no thread list or, in strict mode, if a thread refuses to be
suspended; then the error is one of `BeforeChange`. After that the change is made, and its error is the error of the bracket,
or else a failed list for resuming is.
-/

namespace LivePatch

open Program (request Answered)

/-! ## Sweeps -/

namespace Machine

/-- What a thread answers to a request. -/
def answer (machine : Machine) (kind : ThreadRequest) (thread : Thread) : Except KernelCode Unit :=
  if thread ∈ machine.refusals kind then .error .failure else .ok ()

/-- A report after the answers of some threads were added. -/
def report (machine : Machine) (kind : ThreadRequest) (threads : List Thread) (report : SweepReport) : SweepReport :=
  threads.foldl (fun report thread => report.record thread (machine.answer kind thread)) report

theorem Follows.report {machine machine' : Machine} (h : machine.Follows machine') (kind : ThreadRequest) :
    machine'.report kind = machine.report kind := by
  funext threads report
  simp only [Machine.report, answer, h.refusals kind]

/-- A report counts the threads that refused. -/
theorem failed_report (machine : Machine) (kind : ThreadRequest) (threads : List Thread) (report : SweepReport) :
    (machine.report kind threads report).failed =
      report.failed + threads.countP fun thread => decide (thread ∈ machine.refusals kind) := by
  induction threads generalizing report with
  | nil => rfl
  | cons thread rest ih =>
    have hcons : machine.report kind (thread :: rest) report =
        machine.report kind rest (report.record thread (machine.answer kind thread)) := rfl
    rw [hcons, ih, List.countP_cons]
    by_cases h : thread ∈ machine.refusals kind
    · simp only [answer, h, if_true, SweepReport.record, decide_true]
      lia
    · simp [answer, h, SweepReport.record]

/-- A report counts the threads that were asked. -/
theorem requested_report (machine : Machine) (kind : ThreadRequest) (threads : List Thread) (report : SweepReport) :
    (machine.report kind threads report).requested = report.requested + threads.length := by
  induction threads generalizing report with
  | nil => rfl
  | cons thread rest ih =>
    have hcons : machine.report kind (thread :: rest) report =
        machine.report kind rest (report.record thread (machine.answer kind thread)) := rfl
    have hrecord : (report.record thread (machine.answer kind thread)).requested = report.requested + 1 := by
      cases machine.answer kind thread <;> rfl
    rw [hcons, ih, hrecord, List.length_cons]
    lia

/-- A new report is complete exactly when no thread refused. -/
theorem isComplete_report_iff (machine : Machine) (kind : ThreadRequest) (threads : List Thread) :
    (machine.report kind threads {}).isComplete = true ↔ ∀ thread ∈ threads, thread ∉ machine.refusals kind := by
  simp [SweepReport.isComplete, failed_report, List.countP_eq_zero]

end Machine

namespace Testbed

variable {bed : Testbed} {ε α : Type}

/-- The threads that the next sweep asks: those of the next thread table, without the calling one. -/
def others (bed : Testbed) : List Thread := bed.advance.machine.threads.filter (· ≠ bed.machine.caller)

/-- One of the threads that the next sweep asks refuses to be suspended. -/
def Refuses (bed : Testbed) : Prop := ∃ thread ∈ bed.others, thread ∈ bed.machine.refusals .suspend

/-- Only a list of threads changes which threads the next sweep asks. -/
theorem others_serve {request : Request} (h : request ≠ .threads) (bed : Testbed) :
    (Kernel.serve request bed).2.others = bed.others := by
  have hthreads := Machine.threads_serve request bed.machine
  have hcaller := (Machine.follows_serve request bed.machine).caller
  rw [serve_eq h, others, others, advance, advance]
  cases bed.script with
  | nil =>
    dsimp only
    rw [hthreads, hcaller]
  | cons threads rest =>
    dsimp only
    rw [hcaller]

/-- The error of a change that strict mode calls off. -/
def refusal (bed : Testbed) : Error :=
  .partialSuspension (bed.others.countP fun thread => decide (thread ∈ bed.machine.refusals .suspend)) bed.others.length

theorem wp_askAll {kind : ThreadRequest} {threads : List Thread} {report : SweepReport} {Q : SweepReport → Testbed → Prop}
    {E : ε → Testbed → Prop} {C : Testbed → Prop}
    (h : ∀ bed', bed.Still bed' → Q (bed.machine.report kind threads report) bed') :
    (askAll kind threads report).wp Q E C bed := by
  induction threads generalizing bed report with
  | nil => exact h bed (Still.refl bed)
  | cons thread rest ih =>
    rw [askAll, Program.wp_bind]
    refine wp_ask fun bed' hbed' => ih fun bed'' hbed'' => ?_
    rw [hbed'.machine.report]
    exact h bed'' (hbed'.trans hbed'')

/-- A sweep asks all other threads and leaves the memory alone. It fails only if a failure was ordered. -/
theorem wp_sweep {kind : ThreadRequest} {report : SweepReport} {Q : Except KernelCode SweepReport → Testbed → Prop}
    {E : ε → Testbed → Prop} {C : Testbed → Prop}
    (hdone : ∀ bed', bed.Still bed' → Q (.ok (bed.machine.report kind bed.others report)) bed')
    (hfail : ∀ code bed', bed.Still bed' → ¬ bed.Quiet → Q (.error code) bed') :
    (sweep kind report).wp Q E C bed := by
  rw [sweep, Program.wp_bind]
  refine wp_threads (fun bed' hbed' => ?_) hfail
  simp only
  rw [Program.wp_bind, wp_currentThread, Program.wp_bind]
  refine wp_askAll fun bed'' hbed'' => ?_
  rw [Program.wp_bind, wp_release, hbed'.machine.report, hbed'.machine.caller]
  exact hdone bed'' (hbed'.trans hbed'')

end Testbed

/-! ## Brackets -/

/-- The errors with which a routine ends before it began its change; some only if strict mode called the change off. -/
def Error.BeforeChange (calledOff : Prop) : Error → Prop
  | .kernelFailed _ .suspendThreads _ | .routineOutsideImage _ => True
  | .kernelFailed _ .resumeThreads _ | .partialSuspension .. => calledOff
  | _ => False

/-- A routine that cannot be entered is none of the image. -/
theorem Routine.outside_of_entry_eq_failed {routine : Routine} {host : Host} {shadow : Shadow} {error : Error}
    (h : routine.entry host shadow = .failed error) : ∃ address, error = .routineOutsideImage address := by
  unfold Routine.entry at h
  split at h
  · cases h
  · split at h
    · cases h
    · cases h
      exact ⟨_, rfl⟩
    · cases h

namespace Testbed

variable {bed : Testbed} {ε α : Type}

/-- The rule for a bracket. Strict mode calls the change off exactly if a thread refuses to be suspended, and on a quiet test bed
nothing else does. -/
theorem wp_paused {strict : Bool} {change : Engine α} {Q : BracketReports × Except Error α → Testbed → Prop}
    {E : ε → Testbed → Prop} {C : Testbed → Prop}
    (hbefore : ∀ error bed', bed.Still bed' → error.BeforeChange (strict = true ∧ bed.Refuses) →
      (bed.Quiet → (strict = true ∧ bed.Refuses) ∧ error = bed.refusal) → ∀ reports, Q (reports, .error error) bed')
    (hchange : ¬ (strict = true ∧ bed.Refuses) → ∀ bed₁, bed.Still bed₁ → change.wp
      (fun value bed₂ => ∀ bed₃ reports, bed₂.Still bed₃ → Q (reports, .ok value) bed₃ ∧
        ∀ code, ¬ bed₂.Quiet → Q (reports, .error (.ofKernel .resumeThreads code)) bed₃)
      (fun error bed₂ => ∀ bed₃ reports, bed₂.Still bed₃ → Q (reports, .error error) bed₃) C bed₁) :
    (paused strict change).wp Q E C bed := by
  rw [paused, Program.wp_bind]
  refine wp_sweep (fun bed₁ h₁ => ?_) fun code bed' hbed' hq =>
    hbefore (.ofKernel .suspendThreads code) bed' hbed' trivial (fun hquiet => absurd hquiet hq) {}
  have hcomplete := Machine.isComplete_report_iff bed.machine .suspend bed.others
  by_cases hoff : strict = true ∧ bed.Refuses
  · have hincomplete : (bed.machine.report .suspend bed.others {}).isComplete = false := by
      rw [Bool.eq_false_iff, ne_eq, hcomplete]
      obtain ⟨-, thread, hmem, hrefuses⟩ := hoff
      exact fun h => h thread hmem hrefuses
    have hrefusal : Error.partialSuspension (bed.machine.report .suspend bed.others {}).failed
        (bed.machine.report .suspend bed.others {}).requested = bed.refusal := by
      rw [Machine.failed_report, Machine.requested_report, Nat.zero_add, Nat.zero_add, refusal]
    simp only [hoff.1, hincomplete, Bool.not_false, Bool.and_self, if_true]
    rw [Program.wp_bind]
    refine wp_sweep ?_ ?_
    · intro bed₂ h₂
      exact hbefore (.partialSuspension _ _) bed₂ (h₁.trans h₂) hoff (fun _ => ⟨hoff, hrefusal⟩) _
    · intro code bed₂ h₂ hq
      exact hbefore (.ofKernel .resumeThreads code) bed₂ (h₁.trans h₂) hoff
        (fun hquiet => absurd (hquiet.follows h₁.toFollows) hq) _
  · have hgo : (strict && !(bed.machine.report .suspend bed.others {}).isComplete) = false := by
      cases strict with
      | false => rfl
      | true =>
        have hnone : ∀ thread ∈ bed.others, thread ∉ bed.machine.refusals .suspend :=
          fun thread hmem hrefuses => hoff ⟨rfl, thread, hmem, hrefuses⟩
        simp [hcomplete.2 hnone]
    simp only [hgo, Bool.false_eq_true, if_false]
    rw [Program.wp_bind, Program.wp_attempt]
    refine Program.wp_mono (hchange hoff bed₁ h₁) ?_ ?_ fun _ h => h
    · intro value bed₂ h
      rw [Program.wp_bind]
      exact wp_sweep (fun bed₃ h₃ => (h bed₃ _ h₃).1) fun code bed₃ h₃ hq => (h bed₃ _ h₃).2 code hq
    · intro error bed₂ h
      rw [Program.wp_bind]
      exact wp_sweep (fun bed₃ h₃ => h bed₃ _ h₃) fun code bed₃ h₃ _ => h bed₃ _ h₃

/-- The rule for a routine. It can be entered unless it belongs to the image and lies outside its code. -/
theorem wp_runRoutine {routine : Routine} {host : Host} {shadow : Shadow} {strict : Bool} {change : Engine Unit}
    {Q : Unit → Testbed → Prop} {E : Error → Testbed → Prop} {C : Testbed → Prop}
    (hbefore : ∀ error bed', bed.Still bed' → error.BeforeChange (strict = true ∧ bed.Refuses) →
      (host = .other → bed.Quiet → (strict = true ∧ bed.Refuses) ∧ error = bed.refusal) → E error bed')
    (hcrash : routine.entry host shadow = .crashed → C bed)
    (hchange : ¬ (strict = true ∧ bed.Refuses) → ∀ bed₁, bed.Still bed₁ → change.wp
      (fun _ bed₂ => ∀ bed₃, bed₂.Still bed₃ → Q () bed₃ ∧
        ∀ code, ¬ bed₂.Quiet → E (.ofKernel .resumeThreads code) bed₃)
      (fun error bed₂ => ∀ bed₃, bed₂.Still bed₃ → E error bed₃) C bed₁) :
    (runRoutine routine host shadow strict change).wp Q E C bed := by
  rw [runRoutine, Program.wp_bind, Program.wp_attempt]
  rcases hentry : routine.entry host shadow with copy | error | _
  · simp only [Program.ofOutcome, Program.wp_done, Program.wp_bind, Program.wp_noteAll]
    refine wp_paused (fun error bed' hbed' herror hq _ => hbefore error bed' hbed' herror fun _ => hq) fun hoff bed₁ h₁ => ?_
    refine Program.wp_mono (hchange hoff bed₁ h₁) ?_ ?_ fun _ h => h
    · intro _ bed₂ h bed₃ _ h₃
      exact h bed₃ h₃
    · intro error bed₂ h bed₃ _ h₃
      exact h bed₃ h₃
  · obtain ⟨address, rfl⟩ := Routine.outside_of_entry_eq_failed hentry
    simp only [Program.ofOutcome, Program.wp_failed, Program.wp_bind, Program.wp_noteAll]
    refine hbefore _ bed (Still.refl bed) trivial fun h => ?_
    subst h
    cases hentry
  · exact hcrash hentry

end Testbed

end LivePatch
