import LivePatch.Proofs.Engine.Journal
import LivePatch.Proofs.Engine.Pause

/-!
# What happens in a bracket

A bracket runs its change at most once, from the world in which the first sweep ends, and runs the second sweep from where the
change ends. Nothing is known of the change: it may ask for anything, note anything, end with a value, fail or crash. `Bracketing`
lists the ways in which a bracket can go, each with its result, the world that it leaves and all that it exchanges. On a test bed
every bracket goes one of these ways, and the only bracket that crashes is one whose change does.
-/

namespace LivePatch

open Program (Served)

/-- A sweep that was tried leads from one world to another: the kernel serves what is exchanged, and nothing is noted. -/
structure Sweeps (kind : ThreadRequest) (swept : Except KernelCode Sweep) (world after : World Testbed) : Prop where
  served : Served world.kernel (sweepExchanges kind swept) after.kernel
  journal : after.journal = world.journal

/-- The report counts who was asked and who refused. Without a list of threads it is a fresh one. -/
def SweepReport.Counts (report : SweepReport) : Except KernelCode Sweep → Prop
  | .error _ => report = {}
  | .ok sweep => report.requested = sweep.round.length ∧ report.failed = sweep.refusals

/-- How a bracket goes in a world.

There is no list of threads for suspending, and nothing else is asked for. Or strict mode calls the change off, because a thread
refused to be suspended, and the second sweep is tried; its error, if it has one, comes first. Or the change is run, once, and
crashes. Or it is run, once, and ends; then the second sweep is tried, and its error matters only if the change has none. -/
inductive Bracketing {ε α : Type} (strict : Bool) (change : Engine α) (world : World Testbed) :
    Outcome ε (BracketReports × Except Error α) → World Testbed → List Exchange → Prop where
  | unlisted {after : World Testbed} (code : KernelCode) (hsuspend : Sweeps .suspend (.error code) world after) :
      Bracketing strict change world (.done ({}, .error (.ofKernel .suspendThreads code))) after
        [⟨.threads, .error code⟩]
  | calledOff {between after : World Testbed} (suspended : Sweep) (hsuspend : Sweeps .suspend (.ok suspended) world between)
      (hstrict : strict = true) (hrefused : suspended.refusals ≠ 0)
      (resumed : Except KernelCode Sweep) (hresume : Sweeps .resume resumed between after)
      (reports : BracketReports) (hsuspended : reports.suspended.Counts (.ok suspended)) (hresumed : reports.resumed.Counts resumed) :
      Bracketing strict change world
        (.done (reports, (resumption resumed).bind fun _ =>
          .error (.partialSuspension suspended.refusals suspended.round.length)))
        after (suspended.exchanges .suspend ++ sweepExchanges .resume resumed)
  | crashed {between after : World Testbed} (suspended : Sweep) (hsuspend : Sweeps .suspend (.ok suspended) world between)
      (hgo : strict = true → suspended.refusals = 0) (hchange : change.run between = (.crashed, after)) :
      Bracketing strict change world .crashed after
        (suspended.exchanges .suspend ++ change.exchanges between.kernel)
  | around {between changed after : World Testbed} {outcome : Outcome Error α} {result : Except Error α} (suspended : Sweep)
      (hsuspend : Sweeps .suspend (.ok suspended) world between) (hgo : strict = true → suspended.refusals = 0)
      (hchange : change.run between = (outcome, changed)) (hresult : outcome.toExcept? = some result)
      (resumed : Except KernelCode Sweep) (hresume : Sweeps .resume resumed changed after)
      (reports : BracketReports) (hsuspended : reports.suspended.Counts (.ok suspended)) (hresumed : reports.resumed.Counts resumed) :
      Bracketing strict change world
        (.done (reports, result.bind fun value => (resumption resumed).map fun _ => value))
        after (suspended.exchanges .suspend ++ (change.exchanges between.kernel ++ sweepExchanges .resume resumed))

/-- An attempt at a program that ends has its result for a value. -/
theorem Program.run_attempt_eq_done {κ ε ε' α : Type} [Kernel κ] {x : Program ε α} {world after : World κ} {outcome : Outcome ε α}
    {result : Except ε α} (hrun : x.run world = (outcome, after)) (hresult : outcome.toExcept? = some result) :
    (x.attempt : Program ε' (Except ε α)).run world = (.done result, after) := by
  rw [run_attempt, hrun]
  cases outcome <;> cases hresult <;> rfl

/-- A second sweep that got its list leaves the result alone. -/
theorem bind_resumption_ok {α : Type} (result : Except Error α) (resumed : Sweep) :
    (result.bind fun value => (resumption (.ok resumed)).map fun _ => value) = result := by
  cases result <;> rfl

namespace Testbed

variable {ε α : Type}

/-- A sweep ends with a report or with the code that kept it from its list of threads, and what follows begins there. -/
theorem run_sweep_bind {β : Type} (kind : ThreadRequest) (next : Except KernelCode SweepReport → Program ε β)
    (world : World Testbed) :
    ∃ (swept : Except KernelCode Sweep) (report : SweepReport) (after : World Testbed),
      Sweeps kind swept world after ∧ report.Counts swept ∧
      (sweep kind {} >>= next).run world = (next (swept.map fun _ => report)).run after ∧
      (sweep kind {} >>= next).exchanges world.kernel =
        sweepExchanges kind swept ++ (next (swept.map fun _ => report)).exchanges after.kernel := by
  have hends : (sweep kind {} : Program ε _).wp (fun _ _ => True) (fun _ _ => False) (fun _ => False) world.kernel :=
    wp_sweep (fun _ _ => trivial) fun _ _ _ _ => trivial
  obtain ⟨answer, after, hrun, -⟩ := Program.exists_run_done hends
  have hjournal : after.journal = world.journal := by
    have hevents := Program.journal_run (sweep kind {} : Program ε _) world
    rw [notes_sweep.events_eq_nil, List.append_nil, hrun] at hevents
    exact Array.toList_inj.1 hevents
  have hserved := Program.served_run hrun nofun
  rw [Program.run_bind, Program.exchanges_bind, hrun]
  rcases yields_sweep.of_run hrun rfl with ⟨code, hanswer, hes⟩ | ⟨swept, report, hanswer, hes, hcounts⟩
  · cases hanswer
    rw [hes] at hserved ⊢
    exact ⟨.error code, {}, after, ⟨hserved, hjournal⟩, rfl, rfl, rfl⟩
  · cases hanswer
    rw [hes] at hserved ⊢
    exact ⟨.ok swept, report, after, ⟨hserved, hjournal⟩, hcounts, rfl, rfl⟩

/-- Every bracket goes one of the listed ways, whatever its change is. -/
theorem bracketing_paused (strict : Bool) (change : Engine α) (world : World Testbed) :
    Bracketing strict change world ((paused strict change : Program ε _).run world).1
      ((paused strict change : Program ε _).run world).2 ((paused strict change : Program ε _).exchanges world.kernel) := by
  rw [paused]
  obtain ⟨swept, report, between, hsuspend, hcounts, hrun, hes⟩ := @run_sweep_bind ε _ .suspend _ world
  rw [suspendOthers, hrun, hes]
  cases swept with
  | error code => exact .unlisted code hsuspend
  | ok suspended =>
    obtain ⟨hrequested, hfailed⟩ := id hcounts
    have hcomplete : report.isComplete = true ↔ suspended.refusals = 0 := by
      rw [SweepReport.isComplete, beq_iff_eq, hfailed]
    dsimp only [Except.map]
    split
    · rename_i hoff
      rw [Bool.and_eq_true, Bool.not_eq_true', Bool.eq_false_iff, ne_eq, hcomplete] at hoff
      obtain ⟨resumed, report', after, hresume, hcounts', hrun, hes⟩ := @run_sweep_bind ε _ .resume _ between
      rw [resumeOthers, hrun, hes, hrequested, hfailed]
      have hcalledOff := @Bracketing.calledOff ε α strict change world between after suspended hsuspend hoff.1 hoff.2 resumed
        hresume
      cases resumed with
      | error code =>
        simp only [Except.map, Program.pure_eq, Program.run_done, Program.exchanges, List.append_nil]
        exact hcalledOff { suspended := report } hcounts rfl
      | ok resumed =>
        simp only [Except.map, Program.pure_eq, Program.run_done, Program.exchanges, List.append_nil]
        exact hcalledOff { suspended := report, resumed := report' } hcounts hcounts'
    · rename_i hgo
      rw [Bool.and_eq_true, Bool.not_eq_true', Bool.eq_false_iff, ne_eq, hcomplete, Decidable.not_and_not_right] at hgo
      rw [Program.run_bind, Program.exchanges_bind, Program.exchanges_attempt]
      rcases hchange : change.run between with ⟨outcome, changed⟩
      rcases hresult : outcome.toExcept? with _ | result
      · cases outcome with
        | done | failed => cases hresult
        | crashed =>
          rw [Program.run_attempt, hchange]
          simp only [List.append_nil]
          exact .crashed suspended hsuspend hgo hchange
      · rw [Program.run_attempt_eq_done hchange hresult]
        obtain ⟨resumed, report', after, hresume, hcounts', hrun, hes⟩ := @run_sweep_bind ε _ .resume _ changed
        dsimp only
        rw [resumeOthers, hrun, hes]
        have haround := @Bracketing.around ε α strict change world between changed after outcome result suspended hsuspend hgo
          hchange hresult resumed hresume
        cases resumed with
        | error code =>
          cases hcounts'
          simp only [Except.map, Program.pure_eq, Program.run_done, Program.exchanges, List.append_nil]
          exact haround { suspended := report } hcounts rfl
        | ok resumed =>
          rw [bind_resumption_ok] at haround
          simp only [Except.map, Program.pure_eq, Program.run_done, Program.exchanges, List.append_nil]
          exact haround { suspended := report, resumed := report' } hcounts hcounts'

end Testbed

end LivePatch
