import LivePatch.Proofs.Engine.Bracket
import LivePatch.Proofs.Engine.Course

/-!
# Reports that can be counted

A sweep counts the threads that it asks and those that refuse. Its numbers are words if there are no more threads than words, and
the refusals never outnumber the requests, so that their difference is there. No request makes threads: however a test bed was used,
its thread tables are those that it was given.
-/

namespace LivePatch

/-- The numbers of the report are words, and so is the number of those that did not refuse. -/
structure SweepReport.InRange (report : SweepReport) : Prop where
  requested : report.requested < Word.count
  failed : report.failed ≤ report.requested

/-- The threads of each table can be counted: of the present one, and of those to come. -/
def Testbed.Listable (bed : Testbed) : Prop := ∀ threads ∈ bed.machine.threads :: bed.script, threads.length < Word.count

namespace Testbed

variable {bed : Testbed} {ε α : Type}

/-- The next table can be counted, too, and so can those behind it. -/
theorem Listable.advance (h : bed.Listable) : bed.advance.Listable := by
  rw [Testbed.advance]
  cases hscript : bed.script with
  | nil => exact h
  | cons threads rest =>
    intro other hother
    refine h other (List.mem_cons_of_mem _ ?_)
    rw [hscript]
    exact hother

/-- A request leaves the tables, or goes on to the next one. -/
theorem Listable.serve (h : bed.Listable) (request : Request) : (Kernel.serve request bed).2.Listable := by
  by_cases hthreads : request = .threads
  · subst hthreads
    have hsame : (Kernel.serve .threads bed).2.machine.threads = bed.advance.machine.threads :=
      Machine.threads_serve .threads bed.advance.machine
    rw [Listable, hsame]
    exact h.advance
  · rw [serve_eq hthreads, Listable, Machine.threads_serve]
    exact h

/-- Whatever a program asks, the tables can be counted when it ends. -/
theorem Listable.wp {x : Program ε α} {Q : α → Testbed → Prop} {E : ε → Testbed → Prop} {C : Testbed → Prop} (h : bed.Listable)
    (hwp : x.wp (fun value bed' => bed'.Listable → Q value bed') (fun error bed' => bed'.Listable → E error bed') C bed) :
    x.wp Q E C bed :=
  Program.asks_any.wp (fun request _ _ hbed => hbed.serve request) h hwp

theorem Listable.run {x : Program ε α} {world : World Testbed} (h : world.kernel.Listable) : (x.run world).2.kernel.Listable :=
  (Program.asks_any (x := x)).states (fun request _ _ hbed => hbed.serve request) h _ (x.run_mem_states world)

/-! ## Reports -/

/-- The report of a sweep is in range: at most the threads of the next table are asked. -/
theorem Listable.inRange_report (h : bed.Listable) (kind : ThreadRequest) :
    (bed.machine.report kind bed.others {}).InRange := by
  constructor
  · rw [Machine.requested_report, Nat.zero_add]
    exact Nat.lt_of_le_of_lt (List.length_filter_le _ _) (h.advance _ List.mem_cons_self)
  · rw [Machine.requested_report, Machine.failed_report, Nat.zero_add, Nat.zero_add]
    exact List.countP_le_length

/-- A sweep that gets its list of threads gives a report in range. -/
theorem Listable.wp_sweep {kind : ThreadRequest} {Q : Except KernelCode SweepReport → Testbed → Prop} {E : ε → Testbed → Prop}
    {C : Testbed → Prop} (h : bed.Listable)
    (hdone : ∀ (report : SweepReport) bed', report.InRange → bed'.Listable → Q (.ok report) bed')
    (hfail : ∀ code bed', Q (.error code) bed') : (sweep kind {}).wp Q E C bed :=
  h.wp (Testbed.wp_sweep (fun bed' _ => hdone _ bed' (h.inRange_report kind)) fun code bed' _ _ _ => hfail code bed')

/-- Both reports of a bracket are in range, whatever the change does. -/
theorem Listable.wp_paused {strict : Bool} {change : Engine α} {E : ε → Testbed → Prop} (h : bed.Listable) :
    (paused strict change : Program ε _).wp (fun result _ => result.1.suspended.InRange ∧ result.1.resumed.InRange) E
      (fun _ => True) bed := by
  have hnew : SweepReport.InRange {} := ⟨by decide, Nat.le_refl _⟩
  rw [paused, Program.wp_bind]
  refine h.wp_sweep (fun suspended bed₁ hsuspended h₁ => ?_) fun _ _ => ⟨hnew, hnew⟩
  dsimp only
  split
  · rw [Program.wp_bind]
    exact h₁.wp_sweep (fun resumed _ hresumed _ => ⟨hsuspended, hresumed⟩) fun _ _ => ⟨hsuspended, hnew⟩
  · rw [Program.wp_bind, Program.wp_attempt]
    -- the second sweep is made whether the change has a value or an error
    refine h₁.wp (Program.wp_always (fun _ bed₂ h₂ => ?_) (fun _ bed₂ h₂ => ?_) fun _ => trivial)
    all_goals
      rw [Program.wp_bind]
      exact h₂.wp_sweep (fun resumed _ hresumed _ => ⟨hsuspended, hresumed⟩) fun _ _ => ⟨hsuspended, hnew⟩

end Testbed

end LivePatch
