import LivePatch.Proofs.Engine.Pause
import LivePatch.Proofs.Session.Registry
import LivePatch.Session.Operation

/-!
# Reports account for every request

Any number of sweeps may go into one report, over any lists of threads, with anything done between them, and some of them may get no
list. Nothing is forgotten: the report counts every request and every refusal, and it keeps the first refusals one by one until its
room is used up. The number of refusals decides whether there is room for one more, so the report carries one invariant, which ties
both counters and what is kept to the answers that were given; a single answer keeps it, and so do a round of answers, a sweep and a
whole history. What the journal says about a report is read off the invariant.
-/

namespace LivePatch

/-! ## Answers of threads -/

/-- The thread that was asked in an exchange, and what it answered. -/
def Exchange.answer? : Exchange → Option (Thread × Except KernelCode Unit)
  | ⟨.suspend thread, answer⟩ | ⟨.resume thread, answer⟩ => some (thread, answer)
  | _ => none

/-- The threads that were asked, in that order, with their answers. -/
def answers (es : List Exchange) : List (Thread × Except KernelCode Unit) := es.filterMap Exchange.answer?

/-- The refusal in an answer. -/
def refusal? : Thread × Except KernelCode Unit → Option (Thread × KernelCode)
  | (thread, .error code) => some (thread, code)
  | (_, .ok ()) => none

/-- The threads that refused, in the order in which they were asked, with their codes. -/
def refusals (round : List (Thread × Except KernelCode Unit)) : List (Thread × KernelCode) := round.filterMap refusal?

section

variable {es es' : List Exchange} {round : List (Thread × Except KernelCode Unit)} {kind : ThreadRequest}

theorem answers_append : answers (es ++ es') = answers es ++ answers es' := List.filterMap_append

/-- Nobody refuses twice at once. -/
theorem length_refusals_le : (refusals round).length ≤ round.length := List.length_filterMap_le _ _

theorem answer?_asked (kind : ThreadRequest) (thread : Thread) (answer : Except KernelCode Unit) :
    (kind.asked thread answer).answer? = some (thread, answer) := by
  cases kind <;> rfl

/-- The answers of a round are those of its exchanges. -/
theorem answers_round : answers (round.map fun asked => kind.asked asked.1 asked.2) = round := by
  induction round with
  | nil => rfl
  | cons asked rest ih =>
    unfold answers at ih ⊢
    rw [List.map_cons, List.filterMap_cons_some (answer?_asked kind asked.1 asked.2), ih]

/-- The answers of a sweep are those of its round. -/
theorem answers_exchanges (sweep : Sweep) : answers (sweep.exchanges kind) = sweep.round := by
  have hends : answers [⟨.release sweep.list, ()⟩] = [] := rfl
  have htail : answers (sweep.tail kind) =
      answers (sweep.round.map (fun asked => kind.asked asked.1 asked.2) ++ [⟨.release sweep.list, ()⟩]) := rfl
  have hsweep : answers (sweep.exchanges kind) = answers (sweep.tail kind) := rfl
  rw [hsweep, htail, answers_append, answers_round, hends, List.append_nil]

end

namespace SweepReport

variable {report : SweepReport} {round : List (Thread × Except KernelCode Unit)}

/-! ## The invariant of a report -/

/-- The report counts the answers and the refusals among them, and keeps the first refusals. -/
structure Accounts (report : SweepReport) (round : List (Thread × Except KernelCode Unit)) : Prop where
  requested : report.requested = round.length
  failed : report.failed = (refusals round).length
  failures : report.failures = (refusals round).take kept

namespace Accounts

/-- A new report accounts for nothing. -/
theorem new : Accounts {} [] := ⟨rfl, rfl, rfl⟩

/-- One more answer is counted, and a refusal is kept if there is room for it. -/
theorem record (h : report.Accounts round) (thread : Thread) (answer : Except KernelCode Unit) :
    (report.record thread answer).Accounts (round ++ [(thread, answer)]) := by
  have hrequested := h.requested
  have hfailed := h.failed
  have hfailures := h.failures
  cases answer with
  | ok =>
    have hsame : refusals (round ++ [(thread, .ok ())]) = refusals round := by simp [refusals, refusal?]
    constructor
    · simp [SweepReport.record, hrequested]
    · rw [hsame]
      exact hfailed
    · rw [hsame]
      exact hfailures
  | error code =>
    have hmore : refusals (round ++ [(thread, .error code)]) = refusals round ++ [(thread, code)] := by simp [refusals, refusal?]
    constructor
    · simp [SweepReport.record, hrequested]
    · rw [hmore]
      simp [SweepReport.record, hfailed]
    · -- the counter is the number of refusals so far, so it tells whether the kept ones are all of them
      rw [hmore]
      by_cases hroom : report.failed < kept
      · have hall : (refusals round).take kept = refusals round := List.take_of_length_le (by omega)
        have hone : (refusals round ++ [(thread, code)]).take kept = refusals round ++ [(thread, code)] := by
          apply List.take_of_length_le
          rw [List.length_append, List.length_singleton]
          omega
        simp [SweepReport.record, hroom, hfailures, hall, hone]
      · have hfull : (refusals round ++ [(thread, code)]).take kept = (refusals round).take kept :=
          List.take_append_of_le_length (by omega)
        simp [SweepReport.record, hroom, hfailures, hfull]

/-- So is a whole round, answer by answer. -/
theorem recordAll (h : report.Accounts round) (more : List (Thread × Except KernelCode Unit)) :
    (report.recordAll more).Accounts (round ++ more) := by
  induction more generalizing report round with
  | nil =>
    rw [List.append_nil]
    exact h
  | cons asked rest ih =>
    have hrest := ih (h.record asked.1 asked.2)
    rw [List.append_assoc] at hrest
    exact hrest

end Accounts

/-! ## Sweeps into one report -/

/-- The report behind a sweep that was to go into it: a sweep that got no list of threads leaves it. -/
def after (report : SweepReport) : Except KernelCode SweepReport → SweepReport
  | .ok report' => report'
  | .error _ => report

/-- The report that holds what came of some sweeps, each of them in a world of its own, and what these sweeps exchanged with their
kernels. -/
inductive Recorded (κ : Type) [Kernel κ] : SweepReport → List Exchange → Prop where
  | new : Recorded κ {} []
  | sweep {report : SweepReport} {es : List Exchange} (kind : ThreadRequest) {world world' : World κ}
      {result : Except KernelCode SweepReport} (h : Recorded κ report es)
      (hrun : (sweep kind report : Engine _).run world = (.done result, world')) :
      Recorded κ (report.after result) (es ++ (sweep kind report : Engine _).exchanges world.kernel)

section

variable {κ : Type} [Kernel κ] {kind : ThreadRequest} {world world' : World κ} {es : List Exchange}

/-- A sweep into a report that accounts for some answers gives one that accounts for the answers of the sweep as well. -/
theorem Accounts.sweep {result : Except KernelCode SweepReport} (h : report.Accounts round)
    (hrun : (LivePatch.sweep kind report : Engine _).run world = (.done result, world')) :
    (report.after result).Accounts (round ++ answers ((LivePatch.sweep kind report : Engine _).exchanges world.kernel)) := by
  rcases yields_sweep_into.of_run hrun rfl with ⟨code, hresult, hes⟩ | ⟨swept, hresult, hes⟩
  · cases hresult
    rw [hes]
    exact (List.append_nil round).symm ▸ h
  · cases hresult
    rw [hes]
    have hround : answers (sweepExchanges kind (.ok swept)) = swept.round := answers_exchanges swept
    rw [hround]
    exact h.recordAll swept.round

/-- Every report of sweeps accounts for all their answers. -/
theorem Recorded.accounts (h : Recorded κ report es) : report.Accounts (answers es) := by
  induction h with
  | new => exact .new
  | sweep kind _ hrun ih =>
    rw [answers_append]
    exact ih.sweep hrun

/-- A sweep that got no list of threads made no other request. -/
theorem exchanges_of_unlisted {code : KernelCode}
    (hrun : (LivePatch.sweep kind report : Engine _).run world = (.done (.error code), world')) :
    (LivePatch.sweep kind report : Engine _).exchanges world.kernel = [⟨.threads, .error code⟩] := by
  rcases yields_sweep_into.of_run hrun rfl with ⟨code', hresult, hes⟩ | ⟨swept, hresult, -⟩
  · cases hresult
    exact hes
  · cases hresult

end

/-! ## What the journal says -/

/-- The number of refusals that some events stand for. -/
def refusedIn : List Event → Nat
  | [] => 0
  | .requestRefused .. :: rest => 1 + refusedIn rest
  | .moreRefused _ count :: rest => count + refusedIn rest
  | _ :: rest => refusedIn rest

/-- The warnings about refusals: one for each that is kept, and one for all others together if there are any. -/
def warnings (refused : List (Thread × KernelCode)) (step : Step) : List Event :=
  (refused.take kept).map (fun refusal => .requestRefused step refusal.1 refusal.2) ++
    if kept < refused.length then [.moreRefused step (refused.length - kept)] else []

/-- The journal warns of the refusals, so that the warnings account for all of them, and ends with how many requests were not refused
out of how many: that number and the refusals are the requests, so the difference is there. -/
structure Tells (report : SweepReport) (refused : List (Thread × KernelCode)) (step : Step) : Prop where
  events : ∃ granted, granted + report.failed = report.requested ∧
    report.events step = warnings refused step ++ [.sweepEnded step granted report.requested]
  levels : (report.events step).map Event.level = List.replicate (warnings refused step).length .warn ++ [.trace]
  refused : refusedIn (warnings refused step) = refused.length

section

variable {step : Step} {refused : List (Thread × KernelCode)}

/-- Warnings are warnings. -/
theorem levels_warnings : (warnings refused step).map Event.level = List.replicate (warnings refused step).length .warn := by
  rw [List.map_eq_replicate_iff]
  intro event hevent
  unfold warnings at hevent
  rcases List.mem_append.1 hevent with h | h
  · obtain ⟨refusal, -, rfl⟩ := List.mem_map.1 h
    rfl
  · split at h
    · cases List.mem_singleton.1 h
      rfl
    · cases h

/-- Each warning about a single refusal stands for one. -/
theorem refusedIn_map_append (events : List Event) :
    refusedIn (refused.map (fun refusal => .requestRefused step refusal.1 refusal.2) ++ events) =
      refused.length + refusedIn events := by
  induction refused with
  | nil => simp
  | cons refusal rest ih =>
    rw [List.map_cons, List.cons_append, refusedIn, ih, List.length_cons]
    omega

/-- The warnings stand for all refusals. -/
theorem refusedIn_warnings : refusedIn (warnings refused step) = refused.length := by
  rw [warnings, refusedIn_map_append, List.length_take]
  by_cases hmore : kept < refused.length
  · rw [if_pos hmore, refusedIn, refusedIn]
    omega
  · rw [if_neg hmore, refusedIn]
    omega

/-- A report that accounts for some answers tells of the refusals among them. -/
theorem Accounts.tells (h : report.Accounts round) (step : Step) : report.Tells (refusals round) step := by
  have hle : report.failed ≤ report.requested := by
    rw [h.failed, h.requested]
    exact length_refusals_le
  have hevents : report.events step =
      warnings (refusals round) step ++ [.sweepEnded step (report.requested - report.failed) report.requested] := by
    rw [SweepReport.events, h.failures, h.failed]
    rfl
  constructor
  · exact ⟨report.requested - report.failed, Nat.sub_add_cancel hle, hevents⟩
  · rw [hevents, List.map_append, levels_warnings]
    rfl
  · exact refusedIn_warnings

end

/-! ## Reports in sessions -/

section

variable {κ : Type} [Kernel κ] {state : Session.State κ} {name : String} {kind : ThreadRequest} {world' : World κ} {code : KernelCode}

/-- A session in which a sweep gets no list of threads keeps the report under its name as it was, and answers with it. -/
theorem sweepInto_unlisted (hreport : (state.reports.get? name).getD {} = report)
    (hrun : (sweep kind report : Engine _).run state.world = (.done (.error code), world')) :
    ∃ state', state.sweepInto name kind = (.sweep report (some code), state') ∧ state'.reports.get? name = some report := by
  rw [Session.State.sweepInto, hreport, Session.State.perform, hrun]
  exact ⟨_, rfl, Session.Registry.get?_put_self⟩

end

/-! ## Every history of sweeps -/

/-- What a report says about the sweeps that went into it, and how it takes one that gets no list of threads. -/
structure Balances (κ : Type) [Kernel κ] (report : SweepReport) (es : List Exchange) : Prop where
  requested : report.requested = (answers es).length
  failed : report.failed = (refusals (answers es)).length
  failed_le : report.failed ≤ report.requested
  failures : report.failures = (refusals (answers es)).take (min report.failed kept)
  isComplete : report.isComplete = true ↔ refusals (answers es) = []
  tells : ∀ step, report.Tells (refusals (answers es)) step
  /-- The threads are not asked then, and whoever holds the report under a name still has it there. -/
  unlisted : ∀ (state : Session.State κ) name kind code world', (state.reports.get? name).getD {} = report →
    (sweep kind report : Engine _).run state.world = (.done (.error code), world') →
      (sweep kind report : Engine _).exchanges state.world.kernel = [⟨.threads, .error code⟩] ∧
        ∃ state', state.sweepInto name kind = (.sweep report (some code), state') ∧ state'.reports.get? name = some report

/-- Whatever sweeps went into a report, it accounts for each of their requests. -/
theorem balances_of_recorded {κ : Type} [Kernel κ] {es : List Exchange} (h : Recorded κ report es) : report.Balances κ es := by
  have haccounts := h.accounts
  have hfailed := haccounts.failed
  refine {
    requested := haccounts.requested
    failed := hfailed
    failed_le := ?_
    failures := ?_
    isComplete := ?_
    tells := haccounts.tells
    unlisted := fun state name kind code world' hreport hrun => ⟨exchanges_of_unlisted hrun, sweepInto_unlisted hreport hrun⟩ }
  · rw [hfailed, haccounts.requested]
    exact length_refusals_le
  · rw [haccounts.failures, hfailed]
    exact List.take_eq_take_min.trans (Nat.min_comm _ _ ▸ rfl)
  · rw [isComplete, beq_iff_eq, hfailed, List.length_eq_zero_iff]

/-- Eight threads of which seven refuse to be suspended and three to be resumed, with a sweep between the two that gets no list: ten
refusals, the first eight of which are kept. -/
theorem balances_of_three_sweeps : ∃ (report : SweepReport) (es : List Exchange), Recorded Machine report es ∧
    report.requested = 14 ∧ report.failed = 10 ∧ report.failures.length = 8 ∧ report.Balances Machine es := by
  let machine : Machine :=
    { threads := [1, 2, 3, 4, 5, 6, 7, 8], suspendRefusals := [2, 3, 4, 5, 6, 7, 8], resumeRefusals := [3, 5, 8] }
  let suspended : SweepReport :=
    { requested := 7, failed := 7, failures := [2, 3, 4, 5, 6, 7, 8].map fun thread => (thread, .failure) }
  let resumed : SweepReport :=
    { requested := 14, failed := 10, failures := [2, 3, 4, 5, 6, 7, 8, 3].map fun thread => (thread, .failure) }
  obtain ⟨_, hsuspend⟩ : ∃ world', (sweep .suspend {} : Engine _).run { kernel := machine } = (.done (.ok suspended), world') :=
    Program.exists_run_eq rfl
  obtain ⟨_, hunlisted⟩ : ∃ world', (sweep .resume suspended : Engine _).run
      { kernel := machine.inject ⟨.threads, 0, .protectionFailure⟩ } = (.done (.error .protectionFailure), world') :=
    Program.exists_run_eq rfl
  obtain ⟨_, hresume⟩ : ∃ world', (sweep .resume suspended : Engine _).run { kernel := machine } = (.done (.ok resumed), world') :=
    Program.exists_run_eq rfl
  have hrecorded := ((Recorded.new.sweep .suspend hsuspend).sweep .resume hunlisted).sweep .resume hresume
  exact ⟨resumed, _, hrecorded, rfl, rfl, rfl, balances_of_recorded hrecorded⟩

end SweepReport

end LivePatch
