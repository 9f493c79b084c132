import LivePatch.Proofs.Engine.Bracket
import LivePatch.Proofs.Engine.Requests

/-!
# How threads are paused

What a sweep, a bracket and a routine ask of their kernel and how they end, for every kernel. A sweep that gets its list of threads
asks each of the others on it once, in the order of the list, and whatever they answer it goes on; one that gets no list asks
nobody. A bracket has its second sweep whenever the first one got its list.
-/

namespace LivePatch

open Program (request)

/-! ## Sweeps -/

/-- The exchange with a thread that is asked and answers. -/
def ThreadRequest.asked (kind : ThreadRequest) (thread : Thread) (answer : Except KernelCode Unit) : Exchange :=
  match kind with
  | .suspend => ⟨.suspend thread, answer⟩
  | .resume => ⟨.resume thread, answer⟩

namespace SweepReport

variable {report : SweepReport}

/-- The report with what came of a round of requests. -/
def recordAll (report : SweepReport) (round : List (Thread × Except KernelCode Unit)) : SweepReport :=
  round.foldl (fun report asked => report.record asked.1 asked.2) report

theorem requested_recordAll (round : List (Thread × Except KernelCode Unit)) :
    (report.recordAll round).requested = report.requested + round.length := by
  induction round generalizing report with
  | nil => rfl
  | cons asked rest ih =>
    have hrecord : (report.record asked.1 asked.2).requested = report.requested + 1 := by cases asked.2 <;> rfl
    rw [recordAll, List.foldl_cons, ← recordAll, ih, hrecord, List.length_cons]
    omega

theorem failed_recordAll (round : List (Thread × Except KernelCode Unit)) :
    (report.recordAll round).failed = report.failed + round.countP fun asked => !asked.2.isOk := by
  induction round generalizing report with
  | nil => rfl
  | cons asked rest ih =>
    rw [recordAll, List.foldl_cons, ← recordAll, ih, List.countP_cons]
    cases asked.2 with
    | error code =>
      simp [record, Except.isOk, Except.toBool]
      omega
    | ok => simp [record, Except.isOk, Except.toBool]

end SweepReport

/-- A sweep that was made: the list that it got, the thread that made it, and the others with what each of them answered. -/
structure Sweep where
  list : ThreadList
  caller : Thread
  round : List (Thread × Except KernelCode Unit)
  round_eq : round.map Prod.fst = list.threads.filter (· ≠ caller)

namespace Sweep

/-- The threads that did not do as they were asked. -/
def refusals (sweep : Sweep) : Nat := sweep.round.countP fun asked => !asked.2.isOk

/-- What a sweep exchanges behind its list of threads. -/
def tail (sweep : Sweep) (kind : ThreadRequest) : List Exchange :=
  ⟨.currentThread, sweep.caller⟩ ::
    (sweep.round.map (fun asked => kind.asked asked.1 asked.2) ++ [⟨.release sweep.list, ()⟩])

/-- What a sweep exchanges. -/
def exchanges (sweep : Sweep) (kind : ThreadRequest) : List Exchange := ⟨.threads, .ok sweep.list⟩ :: sweep.tail kind

end Sweep

/-- What is exchanged when a sweep is tried: nothing behind the list of threads if it does not come. -/
def sweepExchanges (kind : ThreadRequest) : Except KernelCode Sweep → List Exchange
  | .error code => [⟨.threads, .error code⟩]
  | .ok sweep => sweep.exchanges kind

/-- The thread made the sweep, if it was made. -/
def MadeBy (caller : Thread) (swept : Except KernelCode Sweep) : Prop := ∀ sweep, swept = .ok sweep → sweep.caller = caller

/-- A thread refused what it was asked for. -/
def Refused (kind : ThreadRequest) (es : List Exchange) : Prop := ∃ thread code, kind.asked thread (.error code) ∈ es

section

variable {ε : Type} {kind : ThreadRequest} {report : SweepReport} {es es' : List Exchange}

theorem refused_append : Refused kind (es ++ es') ↔ Refused kind es ∨ Refused kind es' := by
  simp only [Refused, List.mem_append, exists_or]

/-- Nobody refuses what nobody is asked for. -/
theorem not_refused {P : Request → Prop} (h : ∀ e ∈ es, P e.request)
    (hP : ∀ thread answer, ¬ P (kind.asked thread answer).request) : ¬ Refused kind es := by
  rintro ⟨thread, code, hmem⟩
  exact hP thread _ (h _ hmem)

theorem ThreadRequest.asked_ofSweep (kind : ThreadRequest) (thread : Thread) (answer : Except KernelCode Unit) :
    (kind.asked thread answer).request.OfSweep kind := by
  cases kind <;> rfl

/-- A sweep makes requests of sweeps alone. -/
theorem ofSweep_of_mem_sweepExchanges {swept : Except KernelCode Sweep} :
    ∀ e ∈ sweepExchanges kind swept, e.request.OfSweep kind := by
  intro e he
  cases swept with
  | error code =>
    cases List.mem_singleton.1 he
    trivial
  | ok sweep =>
    simp only [sweepExchanges, Sweep.exchanges, Sweep.tail, List.mem_cons, List.mem_append, List.mem_map, List.not_mem_nil,
      or_false] at he
    rcases he with rfl | rfl | ⟨asked, -, rfl⟩ | rfl
    · trivial
    · trivial
    · exact kind.asked_ofSweep asked.1 asked.2
    · trivial

theorem Sweep.ofSweep_of_mem_exchanges (sweep : Sweep) : ∀ e ∈ sweep.exchanges kind, e.request.OfSweep kind :=
  @ofSweep_of_mem_sweepExchanges kind (.ok sweep)

/-- A sweep asks which thread makes it. -/
theorem Sweep.caller_mem_exchanges (sweep : Sweep) : ⟨.currentThread, sweep.caller⟩ ∈ sweep.exchanges kind :=
  List.mem_cons_of_mem _ List.mem_cons_self

/-- A thread refused in a sweep exactly if there were refusals. -/
theorem refused_exchanges_iff (sweep : Sweep) : Refused kind (sweep.exchanges kind) ↔ sweep.refusals ≠ 0 := by
  have hasked : ∀ {thread thread' : Thread} {answer answer' : Except KernelCode Unit},
      kind.asked thread answer = kind.asked thread' answer' → answer = answer' := by
    intro thread thread' answer answer' h
    cases kind <;> cases h <;> rfl
  rw [← Nat.pos_iff_ne_zero, Sweep.refusals, List.countP_pos_iff]
  constructor
  · rintro ⟨thread, code, h⟩
    simp only [Sweep.exchanges, Sweep.tail, List.mem_cons, List.mem_append, List.mem_map, List.not_mem_nil, or_false] at h
    rcases h with h | h | ⟨asked, hmem, h⟩ | h
    · cases kind <;> cases h
    · cases kind <;> cases h
    · exact ⟨asked, hmem, by rw [hasked h]; rfl⟩
    · cases kind <;> cases h
  · rintro ⟨⟨thread, _ | code⟩, hmem, h⟩
    · rename_i code
      refine ⟨thread, code, ?_⟩
      exact List.mem_cons_of_mem _ (List.mem_cons_of_mem _ (List.mem_append_left _ (List.mem_map_of_mem hmem)))
    · cases h

theorem yields_ask {thread : Thread} :
    (kind.ask thread : Program ε (Except KernelCode Unit)).Yields fun result es =>
      ∃ answer, result = .ok answer ∧ es = [kind.asked thread answer] := by
  cases kind with
  | suspend => exact fun answer => ⟨answer, rfl, rfl⟩
  | resume => exact fun answer => ⟨answer, rfl, rfl⟩

/-- Every thread is asked once, and what it answers goes into the report. -/
theorem yields_askAll (threads : List Thread) :
    (askAll kind threads report : Program ε SweepReport).Yields fun result es =>
      ∃ round : List (Thread × Except KernelCode Unit), round.map Prod.fst = threads ∧
        es = round.map (fun asked => kind.asked asked.1 asked.2) ∧ result = .ok (report.recordAll round) := by
  induction threads generalizing report with
  | nil => exact ⟨[], rfl, rfl, rfl⟩
  | cons thread rest ih =>
    rw [askAll, Program.yields_bind]
    refine yields_ask.mono fun result es h => ?_
    obtain ⟨answer, rfl, rfl⟩ := h
    refine ih.mono fun result es h => ?_
    obtain ⟨round, rfl, rfl, rfl⟩ := h
    exact ⟨(thread, answer) :: round, rfl, rfl, rfl⟩

/-- A sweep does not fail. If it gets its list of threads, it adds its round of answers to the report, and otherwise it has none. -/
theorem yields_sweep_into :
    (sweep kind report : Program ε (Except KernelCode SweepReport)).Yields fun result es =>
      (∃ code, result = .ok (.error code) ∧ es = sweepExchanges kind (.error code)) ∨
        ∃ sweep : Sweep, result = .ok (.ok (report.recordAll sweep.round)) ∧ es = sweepExchanges kind (.ok sweep) := by
  rw [sweep, Program.yields_request_bind]
  rintro (code | list)
  · exact Or.inl ⟨code, rfl, rfl⟩
  · dsimp only
    rw [Program.yields_request_bind]
    intro caller
    rw [Program.yields_bind]
    refine (yields_askAll _).mono fun result es h => ?_
    obtain ⟨round, hround, rfl, rfl⟩ := h
    dsimp only
    rw [Program.yields_request_bind]
    rintro ⟨⟩
    exact Or.inr ⟨⟨list, caller, round, hround⟩, rfl, rfl⟩

/-- The report of a single sweep counts those that it asks and those that refuse. -/
theorem yields_sweep :
    (sweep kind {} : Program ε (Except KernelCode SweepReport)).Yields fun result es =>
      (∃ code, result = .ok (.error code) ∧ es = sweepExchanges kind (.error code)) ∨
        ∃ (sweep : Sweep) (report : SweepReport), result = .ok (.ok report) ∧ es = sweepExchanges kind (.ok sweep) ∧
          report.requested = sweep.round.length ∧ report.failed = sweep.refusals := by
  refine yields_sweep_into.mono fun result es h => ?_
  rcases h with hunlisted | ⟨sweep, rfl, rfl⟩
  · exact Or.inl hunlisted
  · refine Or.inr ⟨sweep, _, rfl, rfl, ?_, ?_⟩
    · rw [SweepReport.requested_recordAll, Nat.zero_add]
    · rw [SweepReport.failed_recordAll, Nat.zero_add]
      rfl

end

/-! ## Brackets -/

/-- The error of a bracket from its second sweep, if that got no list of threads. -/
def resumption : Except KernelCode Sweep → Except Error Unit
  | .error code => .error (.ofKernel .resumeThreads code)
  | .ok _ => .ok ()

/-- How a routine goes whose change goes as `P` says. It cannot be entered, which happens only to a routine of the image; there is
no list of threads for suspending; strict mode calls the change off, because a thread refused to be suspended; or the change is
made. In the last two cases the second sweep follows, and if it gets no list, that is the error unless the change had one. -/
inductive Paused (host : Host) (strict : Bool) (P : Except Error Unit → List Exchange → Prop) :
    Except Error Unit → List Exchange → Prop where
  | outside (hhost : host ≠ .other) (address : Address) : Paused host strict P (.error (.routineOutsideImage address)) []
  | unlisted (code : KernelCode) :
      Paused host strict P (.error (.ofKernel .suspendThreads code)) (sweepExchanges .suspend (.error code))
  | calledOff (suspended : Sweep) (hstrict : strict = true) (hrefused : suspended.refusals ≠ 0)
      (resumed : Except KernelCode Sweep) :
      Paused host strict P
        ((resumption resumed).bind fun _ => .error (.partialSuspension suspended.refusals suspended.round.length))
        (suspended.exchanges .suspend ++ sweepExchanges .resume resumed)
  | around {result : Except Error Unit} {es : List Exchange} (suspended : Sweep)
      (hgo : strict = true → suspended.refusals = 0) (h : P result es) (resumed : Except KernelCode Sweep) :
      Paused host strict P (result.bind fun _ => resumption resumed)
        (suspended.exchanges .suspend ++ (es ++ sweepExchanges .resume resumed))

section

variable {ε : Type} {host : Host} {strict : Bool} {P : Except Error Unit → List Exchange → Prop} {change : Engine Unit}

theorem yields_paused (h : change.Yields P) :
    (paused strict change : Program ε (BracketReports × Except Error Unit)).Yields fun result es =>
      ∃ reports result', result = .ok (reports, result') ∧ Paused host strict P result' es := by
  rw [paused, Program.yields_bind]
  refine yields_sweep.mono fun result es₁ hsuspend => ?_
  rcases hsuspend with ⟨code, rfl, rfl⟩ | ⟨suspended, report, rfl, rfl, hrequested, hfailed⟩
  · exact ⟨_, _, rfl, .unlisted code⟩
  · have hcomplete : report.isComplete = true ↔ suspended.refusals = 0 := by
      rw [SweepReport.isComplete, beq_iff_eq, hfailed]
    dsimp only
    split
    · rename_i hoff
      rw [Bool.and_eq_true, Bool.not_eq_true', Bool.eq_false_iff, ne_eq, hcomplete] at hoff
      have hcalledOff := @Paused.calledOff host strict P suspended hoff.1 hoff.2
      rw [Program.yields_bind]
      refine yields_sweep.mono fun result es₂ hresume => ?_
      rw [hfailed, hrequested]
      rcases hresume with ⟨code, rfl, rfl⟩ | ⟨resumed, report', rfl, rfl, -, -⟩
      · exact ⟨_, _, rfl, hcalledOff (.error code)⟩
      · have h := hcalledOff (.ok resumed)
        rw [← List.append_nil (sweepExchanges .resume _)] at h
        exact ⟨_, _, rfl, h⟩
    · rename_i hgo
      rw [Bool.and_eq_true, Bool.not_eq_true', Bool.eq_false_iff, ne_eq, hcomplete, Decidable.not_and_not_right] at hgo
      rw [Program.yields_bind, Program.yields_attempt]
      refine h.mono fun result es h => ?_
      have haround := @Paused.around host strict P result es suspended hgo h
      dsimp only
      rw [Program.yields_bind]
      refine yields_sweep.mono fun result' es₂ hresume => ?_
      rcases hresume with ⟨code, rfl, rfl⟩ | ⟨resumed, report', rfl, rfl, -, -⟩
      · exact ⟨_, _, rfl, haround (.error code)⟩
      · have h := haround (.ok resumed)
        rw [← List.append_nil (sweepExchanges .resume _)] at h
        cases result with
        | error error => exact ⟨_, _, rfl, h⟩
        | ok => exact ⟨_, _, rfl, h⟩

/-- A routine goes as its bracket, unless it cannot be entered; then it asks for nothing. -/
theorem yields_runRoutine {routine : Routine} {shadow : Shadow} (h : change.Yields P) :
    (runRoutine routine host shadow strict change).Yields (Paused host strict P) := by
  rw [runRoutine, Program.yields_bind, Program.yields_attempt]
  rcases hentry : routine.entry host shadow with copy | error | _
  · rw [Program.ofOutcome, Program.yields_done]
    dsimp only
    rw [Program.yields_bind]
    refine (@yields_paused Error host strict P change h).mono fun result es h => ?_
    obtain ⟨reports, result', rfl, h⟩ := h
    dsimp only
    rw [Program.yields_bind, Program.yields_noteAll]
    dsimp only
    rw [Program.yields_ofExcept]
    simpa using h
  · obtain ⟨address, rfl⟩ := Routine.outside_of_entry_eq_failed hentry
    have hhost : host ≠ .other := by
      rintro rfl
      cases hentry
    rw [Program.ofOutcome, Program.yields_failed]
    dsimp only
    rw [Program.yields_bind, Program.yields_noteAll]
    exact .outside hhost address
  · trivial

end

/-! ## A bracket as a whole -/

/-- How a bracket goes whose change goes as `P` says, if the single threads do not matter: it ends before the change; or the change
is made between two sweeps, and decides the result unless it succeeded and no list for resuming came. -/
inductive Bracketed (strict : Bool) (P : Except Error Unit → List Exchange → Prop) :
    Except Error Unit → List Exchange → Prop where
  | before {error : Error} {es : List Exchange} (hidle : ∀ e ∈ es, e.request.Idle)
      (herror : error.BeforeChange (strict = true ∧ Refused .suspend es)) : Bracketed strict P (.error error) es
  | around {result : Except Error Unit} {es₁ es es₂ : List Exchange} (h₁ : ∀ e ∈ es₁, e.request.OfSweep .suspend)
      (hgo : ¬ (strict = true ∧ Refused .suspend es₁)) (h : P result es) (h₂ : ∀ e ∈ es₂, e.request.OfSweep .resume) :
      Bracketed strict P result (es₁ ++ (es ++ es₂))
  | unresumed {es₁ es es₂ : List Exchange} (code : KernelCode) (h₁ : ∀ e ∈ es₁, e.request.OfSweep .suspend)
      (hgo : ¬ (strict = true ∧ Refused .suspend es₁)) (h : P (.ok ()) es) (h₂ : ∀ e ∈ es₂, e.request.OfSweep .resume) :
      Bracketed strict P (.error (.ofKernel .resumeThreads code)) (es₁ ++ (es ++ es₂))

/-- What is known of a bracket thread by thread, without the threads. -/
theorem Paused.bracketed {host : Host} {strict : Bool} {P : Except Error Unit → List Exchange → Prop}
    {result : Except Error Unit} {es : List Exchange} (h : Paused host strict P result es) : Bracketed strict P result es := by
  cases h with
  | outside hhost address => exact .before (by simp) trivial
  | unlisted code => exact .before (fun e he => (ofSweep_of_mem_sweepExchanges e he).idle) trivial
  | calledOff suspended hstrict hrefused resumed =>
    have hidle : ∀ e ∈ suspended.exchanges .suspend ++ sweepExchanges .resume resumed, e.request.Idle := by
      intro e he
      rcases List.mem_append.1 he with he | he
      · exact (suspended.ofSweep_of_mem_exchanges e he).idle
      · exact (ofSweep_of_mem_sweepExchanges e he).idle
    have hcalledOff : strict = true ∧ Refused .suspend (suspended.exchanges .suspend ++ sweepExchanges .resume resumed) :=
      ⟨hstrict, refused_append.2 (Or.inl ((refused_exchanges_iff suspended).2 hrefused))⟩
    cases resumed with
    | error code => exact .before hidle hcalledOff
    | ok resumed => exact .before hidle hcalledOff
  | @around result es suspended hgo h resumed =>
    have h₁ : ∀ e ∈ suspended.exchanges .suspend, e.request.OfSweep .suspend := suspended.ofSweep_of_mem_exchanges
    have hgo' : ¬ (strict = true ∧ Refused .suspend (suspended.exchanges .suspend)) := by
      rintro ⟨hstrict, hrefused⟩
      exact (refused_exchanges_iff suspended).1 hrefused (hgo hstrict)
    cases resumed with
    | ok resumed =>
      cases result with
      | error error => exact .around h₁ hgo' h ofSweep_of_mem_sweepExchanges
      | ok => exact .around h₁ hgo' h ofSweep_of_mem_sweepExchanges
    | error code =>
      cases result with
      | error error => exact .around h₁ hgo' h ofSweep_of_mem_sweepExchanges
      | ok => exact .unresumed code h₁ hgo' h ofSweep_of_mem_sweepExchanges

end LivePatch
