import LivePatch.Engine.Image
import LivePatch.Engine.World

/-!
# What runs write down

A run adds events to the journal and never looks at it. `Program.events` is what it adds. `Program.Notes` says what every event of a
program is, whatever comes back for its requests. Reporting is the only way to an event at the error level: what is reported notes
none itself, so the error events of an operation that reports are those of its failure.
-/

namespace LivePatch

namespace Program

variable {κ ε ε' α β : Type}

/-- The events that a run adds to the journal, in their order. -/
def events [Kernel κ] : Program ε α → κ → List Event
  | done _, _ | failed _, _ | crashed, _ => []
  | emit event next, kernel => event :: next.events kernel
  | ask request next, kernel =>
    match Kernel.serve request kernel with
    | (some reply, kernel) => (next reply).events kernel
    | (none, _) => []

/-- Every event of the program is as `P` says, whatever came back for its requests. -/
def Notes (P : Event → Prop) : Program ε α → Prop
  | done _ | failed _ | crashed => True
  | emit event next => P event ∧ next.Notes P
  | ask _ next => ∀ reply, (next reply).Notes P

section

variable [Kernel κ]

/-- The journal behind a run is the one before it with the events of the run added. -/
theorem journal_run (x : Program ε α) (world : World κ) :
    (x.run world).2.journal.toList = world.journal.toList ++ x.events world.kernel := by
  induction x generalizing world with
  | done | failed | crashed => exact (List.append_nil _).symm
  | emit event next ih => simpa [events] using ih { world with journal := world.journal.push event }
  | ask request next ih =>
    rw [run, events]
    rcases Kernel.serve request world.kernel with ⟨_ | reply, kernel⟩
    · exact (List.append_nil _).symm
    · exact ih reply { world with kernel := kernel }

/-- What stands in the journal behind the place that it had reached before a run are the events of the run. -/
theorem extract_journal_run (x : Program ε α) (world : World κ) :
    ((x.run world).2.journal.extract world.journal.size).toList = x.events world.kernel := by
  rw [Array.toList_extract, journal_run]
  simp [List.extract_eq_take_drop, ← Array.length_toList, journal_run]

/-- A sequence adds the events of its first part, and those of its second part from where the first one ends well. -/
theorem events_bind (x : Program ε α) (f : α → Program ε β) (world : World κ) :
    (x >>= f).events world.kernel = x.events world.kernel ++ match x.run world with
      | (.done value, after) => (f value).events after.kernel
      | (_, _) => [] := by
  induction x generalizing world with
  | done | failed | crashed => rfl
  | emit event next ih =>
    have hnext := ih { world with journal := world.journal.push event }
    exact congrArg (event :: ·) hnext
  | ask request next ih =>
    simp only [ask_bind, events, run]
    rcases Kernel.serve request world.kernel with ⟨_ | reply, kernel⟩
    · rfl
    · exact ih reply { world with kernel := kernel }

@[simp] theorem events_attempt (x : Program ε α) (kernel : κ) :
    (x.attempt : Program ε' (Except ε α)).events kernel = x.events kernel := by
  induction x generalizing kernel with
  | done | failed | crashed => rfl
  | emit event next ih => exact congrArg (event :: ·) (ih kernel)
  | ask request next ih =>
    simp only [attempt, events]
    rcases Kernel.serve request kernel with ⟨_ | reply, kernel⟩
    · rfl
    · exact ih reply kernel

/-- Noting events and failing adds those events. -/
theorem events_noteAll_failed (events : List Event) (error : ε) (kernel : κ) :
    (noteAll events >>= fun _ => (failed error : Program ε α)).events kernel = events := by
  induction events with
  | nil => rfl
  | cons event rest ih => exact congrArg (event :: ·) ih

end

/-! ## What programs may note -/

section

variable {P : Event → Prop} {x : Program ε α}

@[simp] theorem notes_done {value : α} : (done value : Program ε α).Notes P := trivial

@[simp] theorem notes_failed {error : ε} : (failed error : Program ε α).Notes P := trivial

@[simp] theorem notes_crashed : (crashed : Program ε α).Notes P := trivial

@[simp] theorem notes_request {request : Request} : (Program.request request : Program ε _).Notes P := fun _ => trivial

@[simp] theorem notes_note {event : Event} : (note event : Program ε Unit).Notes P ↔ P event := and_iff_left trivial

@[simp] theorem notes_require {value? : Option α} : (require value? : Program ε α).Notes P := by
  cases value? <;> trivial

@[simp] theorem notes_ofExcept {result : Except ε α} : (ofExcept result).Notes P := by
  cases result <;> trivial

@[simp] theorem notes_ofOutcome {outcome : Outcome ε α} : (ofOutcome outcome).Notes P := by
  cases outcome <;> trivial

theorem notes_noteAll {events : List Event} (h : ∀ event ∈ events, P event) : (noteAll events : Program ε Unit).Notes P := by
  induction events with
  | nil => trivial
  | cons event rest ih =>
    obtain ⟨hevent, hrest⟩ := List.forall_mem_cons.1 h
    exact ⟨hevent, ih hrest⟩

theorem Notes.bind {f : α → Program ε β} (h : x.Notes P) (hf : ∀ value, (f value).Notes P) : (x >>= f).Notes P := by
  induction x with
  | done value => exact hf value
  | failed | crashed => trivial
  | emit event next ih => exact ⟨h.1, ih h.2⟩
  | ask request next ih => exact fun reply => ih reply (h reply)

theorem Notes.attempt (h : x.Notes P) : (x.attempt : Program ε' (Except ε α)).Notes P := by
  induction x with
  | done | failed | crashed => trivial
  | emit event next ih => exact ⟨h.1, ih h.2⟩
  | ask request next ih => exact fun reply => ih reply (h reply)

theorem Notes.during {step : Step} {x : Program Error (Except KernelCode α)} (h : x.Notes P) : (x.during step).Notes P :=
  h.bind fun result => by cases result <;> trivial

/-- What a program may note is what its runs add. -/
theorem Notes.of_mem_events [Kernel κ] (h : x.Notes P) {kernel : κ} : ∀ event ∈ x.events kernel, P event := by
  induction x generalizing kernel with
  | done | failed | crashed => exact fun _ h => nomatch h
  | emit event next ih => exact List.forall_mem_cons.2 ⟨h.1, ih h.2⟩
  | ask request next ih =>
    rw [events]
    rcases Kernel.serve request kernel with ⟨_ | reply, kernel⟩
    · exact fun _ h => nomatch h
    · exact ih reply (h reply)

/-- A program that may note nothing adds nothing. -/
theorem Notes.events_eq_nil [Kernel κ] (h : x.Notes fun _ => False) (kernel : κ) : x.events kernel = [] :=
  List.eq_nil_iff_forall_not_mem.2 h.of_mem_events

end

end Program

/-! ## The operations of the engine -/

/-- An event below the error level. -/
def Event.Mild (event : Event) : Prop := event.level ≠ .error

section

open Program (notes_request notes_note notes_require notes_noteAll notes_ofExcept notes_ofOutcome)

variable {ε : Type} {P : Event → Prop}

/-- Sweeps note nothing; what they saw comes back in their report. -/
theorem notes_sweep {kind : ThreadRequest} {report : SweepReport} :
    (sweep kind report : Program ε (Except KernelCode SweepReport)).Notes P := by
  have hall : ∀ (threads : List Thread) (report : SweepReport), (askAll kind threads report : Program ε SweepReport).Notes P := by
    intro threads
    induction threads with
    | nil => exact fun _ => trivial
    | cons thread rest ih =>
      refine fun report => Program.Notes.bind ?_ fun result => ih _
      cases kind <;> exact notes_request
  refine notes_request.bind fun result => ?_
  cases result with
  | error code => trivial
  | ok list => exact notes_request.bind fun caller => (hall _ report).bind fun _ => notes_request.bind fun _ => trivial

/-- A bracket notes what its change does. -/
theorem notes_paused {strict : Bool} {change : Engine Unit} (h : change.Notes P) :
    (paused strict change : Program ε (BracketReports × Except Error Unit)).Notes P := by
  refine notes_sweep.bind fun result => ?_
  cases result with
  | error code => trivial
  | ok suspended =>
    dsimp only
    split
    · exact notes_sweep.bind fun result => by cases result <;> trivial
    · exact h.attempt.bind fun _ => notes_sweep.bind fun result => by cases result <;> trivial

/-- The events of a report are mild: a thread that refuses is no failure. -/
theorem SweepReport.mild_of_mem_events {report : SweepReport} {step : Step} : ∀ event ∈ report.events step, event.Mild := by
  intro event hevent
  simp only [SweepReport.events, List.mem_append, List.mem_map, List.mem_singleton] at hevent
  rcases hevent with (⟨refusal, -, rfl⟩ | hmore) | rfl
  · exact nofun
  · split at hmore
    · cases List.mem_singleton.1 hmore
      exact nofun
    · cases hmore
  · exact nofun

theorem BracketReports.mild_of_mem_events {reports : BracketReports} : ∀ event ∈ reports.events, event.Mild :=
  fun _ h => (List.mem_append.1 h).elim (SweepReport.mild_of_mem_events _) (SweepReport.mild_of_mem_events _)

theorem mild_runRoutine {routine : Routine} {host : Host} {shadow : Shadow} {strict : Bool} {change : Engine Unit}
    (h : change.Notes Event.Mild) : (runRoutine routine host shadow strict change).Notes Event.Mild := by
  refine notes_ofOutcome.attempt.bind fun entry => ?_
  cases entry with
  | error error => exact (notes_noteAll BracketReports.mild_of_mem_events).bind fun _ => trivial
  | ok => exact (notes_paused h).bind fun _ => (notes_noteAll BracketReports.mild_of_mem_events).bind fun _ => notes_ofExcept

theorem mild_locate {base : Address} : (locate base).Notes Event.Mild := by
  have hquery : ∀ expected part step, (queryAt expected part step).Notes Event.Mild := by
    intro expected part step
    exact notes_request.during.bind fun region => by split <;> trivial
  have hparts : ∀ parts, (noteParts parts).Notes Event.Mild := by
    intro parts
    induction parts with
    | nil => trivial
    | cons placed rest ih => exact notes_require.bind fun limit => Program.Notes.bind (notes_note.2 nofun) fun _ => ih
  have hbehind : ∀ code, (locateBehind code).Notes Event.Mild := by
    refine fun code => notes_require.bind fun _ => (hquery _ _ _).bind fun _ => ?_
    refine notes_require.bind fun _ => (hquery _ _ _).bind fun _ => ?_
    exact notes_require.bind fun parts => (hparts parts).bind fun _ => trivial
  refine notes_request.during.bind fun code => ?_
  dsimp only
  split
  · exact Program.Notes.bind (notes_note.2 nofun) fun _ => hbehind code
  · exact hbehind code

/-- A shadow image that stays behind is no failure either. -/
theorem mild_buildShadow {layout : Layout} : (buildShadow layout).Notes Event.Mild := by
  have hcopy : ∀ base parts, (copyParts base parts).Notes Event.Mild := by
    intro base parts
    induction parts with
    | nil => trivial
    | cons placed rest ih => exact notes_require.bind fun _ => notes_request.during.bind fun _ => ih
  refine notes_require.bind fun size => notes_request.during.bind fun base => ?_
  have hfill : (fillShadow layout base size).Notes Event.Mild :=
    notes_request.during.bind fun _ => notes_require.bind fun parts => (hcopy base parts).bind fun _ => notes_request.during
  refine hfill.attempt.bind fun result => ?_
  cases result with
  | ok => exact notes_require.bind fun _ => Program.Notes.bind (notes_note.2 nofun) fun _ => trivial
  | error error =>
    refine Program.Notes.bind (notes_request.bind fun result => ?_) fun _ => trivial
    cases result with
    | ok => trivial
    | error code => exact notes_note.2 nofun

theorem notes_replaceCode {code : Region} {shadowBase : Address} : (replaceCode code shadowBase).Notes P := by
  refine notes_request.during.bind fun _ => notes_request.during.bind fun actual => ?_
  split
  · trivial
  · exact notes_request.during.bind fun _ => notes_request.during.bind fun _ => notes_request.during

theorem notes_writeCode {target : Address} {bytes : Bytes} {span : PageSpan} : (writeCode target bytes span).Notes P :=
  notes_request.during.bind fun _ => notes_request.during.attempt.bind fun _ =>
    notes_request.during.attempt.bind fun _ => notes_ofExcept

/-- Whatever gets in its way, preparing notes no error itself. -/
theorem Image.mild_establish {host : Host} {imageBase : Address} {pageSize : Nat} {config : Config} :
    (Image.establish host imageBase pageSize config).Notes Event.Mild := by
  refine mild_locate.bind fun layout => notes_ofOutcome.bind fun _ => notes_ofOutcome.bind fun _ => ?_
  refine mild_buildShadow.bind fun shadow => (mild_runRoutine notes_replaceCode).bind fun _ => notes_request.bind fun _ => ?_
  exact notes_require.bind fun _ => Program.Notes.bind (notes_note.2 nofun) fun _ => trivial

/-- Neither does overwriting. -/
theorem Image.mild_overwrite {image : Image} {host : Host} {target : Address} {bytes : Bytes} :
    (image.overwrite host target bytes).Notes Event.Mild := by
  refine Program.Notes.bind (notes_require.bind fun span => mild_runRoutine notes_writeCode) fun _ => ?_
  refine notes_request.bind fun _ => ?_
  have hverify : (Image.verify target bytes).Notes Event.Mild := notes_request.during.bind fun _ => by split <;> trivial
  split
  · exact hverify.bind fun _ => notes_note.2 nofun
  · exact notes_note.2 nofun

end

end LivePatch
