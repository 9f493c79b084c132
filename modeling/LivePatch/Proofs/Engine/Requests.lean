import LivePatch.Engine.Guard
import LivePatch.Proofs.Engine.Precedence

/-!
# What the programs ask for

The requests that the programs of the engine can make, whatever they are told: sweeps leave the memory alone, a bracket adds the
requests of its change, and a survey has nothing to do with threads.
-/

namespace LivePatch

open Program (asks_request asks_noteAll asks_ofExcept asks_ofOutcome asks_attempt asks_require_bind)

/-- A request to read. -/
def Request.IsRead : Request → Prop
  | .read .. => True
  | _ => False

theorem Request.IsRead.idle {request : Request} (h : request.IsRead) : request.Idle := by
  cases request <;> trivial

/-- Requests that are about threads. -/
def Request.OfThreads : Request → Prop
  | .threads | .currentThread | .release _ | .suspend _ | .resume _ => True
  | _ => False

/-! ## Brackets -/

/-- The requests of a sweep: for the threads, for the caller, and the same one to each of the others. -/
def Request.OfSweep (kind : ThreadRequest) : Request → Prop
  | .threads | .currentThread | .release _ => True
  | .suspend _ => kind = .suspend
  | .resume _ => kind = .resume
  | _ => False

theorem Request.OfSweep.idle {kind : ThreadRequest} {request : Request} (h : request.OfSweep kind) : request.Idle := by
  cases request <;> trivial

section

variable {ε : Type} {P : Request → Prop} {kind : ThreadRequest} {strict : Bool} {change : Engine Unit}

theorem asks_sweep (report : SweepReport) :
    (sweep kind report : Program ε (Except KernelCode SweepReport)).Asks (Request.OfSweep kind) := by
  have hall : ∀ (threads : List Thread) (report : SweepReport),
      (askAll kind threads report : Program ε SweepReport).Asks (Request.OfSweep kind) := by
    intro threads
    induction threads with
    | nil => exact fun _ => trivial
    | cons thread rest ih =>
      refine fun report => Program.Asks.bind ?_ fun result => ih _
      cases kind with
      | suspend => exact asks_request.2 rfl
      | resume => exact asks_request.2 rfl
  refine Program.Asks.bind (asks_request.2 trivial) fun result => ?_
  cases result with
  | error code => trivial
  | ok list =>
    refine Program.Asks.bind (asks_request.2 trivial) fun caller => (hall _ report).bind fun report => ?_
    exact Program.Asks.bind (asks_request.2 trivial) fun _ => trivial

/-- A bracket makes the requests of its change behind those of a sweep. -/
theorem heeds_paused {P : List Exchange → Request → Prop} {es : List Exchange}
    (hsweep : ∀ es kind request, Request.OfSweep kind request → P es request) (h : ∀ es', change.Heeds P (es ++ es')) :
    (paused strict change : Program ε (BracketReports × Except Error Unit)).Heeds P es := by
  have hheeds : ∀ kind es, (sweep kind {} : Program ε (Except KernelCode SweepReport)).Heeds P es :=
    fun kind es => (asks_sweep {}).heeds fun es request => hsweep es kind request
  refine (hheeds .suspend es).bind fun result es' => ?_
  cases result with
  | error code => trivial
  | ok suspended =>
    dsimp only
    split
    · refine (hheeds .resume _).bind fun result _ => ?_
      cases result <;> trivial
    · refine Program.Heeds.bind (Program.heeds_attempt.2 (h es')) fun _ _ => (hheeds .resume _).bind fun result _ => ?_
      cases result <;> trivial

theorem heeds_runRoutine {P : List Exchange → Request → Prop} {es : List Exchange} {routine : Routine} {host : Host}
    {shadow : Shadow} (hsweep : ∀ es kind request, Request.OfSweep kind request → P es request)
    (h : ∀ es', change.Heeds P (es ++ es')) : (runRoutine routine host shadow strict change).Heeds P es := by
  have hsilent : ∀ {α : Type} {x : Engine α} {es : List Exchange}, x.Asks (fun _ => False) → x.Heeds P es :=
    fun h => h.heeds fun _ _ => False.elim
  refine Program.Heeds.bind (hsilent (asks_attempt.2 asks_ofOutcome)) fun entry es' => ?_
  cases entry with
  | error error => exact hsilent (asks_noteAll.bind fun _ => trivial)
  | ok =>
    refine (heeds_paused hsweep fun es'' => ?_).bind fun (_, _) _ => hsilent (asks_noteAll.bind fun _ => asks_ofExcept)
    rw [List.append_assoc]
    exact h _

/-- A routine makes the requests of two sweeps and those of its change. -/
theorem asks_runRoutine {routine : Routine} {host : Host} {shadow : Shadow}
    (hsweep : ∀ kind request, Request.OfSweep kind request → P request) (h : change.Asks P) :
    (runRoutine routine host shadow strict change).Asks P :=
  (Program.heeds_iff_asks []).1 (heeds_runRoutine (fun _ => hsweep) fun _ => (Program.heeds_iff_asks _).2 h)

end

/-! ## Surveys -/

/-- The requests of a preparation before the code is recreated: queries, and what it takes to build a shadow image. -/
def Request.OfSurvey : Request → Prop
  | .region _ | .allocate .anywhere _ | .deallocate .. | .protect .. | .copy .. => True
  | _ => False

theorem Request.OfSurvey.not_ofThreads {request : Request} (h : request.OfSurvey) : ¬ request.OfThreads := by
  cases request <;> first | exact h.elim | exact id

section

variable {base : Address} {layout : Layout}

/-- Locating makes queries. -/
theorem asks_locate_of {P : Request → Prop} (hquery : ∀ address, P (.region address)) : (locate base).Asks P := by
  have hqueryAt : ∀ expected part step, (queryAt expected part step).Asks P := fun expected part step =>
    (Program.Asks.during (asks_request.2 (hquery _))).bind fun _ => by split <;> trivial
  have hparts : ∀ parts, (noteParts parts).Asks P := by
    intro parts
    induction parts with
    | nil => trivial
    | cons placed rest ih => exact asks_require_bind fun _ _ => ih
  have hbehind : ∀ code, (locateBehind code).Asks P := by
    refine fun code => asks_require_bind fun _ _ => (hqueryAt _ _ _).bind fun _ => ?_
    refine asks_require_bind fun _ _ => (hqueryAt _ _ _).bind fun _ => ?_
    exact asks_require_bind fun parts _ => (hparts parts).bind fun _ => trivial
  refine (Program.Asks.during (asks_request.2 (hquery _))).bind fun code => ?_
  dsimp only
  split
  · exact hbehind code
  · exact hbehind code

theorem asks_locate : (locate base).Asks Request.OfSurvey := asks_locate_of fun _ => trivial

theorem asks_copyParts {P : Request → Prop} (hcopy : ∀ source size destination, P (.copy source size destination))
    (base : Address) (parts : List PlacedRegion) : (copyParts base parts).Asks P := by
  induction parts with
  | nil => trivial
  | cons placed rest ih =>
    exact asks_require_bind fun _ _ => (Program.Asks.during (asks_request.2 (hcopy _ _ _))).bind fun _ => ih

/-- Building a shadow image maps memory for the three regions, and protects, fills and unmaps that. -/
theorem asks_buildShadow_of {P : Request → Prop} (hmap : ∀ size, layout.size = some size → P (.allocate .anywhere size))
    (hprotect : ∀ base size protection, P (.protect base size protection))
    (hcopy : ∀ source size destination, P (.copy source size destination))
    (hunmap : ∀ base size, P (.deallocate base size)) : (buildShadow layout).Asks P := by
  refine asks_require_bind fun size hsize => (Program.Asks.during (asks_request.2 (hmap size hsize))).bind fun base => ?_
  have hfill : (fillShadow layout base size).Asks P := by
    refine (Program.Asks.during (asks_request.2 (hprotect _ _ _))).bind fun _ => asks_require_bind fun parts _ => ?_
    exact (asks_copyParts hcopy base parts).bind fun _ => Program.Asks.during (asks_request.2 (hprotect _ _ _))
  refine (asks_attempt.2 hfill).bind fun result => ?_
  cases result with
  | ok => exact asks_require_bind fun _ _ => trivial
  | error error =>
    have hdiscard : (discardShadow base size).Asks P :=
      Program.Asks.bind (asks_request.2 (hunmap _ _)) fun result => by cases result <;> trivial
    exact hdiscard.bind fun _ => trivial

/-- Building a shadow image makes requests of a survey. -/
theorem asks_buildShadow : (buildShadow layout).Asks Request.OfSurvey :=
  asks_buildShadow_of (fun _ _ => trivial) (fun _ _ _ => trivial) (fun _ _ _ => trivial) fun _ _ => trivial

end

/-! ## Preparations -/

section

variable {P : Request → Prop} {host : Host} {attempted : Bool} {imageBase : Address} {pageSize : Nat} {config : Config}

/-- Replacing the code unmaps it, maps memory in its place, and fills and protects that. -/
theorem asks_replaceCode {code : Region} {shadowBase : Address} (hunmap : P (.deallocate code.base code.size))
    (hmap : P (.allocate (.fixed code.base) code.size)) (hprotect : ∀ protection, P (.protect code.base code.size protection))
    (hcopy : P (.copy shadowBase code.size code.base)) : (replaceCode code shadowBase).Asks P := by
  refine (Program.Asks.during (asks_request.2 hunmap)).bind fun _ => ?_
  refine (Program.Asks.during (asks_request.2 hmap)).bind fun actual => ?_
  split
  · trivial
  · refine (Program.Asks.during (asks_request.2 (hprotect _))).bind fun _ => ?_
    exact (Program.Asks.during (asks_request.2 hcopy)).bind fun _ => Program.Asks.during (asks_request.2 (hprotect _))

/-- A preparation makes a survey, replaces the code in a bracket and flushes it. -/
theorem asks_prepare (hsurvey : ∀ request : Request, request.OfSurvey → P request)
    (hsweep : ∀ kind request, Request.OfSweep kind request → P request) (hfixed : ∀ base size, P (.allocate (.fixed base) size))
    (hflush : ∀ base size, P (.flush base size)) :
    (Image.prepare host attempted imageBase pageSize config).Asks P := by
  have hchange : ∀ code shadowBase, (replaceCode code shadowBase).Asks P := fun code shadowBase =>
    asks_replaceCode (hsurvey _ trivial) (hfixed _ _) (fun _ => hsurvey _ trivial) (hsurvey _ trivial)
  have hestablish : (Image.establish host imageBase pageSize config).Asks P := by
    refine (asks_locate.mono hsurvey).bind fun layout => asks_ofOutcome.bind fun _ => asks_ofOutcome.bind fun _ => ?_
    refine (asks_buildShadow.mono hsurvey).bind fun shadow => (asks_runRoutine hsweep (hchange _ _)).bind fun _ => ?_
    exact Program.Asks.bind (asks_request.2 (hflush _ _)) fun _ => asks_require_bind fun _ _ => trivial
  unfold Image.prepare
  split
  · trivial
  · exact Program.Asks.reporting hestablish

end

/-! ## Patches -/

section

variable {P : Request → Prop} {image : Image} {target : Address} {bytes : Bytes}

/-- A patch opens its pages, writes, and closes them. -/
theorem asks_writeCode_of {span : PageSpan} (hopen : P (.protect span.start span.size .readWrite)) (hwrite : P (.write target bytes))
    (hclose : P (.protect span.start span.size .readExecute)) : (writeCode target bytes span).Asks P := by
  refine (Program.Asks.during (asks_request.2 hopen)).bind fun _ => ?_
  refine (asks_attempt.2 (Program.Asks.during (asks_request.2 hwrite))).bind fun _ => ?_
  exact (asks_attempt.2 (Program.Asks.during (asks_request.2 hclose))).bind fun _ => asks_ofExcept

theorem asks_verify (hread : P (.read target bytes.size)) : (Image.verify target bytes).Asks P :=
  (Program.Asks.during (asks_request.2 hread)).bind fun _ => by split <;> trivial

/-- What a patch is about to replace is read. -/
theorem asks_save {len : Nat} (hread : P (.read target len)) : (image.save target len).Asks P := by
  rw [Image.save]
  split
  · trivial
  · refine asks_require_bind fun _ _ => ?_
    split
    · exact Program.Asks.during (asks_request.2 hread)
    · exact asks_require_bind fun _ _ => trivial

end

end LivePatch
