import LivePatch.Proofs.Confinement
import LivePatch.Proofs.Engine.Completion
import LivePatch.Proofs.Engine.Survey
import LivePatch.Proofs.Simulation.Replay

/-!
# The order of the calls

Which calls a preparation or a patch makes is laid down in a plan: calls ahead of a bracket, the change that the bracket is for, and
calls behind it. An operation makes the calls of its plan in their order and stops behind the first one that does not go as it has
to. After that it makes only the calls that it owes: it discards what it began, and resumes the threads that it suspended. Its error
is that of the call that stopped it.
-/

namespace LivePatch

/-! ## Plans -/

/-- The step that lists the threads for a sweep. -/
def ThreadRequest.step : ThreadRequest → Step
  | suspend => .suspendThreads
  | resume => .resumeThreads

namespace Sweep

/-- The stages of a sweep: only a missing list of threads can end it. -/
def stages (sweep : Sweep) (kind : ThreadRequest) : List Stage :=
  ⟨some kind.step, ⟨.threads, .ok sweep.list⟩⟩ :: (sweep.tail kind).map (⟨none, ·⟩)

theorem map_stages (sweep : Sweep) (kind : ThreadRequest) : (sweep.stages kind).map Stage.exchange = sweep.exchanges kind := by
  simp [stages, exchanges, Function.comp_def]

/-- A sweep that nobody is asked in. -/
def idle (caller : Thread) : Sweep := ⟨⟨[], false⟩, caller, [], rfl⟩

/-- The error of an operation that strict mode called off: the refusals, or the missing list of threads for resuming. -/
def refusal (suspended : Sweep) : Except KernelCode Sweep → Error
  | .error code => .ofKernel .resumeThreads code
  | .ok _ => .partialSuspension suspended.refusals suspended.round.length

end Sweep

/-- The calls of an operation: those ahead of its bracket, those of its change and those behind the bracket; and what it owes if it
is ended at a step. A step of the change is a step of nothing else, and nothing is owed for a sweep or for what comes behind. -/
structure Plan where
  ahead : List Stage
  change : List Stage
  behind : List Stage
  owed : Step → List Request
  own : ∀ step, some step ∈ change.map Stage.step? →
    step ∉ [.suspendThreads, .resumeThreads] ∧ some step ∉ (ahead ++ behind).map Stage.step?
  settled : ∀ step, step ∈ [.suspendThreads, .resumeThreads] ∨ some step ∈ behind.map Stage.step? → owed step = []

namespace Plan

/-- All calls of the plan, with the two sweeps of the bracket. -/
def stages (plan : Plan) (suspended resumed : Sweep) : List Stage :=
  plan.ahead ++ (suspended.stages .suspend ++ (plan.change ++ (resumed.stages .resume ++ plan.behind)))

/-- The resume sweep that follows if the operation is ended at a step of the change; otherwise none does. -/
inductive Recovers (plan : Plan) (caller : Thread) (step : Step) : List Exchange → Prop where
  | paused (h : some step ∈ plan.change.map Stage.step?) (resumed : Except KernelCode Sweep) (hresumed : MadeBy caller resumed) :
      Recovers plan caller step (sweepExchanges .resume resumed)
  | running (h : some step ∉ plan.change.map Stage.step?) : Recovers plan caller step []

/-- How an operation with this plan goes. It makes all calls of the plan; or one of them ends it, with what it owes then; or strict
mode calls the change off behind the suspend sweep, because a thread refused, and the resume sweep follows. -/
inductive Goes (plan : Plan) (caller : Thread) (strict : Bool) : Option Error → List Exchange → Prop where
  | through (suspended resumed : Sweep) (hsuspended : suspended.caller = caller) (hresumed : resumed.caller = caller)
      (hgo : strict = true → suspended.refusals = 0) :
      Goes plan caller strict none ((plan.stages suspended resumed).map Stage.exchange)
  | stopped (suspended resumed : Sweep) (hsuspended : suspended.caller = caller) (hresumed : resumed.caller = caller)
      (hgo : strict = true → suspended.refusals = 0) {step : Step} {error : Error} {made cleanup recovery : List Exchange}
      (hcut : Cut (plan.stages suspended resumed) step error made) (hcleanup : cleanup.map Exchange.request = plan.owed step)
      (hrecovery : plan.Recovers caller step recovery) :
      Goes plan caller strict (some error) (made ++ (cleanup ++ recovery))
  | calledOff (suspended : Sweep) (hsuspended : suspended.caller = caller) (hstrict : strict = true)
      (hrefused : suspended.refusals ≠ 0) (resumed : Except KernelCode Sweep) (hresumed : MadeBy caller resumed) :
      Goes plan caller strict (some (suspended.refusal resumed))
        (plan.ahead.map Stage.exchange ++ (suspended.exchanges .suspend ++ sweepExchanges .resume resumed))

/-- All calls of the change go as they have to; or one of them ends it, and what is owed then follows. -/
def Makes (plan : Plan) : Except Error Unit → List Exchange → Prop
  | .ok _, es => es = plan.change.map Stage.exchange
  | .error error, es => ∃ step made cleanup, es = made ++ cleanup ∧ Cut plan.change step error made ∧
      cleanup.map Exchange.request = plan.owed step

section

variable {plan : Plan} {caller : Thread} {strict : Bool} {P : Except Error Unit → List Exchange → Prop} {error : Error}
  {es made rest : List Exchange} {step : Step}

/-- An operation that is ended outside of its change and owes nothing else. -/
theorem Goes.of_cut (suspended resumed : Sweep) (hsuspended : suspended.caller = caller) (hresumed : resumed.caller = caller)
    (hgo : strict = true → suspended.refusals = 0) (hcut : Cut (plan.stages suspended resumed) step error made)
    (hstep : step ∈ [.suspendThreads, .resumeThreads] ∨ some step ∈ plan.behind.map Stage.step?) :
    plan.Goes caller strict (some error) made := by
  have hown : some step ∉ plan.change.map Stage.step? := by
    intro h
    obtain ⟨hsweep, hothers⟩ := plan.own step h
    rcases hstep with hstep | hstep
    · exact hsweep hstep
    · exact hothers (by simp [hstep])
  have hcleanup : ([] : List Exchange).map Exchange.request = plan.owed step := (plan.settled step hstep).symm
  rw [← List.append_nil made]
  exact .stopped suspended resumed hsuspended hresumed hgo hcut hcleanup (.running hown)

/-- An operation that is ended ahead of its bracket. -/
theorem Goes.of_cut_ahead {cleanup : List Exchange} (hcut : Cut plan.ahead step error made)
    (hcleanup : cleanup.map Exchange.request = plan.owed step) : plan.Goes caller strict (some error) (made ++ cleanup) := by
  have hown : some step ∉ plan.change.map Stage.step? := by
    intro h
    exact (plan.own step h).2 (by simp [hcut.step_mem])
  rw [← List.append_nil cleanup]
  exact .stopped (.idle caller) (.idle caller) rfl rfl (fun _ => rfl) hcut.append_right hcleanup (.running hown)

/-- A bracket that fails, behind the calls that come ahead of it. -/
theorem goes_of_stopped (h : Paused .other strict P (.error error) es) (hP : ∀ {result es}, P result es → plan.Makes result es)
    (hcaller : ∀ thread, ⟨.currentThread, thread⟩ ∈ es → thread = caller) :
    plan.Goes caller strict (some error) (plan.ahead.map Stage.exchange ++ es) := by
  generalize hresult : (.error error : Except Error Unit) = result at h
  cases h with
  | outside hhost => exact absurd rfl hhost
  | unlisted code =>
    cases hresult
    have hwhole : Cut (plan.stages (.idle caller) (.idle caller)) .suspendThreads (.ofKernel .suspendThreads code)
        (plan.ahead.map Stage.exchange ++ [⟨.threads, .error code⟩]) :=
      Cut.append_left (Cut.append_right (.here (.refused rfl rfl)))
    exact .of_cut (.idle caller) (.idle caller) rfl rfl (fun _ => rfl) hwhole (Or.inl (by simp))
  | calledOff suspended hstrict hrefused resumed =>
    have hsuspended : suspended.caller = caller := hcaller _ (List.mem_append_left _ suspended.caller_mem_exchanges)
    have hresumed : MadeBy caller resumed := fun sweep hswept =>
      hcaller _ (List.mem_append_right _ (hswept ▸ sweep.caller_mem_exchanges))
    have herror : error = suspended.refusal resumed := by
      cases resumed with
      | error | ok => exact Except.error.inj hresult
    exact herror ▸ .calledOff suspended hsuspended hstrict hrefused resumed hresumed
  | @around result es' suspended hgo h resumed =>
    have hsuspended : suspended.caller = caller := hcaller _ (List.mem_append_left _ suspended.caller_mem_exchanges)
    have hresumed : MadeBy caller resumed :=
      fun sweep hswept => hcaller _ (List.mem_append_right _ (List.mem_append_right _ (hswept ▸ sweep.caller_mem_exchanges)))
    have hmakes := hP h
    cases result with
    | error error' =>
      cases hresult
      obtain ⟨step, made, cleanup, rfl, hcut, hcleanup⟩ := hmakes
      have hwhole : Cut (plan.stages suspended (.idle caller)) step error
          (plan.ahead.map Stage.exchange ++ ((suspended.stages .suspend).map Stage.exchange ++ made)) :=
        Cut.append_left (Cut.append_left (Cut.append_right hcut))
      have hgoes := Goes.stopped suspended (.idle caller) hsuspended rfl hgo hwhole hcleanup (.paused hcut.step_mem resumed hresumed)
      simpa [Sweep.map_stages] using hgoes
    | ok =>
      cases resumed with
      | ok => cases hresult
      | error code =>
        cases hresult
        cases hmakes
        have hwhole : Cut (plan.stages suspended (.idle caller)) .resumeThreads (.ofKernel .resumeThreads code)
            (plan.ahead.map Stage.exchange ++ ((suspended.stages .suspend).map Stage.exchange ++
              (plan.change.map Stage.exchange ++ [⟨.threads, .error code⟩]))) :=
          Cut.append_left (Cut.append_left (Cut.append_left (Cut.append_right (.here (.refused rfl rfl)))))
        rw [Sweep.map_stages] at hwhole
        exact .of_cut suspended (.idle caller) hsuspended rfl hgo hwhole (Or.inl (by simp))

/-- A bracket that succeeds, between the calls ahead of it and those behind it. -/
theorem goes_of_made {result : Except Error Unit} (h : Paused .other strict P (.ok ()) es)
    (hP : ∀ {result es}, P result es → plan.Makes result es) (hrest : Walks plan.behind () result rest)
    (hcaller : ∀ thread, ⟨.currentThread, thread⟩ ∈ es → thread = caller) :
    plan.Goes caller strict (errorOf? result) (plan.ahead.map Stage.exchange ++ (es ++ rest)) := by
  generalize hpaused : (.ok () : Except Error Unit) = paused at h
  cases h with
  | outside | unlisted => cases hpaused
  | calledOff suspended hstrict hrefused resumed => cases resumed <;> cases hpaused
  | @around paused es' suspended hgo h resumed =>
    cases paused with
    | error => cases hpaused
    | ok =>
      cases resumed with
      | error => cases hpaused
      | ok resumed =>
        have hmakes := hP h
        cases hmakes
        have hsuspended : suspended.caller = caller := hcaller _ (List.mem_append_left _ suspended.caller_mem_exchanges)
        have hresumed : resumed.caller = caller :=
          hcaller _ (List.mem_append_right _ (List.mem_append_right _ resumed.caller_mem_exchanges))
        have hstages : (plan.ahead ++ (suspended.stages .suspend ++ (plan.change ++ resumed.stages .resume))).map Stage.exchange =
            plan.ahead.map Stage.exchange ++ (suspended.exchanges .suspend ++
              (plan.change.map Stage.exchange ++ sweepExchanges .resume (.ok resumed))) := by
          simp [Sweep.map_stages, sweepExchanges]
        rw [← List.append_assoc, ← hstages]
        have hplan : plan.stages suspended resumed =
            (plan.ahead ++ (suspended.stages .suspend ++ (plan.change ++ resumed.stages .resume))) ++ plan.behind := by
          simp [Plan.stages]
        cases result with
        | ok =>
          rw [hrest.2, ← List.map_append, ← hplan]
          exact .through suspended resumed hsuspended hresumed hgo
        | error error =>
          obtain ⟨step, hcut⟩ := hrest
          refine .of_cut suspended resumed hsuspended hresumed hgo ?_ (Or.inr hcut.step_mem)
          rw [hplan]
          exact hcut.append_left

end

/-! ## The plans of a preparation and of a patch -/

/-- The plan of a preparation: locate the image and build the shadow image at some address; replace the code; and flush it. -/
def preparation (layout : Layout) (base shadow : Address) : Plan where
  ahead := layout.locating base ++ layout.shadowing shadow
  change := [
    ⟨some .unmapCode, ⟨.deallocate layout.code.base layout.code.size, .ok ()⟩⟩,
    ⟨some .remapCode, ⟨.allocate (.fixed layout.code.base) layout.code.size, .ok layout.code.base⟩⟩,
    ⟨some .unlockCode, ⟨.protect layout.code.base layout.code.size .readWrite, .ok ()⟩⟩,
    ⟨some .restoreCode, ⟨.copy shadow layout.code.size layout.code.base, .ok ()⟩⟩,
    ⟨some .sealCode, ⟨.protect layout.code.base layout.code.size .readExecute, .ok ()⟩⟩]
  behind := [⟨none, ⟨.flush layout.code.base layout.code.size, ()⟩⟩]
  owed := layout.discarding shadow
  own := by
    intro step hstep
    simp only [List.map_cons, List.map_nil, List.mem_cons, Option.some.injEq, List.not_mem_nil, or_false] at hstep
    rcases hstep with rfl | rfl | rfl | rfl | rfl <;> simp [Layout.locating, Layout.shadowing]
  settled := by
    rintro step (hstep | hstep)
    · simp only [List.mem_cons, List.not_mem_nil, or_false] at hstep
      rcases hstep with rfl | rfl <;> rfl
    · simp at hstep

/-- The plan of a patch: open the pages, write, and close them again; flush, and read back if the image is to. Pages that were
opened are closed also if the write failed. -/
def overwriting (image : Image) (target : Address) (bytes : Bytes) (span : PageSpan) : Plan where
  ahead := []
  change := [
    ⟨some .unlockTarget, ⟨.protect span.start span.size .readWrite, .ok ()⟩⟩,
    ⟨some .writeTarget, ⟨.write target bytes, .ok ()⟩⟩,
    ⟨some .sealTarget, ⟨.protect span.start span.size .readExecute, .ok ()⟩⟩]
  behind := ⟨none, ⟨.flush target bytes.size, ()⟩⟩ ::
    if image.config.verifyWrites then [⟨some .verifyTarget, ⟨.read target bytes.size, .ok bytes⟩⟩] else []
  owed step := if step = .writeTarget then [.protect span.start span.size .readExecute] else []
  own := by
    intro step hstep
    simp only [List.map_cons, List.map_nil, List.mem_cons, Option.some.injEq, List.not_mem_nil, or_false] at hstep
    rcases hstep with rfl | rfl | rfl <;> split <;> simp
  settled := by
    rintro step (hstep | hstep)
    · simp only [List.mem_cons, List.not_mem_nil, or_false] at hstep
      rcases hstep with rfl | rfl <;> rfl
    · split at hstep
      · simp only [List.map_cons, List.map_nil, List.mem_cons, reduceCtorEq, Option.some.injEq, List.not_mem_nil, or_false,
          false_or] at hstep
        rw [hstep]
        rfl
      · simp at hstep

end Plan

theorem ReplacesCode.makes {layout : Layout} {base shadow : Address} {result : Except Error Unit} {es : List Exchange}
    (h : ReplacesCode layout.code shadow result es) : (Plan.preparation layout base shadow).Makes result es := by
  cases h with
  | kept => exact ⟨.unmapCode, _, [], (List.append_nil _).symm, .here (.refused rfl rfl), rfl⟩
  | unmapped => exact ⟨.remapCode, _, [], (List.append_nil _).symm, .later (.here (.refused rfl rfl)), rfl⟩
  | relocated hne => exact ⟨.remapCode, _, [], (List.append_nil _).symm, .later (.here (.relocated hne)), rfl⟩
  | locked => exact ⟨.unlockCode, _, [], (List.append_nil _).symm, .later (.later (.here (.refused rfl rfl))), rfl⟩
  | unfilled => exact ⟨.restoreCode, _, [], (List.append_nil _).symm, .later (.later (.later (.here (.refused rfl rfl)))), rfl⟩
  | unsealed =>
    exact ⟨.sealCode, _, [], (List.append_nil _).symm, .later (.later (.later (.later (.here (.refused rfl rfl))))), rfl⟩
  | filled => rfl

theorem WritesCode.makes {image : Image} {target : Address} {bytes : Bytes} {span : PageSpan} {result : Except Error Unit}
    {es : List Exchange} (h : WritesCode target bytes span result es) :
    (Plan.overwriting image target bytes span).Makes result es := by
  cases h with
  | locked => exact ⟨.unlockTarget, _, [], (List.append_nil _).symm, .here (.refused rfl rfl), rfl⟩
  | unwritten code closed =>
    exact ⟨.writeTarget, [⟨.protect span.start span.size .readWrite, .ok ()⟩, ⟨.write target bytes, .error code⟩],
      [⟨.protect span.start span.size .readExecute, closed⟩], rfl, .later (.here (.refused rfl rfl)), rfl⟩
  | unsealed => exact ⟨.sealTarget, _, [], (List.append_nil _).symm, .later (.later (.here (.refused rfl rfl))), rfl⟩
  | written => rfl

/-- A look goes as it is planned, if there is one. -/
theorem Image.Verifies.walks {image : Image} {target : Address} {bytes : Bytes} {error? : Option Error} {es : List Exchange}
    (span : PageSpan) (h : image.Verifies target bytes error? es) : ∃ result : Except Error Unit, errorOf? result = error? ∧
      Walks (Plan.overwriting image target bytes span).behind () result (⟨.flush target bytes.size, ()⟩ :: es) := by
  cases h with
  | skipped hconfig => exact ⟨.ok (), rfl, rfl, by simp [Plan.overwriting, hconfig]⟩
  | verified hconfig => exact ⟨.ok (), rfl, rfl, by simp [Plan.overwriting, hconfig]⟩
  | unread hconfig code =>
    refine ⟨.error _, rfl, .verifyTarget, .later ?_⟩
    rw [hconfig]
    exact .here (.refused rfl rfl)
  | spoilt hconfig hne =>
    refine ⟨.error _, rfl, .verifyTarget, .later ?_⟩
    rw [hconfig]
    exact .here (.spoilt hne)

section

variable {caller : Thread} {error? : Option Error} {es : List Exchange}

/-- A preparation of another image goes as planned. -/
theorem Config.Prepares.goes {config : Config} {base : Address} (h : config.Prepares .other base error? es)
    (hcaller : ∀ thread, ⟨.currentThread, thread⟩ ∈ es → thread = caller) :
    ∃ layout shadow, layout.Joined ∧ (Plan.preparation layout base shadow).Goes caller config.strictThreads error? es := by
  cases h with
  | again hhost => exact absurd rfl hhost
  | @surveyed error es h =>
    cases h with
    | outside _ hhost => exact absurd rfl hhost
    | @unlocated layout step _ _ hjoined hcut =>
      have hnothing : layout.discarding 0 step = [] := by
        have hstep := hcut.step_mem
        simp only [Layout.locating, List.map_cons, List.map_nil, List.mem_cons, Option.some.injEq, List.not_mem_nil,
          or_false] at hstep
        rcases hstep with rfl | rfl | rfl <;> rfl
      have hgoes : (Plan.preparation layout base 0).Goes caller config.strictThreads (some error) (es ++ []) :=
        .of_cut_ahead hcut.append_right hnothing.symm
      exact ⟨layout, 0, hjoined, List.append_nil es ▸ hgoes⟩
    | @unbuilt layout shadow step error es cleanup hjoined hcut hcleanup =>
      refine ⟨layout, shadow, hjoined, ?_⟩
      rw [← List.append_assoc]
      exact .of_cut_ahead hcut.append_left hcleanup
  | stopped hsurvey h =>
    cases hsurvey with
    | @built layout hjoined shadow =>
      refine ⟨layout, shadow, hjoined, ?_⟩
      rw [← List.map_append] at hcaller ⊢
      exact Plan.goes_of_stopped h ReplacesCode.makes fun thread hmem => hcaller thread (List.mem_append_right _ hmem)
  | prepared hsurvey h =>
    cases hsurvey with
    | @built layout hjoined shadow =>
      refine ⟨layout, shadow, hjoined, ?_⟩
      rw [← List.map_append] at hcaller ⊢
      exact @Plan.goes_of_made (Plan.preparation layout base shadow) _ _ _ _ _ (.ok ()) h ReplacesCode.makes ⟨rfl, rfl⟩
        fun thread hmem => hcaller thread (List.mem_append_right _ (List.mem_append_left _ hmem))

/-- So does a patch inside the code of another image. -/
theorem Image.Edits.goes {image : Image} {target : Address} {bytes : Bytes} {span : PageSpan}
    (h : image.Edits .other target bytes span error? es)
    (hcaller : ∀ thread, ⟨.currentThread, thread⟩ ∈ es → thread = caller) :
    (Plan.overwriting image target bytes span).Goes caller image.config.strictThreads error? es := by
  cases h with
  | stopped h => exact Plan.goes_of_stopped h WritesCode.makes hcaller
  | written h hverifies =>
    obtain ⟨result, rfl, hwalks⟩ := hverifies.walks span
    exact Plan.goes_of_made h WritesCode.makes hwalks fun thread hmem => hcaller thread (List.mem_append_left _ hmem)

end

/-! ## Runs -/

/-- What a run does to a test bed: it makes calls as the plan says, and those are what the record of the test bed grows by. -/
structure Plan.Made (plan : Plan) (strict : Bool) (error? : Option Error) (es : List Exchange) (bed bed' : Testbed) : Prop where
  goes : plan.Goes bed.machine.caller strict error? es
  recorded : bed'.machine.calls = bed.machine.calls ++ (es.filterMap fun e => Call.ofRequest? e.request).toArray

/-- A prepared image keeps clear of the end of the address space, and so does the memory that it is in. -/
theorem Image.bounded_of_prepare {attempted : Bool} {imageBase : Address} {pageSize : Nat} {config : Config}
    {world after : World Testbed} {host : Host} {image : Image} (hwf : world.kernel.machine.space.WellFormed)
    (hs : world.kernel.machine.space.Addressable) (hpageSize : pageSize.isPowerOfTwo)
    (hrun : (Image.prepare host attempted imageBase pageSize config).run world = (.done image, after)) :
    image.Bounded ∧ after.kernel.machine.space.Addressable := by
  have hwp : (Image.prepare host attempted imageBase pageSize config).wp
      (fun image bed => image.Bounded ∧ bed.machine.space.Addressable) (fun _ _ => True) (fun _ => True) world.kernel := by
    refine Testbed.wp_prepare (fun _ => trivial) (Testbed.wp_establish hwf hs
      (fun layout code constants data x bed' _ hl hmaps hx hspace => ?_) (fun _ _ _ _ _ _ => trivial)
      (fun _ _ _ _ _ _ => trivial) (fun _ _ _ _ _ _ _ _ => trivial) fun _ _ => trivial)
    have hbehind := hx.behind code hmaps.code_mem
    have hroom := hx.room
    have hsize := hx.code_size_le
    refine ⟨⟨?_, rfl, ?_, hpageSize⟩, hspace ▸ (hx.prepared hwf hs hmaps.code_mem).2⟩
    · simp only [hmaps.code_base, hmaps.code_size, Mapping.stop] at *
      lia
    · simp only [hmaps.code_size, Mapping.stop] at *
      lia
  exact Program.wp_run_done hwp hrun

/-- A preparation of another image returns and makes its calls as planned, whatever is ordered to fail, to refuse or to be diverted,
if there is room for what it maps. So does, through the image that it gives, however that was used since, every patch of a range in
the code. -/
theorem Image.prepare_goes_as_planned {attempted : Bool} {imageBase : Address} {pageSize : Nat} {config : Config}
    {world after : World Testbed} {outcome : Outcome Error Image} (hwf : world.kernel.machine.space.WellFormed)
    (hs : world.kernel.machine.space.Addressable) (hfits : world.kernel.Fits (config.imageBase.getD imageBase))
    (hpageSize : pageSize.isPowerOfTwo)
    (hrun : (Image.prepare .other attempted imageBase pageSize config).run world = (outcome, after)) :
    (outcome ≠ .crashed ∧ ∃ layout shadow, layout.Joined ∧
      (Plan.preparation layout (config.imageBase.getD imageBase) shadow).Made config.strictThreads outcome.error?
        ((Image.prepare .other attempted imageBase pageSize config).exchanges world.kernel) world.kernel after.kernel) ∧
    ∀ image, outcome = .done image → ∀ world', image.Uses .other after world' → ∀ target bytes, 0 < bytes.size →
      image.code.containsRange target bytes.size = some true → ∀ outcome' after',
      (image.patch .other target bytes).run world' = (outcome', after') →
      outcome' ≠ .crashed ∧ ∃ span, PageSpan.covering target bytes.size image.pageSize = some span ∧
        (Plan.overwriting image target bytes span).Made image.config.strictThreads outcome'.error?
          ((image.patch .other target bytes).exchanges world'.kernel) world'.kernel after'.kernel := by
  refine ⟨?_, ?_⟩
  · have hreturns := Program.ne_crashed_of_wp (Testbed.wp_prepare_returns hwf hs hfits) hrun
    have hserved := Program.served_run hrun hreturns
    obtain ⟨layout, shadow, hjoined, hgoes⟩ := (yields_prepare.of_run_error? hrun hreturns).goes fun thread hmem =>
      Testbed.caller_served hserved hmem
    exact ⟨hreturns, layout, shadow, hjoined, hgoes, Testbed.calls_served hserved⟩
  · rintro image rfl world' huses target bytes hpos hin outcome' after' hpatch
    obtain ⟨hbounded, haddressable⟩ := Image.bounded_of_prepare hwf hs hpageSize hrun
    obtain ⟨code, constants, data, shadow, hestablished⟩ := Image.prepare_establishes hwf hs hrun
    have hvaries := huses.variesIn (hestablished.variesIn hs)
    have hreturns := Program.ne_crashed_of_wp
      (Testbed.wp_patch_returns hvaries.wellFormed (hvaries.addressable haddressable) hbounded) hpatch
    have hserved := Program.served_run hpatch hreturns
    obtain ⟨span, hspan, hedits⟩ := Program.Yields.of_run_error? (P := fun error? es => ∃ span,
      PageSpan.covering target bytes.size image.pageSize = some span ∧ image.Edits .other target bytes span error? es)
      (yields_patch_inside hin hpos) hpatch hreturns
    exact ⟨hreturns, span, hspan, hedits.goes fun thread hmem => Testbed.caller_served hserved hmem,
      Testbed.calls_served hserved⟩

/-- The small process is prepared as planned, and then a patch of its first byte goes as planned whatever single failure is
ordered. -/
theorem Image.prepare_goes_as_planned_threePages : ∃ start : World Testbed,
    (Image.prepare .other false Space.imageBase pageBytes {}).run { kernel := .threePages } =
        (.done (Image.threePages {}), start) ∧
      (∃ layout shadow, layout.Joined ∧ (Plan.preparation layout Space.imageBase shadow).Made false none
        ((Image.prepare .other false Space.imageBase pageBytes {}).exchanges Testbed.threePages) .threePages start.kernel) ∧
      ∀ injection, ∃ (outcome : Outcome Error Unit) (after : World Testbed),
        ((Image.threePages {}).patch .other Space.imageBase #[0xcc]).run (.preparedPages injection) = (outcome, after) ∧
          outcome ≠ .crashed ∧ ∃ span, PageSpan.covering Space.imageBase 1 pageBytes = some span ∧
            (Plan.overwriting (.threePages {}) Space.imageBase #[0xcc] span).Made false outcome.error?
              (((Image.threePages {}).patch .other Space.imageBase #[0xcc]).exchanges (World.preparedPages injection).kernel)
              (World.preparedPages injection).kernel after.kernel := by
  obtain ⟨start, hprepared, hspace⟩ := @Testbed.prepare_threePages {} rfl rfl
  have hfits := (Testbed.unhindered_threePages {} rfl).fits Space.wellFormed_threePages Space.addressable_threePages
  have h := Image.prepare_goes_as_planned Space.wellFormed_threePages Space.addressable_threePages hfits ⟨12, by decide⟩ hprepared
  refine ⟨start, hprepared, h.1.2, fun injection => ?_⟩
  rcases hrun : ((Image.threePages {}).patch .other Space.imageBase #[0xcc]).run (.preparedPages injection) with ⟨outcome, after⟩
  have hpatch := h.2 _ rfl _ (.changed .unused hspace.symm) Space.imageBase #[0xcc] (by decide) (by decide) outcome after hrun
  exact ⟨outcome, after, rfl, hpatch⟩

end LivePatch
