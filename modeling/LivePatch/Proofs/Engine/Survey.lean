import LivePatch.Proofs.Engine.Conduct
import LivePatch.Proofs.Engine.Requests
import LivePatch.Proofs.Engine.Stage

/-!
# How preparations go

Before it recreates the code, a preparation makes a survey: it locates the image and builds the shadow image. Until then it asks
for no write, no flush and no memory at a fixed place, on every kernel. The code is recreated in a bracket, and flushed if that
succeeds.
-/

namespace LivePatch

/-! ## Replacing the code -/

/-- How the replacement of a code region goes: it fails at one of its steps, or all is done. -/
inductive ReplacesCode (code : Region) (shadowBase : Address) : Except Error Unit → List Exchange → Prop where
  | kept (cause : KernelCode) : ReplacesCode code shadowBase (.error (.ofKernel .unmapCode cause))
      [⟨.deallocate code.base code.size, .error cause⟩]
  | unmapped (cause : KernelCode) : ReplacesCode code shadowBase (.error (.ofKernel .remapCode cause))
      [⟨.deallocate code.base code.size, .ok ()⟩, ⟨.allocate (.fixed code.base) code.size, .error cause⟩]
  | relocated {actual : Address} (hne : actual ≠ code.base) : ReplacesCode code shadowBase (.error (.relocated code.base actual))
      [⟨.deallocate code.base code.size, .ok ()⟩, ⟨.allocate (.fixed code.base) code.size, .ok actual⟩]
  | locked (cause : KernelCode) : ReplacesCode code shadowBase (.error (.ofKernel .unlockCode cause))
      [⟨.deallocate code.base code.size, .ok ()⟩, ⟨.allocate (.fixed code.base) code.size, .ok code.base⟩,
        ⟨.protect code.base code.size .readWrite, .error cause⟩]
  | unfilled (cause : KernelCode) : ReplacesCode code shadowBase (.error (.ofKernel .restoreCode cause))
      [⟨.deallocate code.base code.size, .ok ()⟩, ⟨.allocate (.fixed code.base) code.size, .ok code.base⟩,
        ⟨.protect code.base code.size .readWrite, .ok ()⟩, ⟨.copy shadowBase code.size code.base, .error cause⟩]
  | unsealed (cause : KernelCode) : ReplacesCode code shadowBase (.error (.ofKernel .sealCode cause))
      [⟨.deallocate code.base code.size, .ok ()⟩, ⟨.allocate (.fixed code.base) code.size, .ok code.base⟩,
        ⟨.protect code.base code.size .readWrite, .ok ()⟩, ⟨.copy shadowBase code.size code.base, .ok ()⟩,
        ⟨.protect code.base code.size .readExecute, .error cause⟩]
  | filled : ReplacesCode code shadowBase (.ok ())
      [⟨.deallocate code.base code.size, .ok ()⟩, ⟨.allocate (.fixed code.base) code.size, .ok code.base⟩,
        ⟨.protect code.base code.size .readWrite, .ok ()⟩, ⟨.copy shadowBase code.size code.base, .ok ()⟩,
        ⟨.protect code.base code.size .readExecute, .ok ()⟩]

theorem yields_replaceCode (code : Region) (shadowBase : Address) :
    (replaceCode code shadowBase).Yields (ReplacesCode code shadowBase) := by
  rintro (cause | ⟨⟩)
  · exact .kept cause
  · rintro (cause | actual)
    · exact .unmapped cause
    · change Program.Yields (if actual ≠ code.base then _ else _) _
      split
      · rename_i hactual
        exact .relocated hactual
      · rename_i hactual
        cases Classical.not_not.1 hactual
        rintro (cause | ⟨⟩)
        · exact .locked cause
        · rintro (cause | ⟨⟩)
          · exact .unfilled cause
          · rintro (cause | ⟨⟩)
            · exact .unsealed cause
            · exact .filled

/-! ## The stages of a survey -/

namespace Layout

/-- The regions lie back to back. -/
structure Joined (layout : Layout) : Prop where
  constants_base : layout.constants.base = layout.code.base + layout.code.size
  data_base : layout.data.base = layout.constants.base + layout.constants.size

/-- The length of the three regions together, as a number. -/
def extent (layout : Layout) : Nat := layout.code.size + layout.constants.size + layout.data.size

/-- The calls that find the regions, the code from `base` on. -/
def locating (layout : Layout) (base : Address) : List Stage := [
  ⟨some .queryCode, ⟨.region base, .ok layout.code⟩⟩,
  ⟨some .queryConstants, ⟨.region layout.constants.base, .ok layout.constants⟩⟩,
  ⟨some .queryData, ⟨.region layout.data.base, .ok layout.data⟩⟩]

/-- The calls that build the shadow image at the address `shadow`. -/
def shadowing (layout : Layout) (shadow : Address) : List Stage := [
  ⟨some .allocateShadow, ⟨.allocate .anywhere layout.extent, .ok shadow⟩⟩,
  ⟨some .unlockShadow, ⟨.protect shadow layout.extent .readWrite, .ok ()⟩⟩,
  ⟨some .copyCode, ⟨.copy layout.code.base layout.code.size shadow, .ok ()⟩⟩,
  ⟨some .copyConstants, ⟨.copy layout.constants.base layout.constants.size (shadow + layout.code.size), .ok ()⟩⟩,
  ⟨some .copyData,
    ⟨.copy layout.data.base layout.data.size (shadow + (layout.code.size + layout.constants.size)), .ok ()⟩⟩,
  ⟨some .sealShadow, ⟨.protect shadow layout.extent .readExecute, .ok ()⟩⟩]

/-- What has to be undone after a failure at a step: a shadow image that was mapped and is not complete is unmapped. -/
def discarding (layout : Layout) (shadow : Address) (step : Step) : List Request :=
  if step ∈ [.unlockShadow, .copyCode, .copyConstants, .copyData, .sealShadow] then [.deallocate shadow layout.extent] else []

/-- Whatever step fails behind the first one, what was mapped is unmapped. -/
theorem discarding_of_cut {layout : Layout} {shadow : Address} {step : Step} {error : Error} {es : List Exchange}
    (hcut : Cut (layout.shadowing shadow).tail step error es) :
    layout.discarding shadow step = [.deallocate shadow layout.extent] := by
  have hmem := hcut.step_mem
  rw [discarding, if_pos (by simpa [shadowing] using hmem)]

end Layout

/-- How a survey from `base` on goes: the layout is not found, or not as it has to be; a routine of the image lies outside of its
code; the shadow image cannot be built, and what there is of it is discarded; or it is built. -/
inductive Surveys (host : Host) (base : Address) : Except Error Shadow → List Exchange → Prop where
  | unlocated {layout : Layout} {step : Step} {error : Error} {es : List Exchange} (hjoined : layout.Joined)
      (hcut : Cut (layout.locating base) step error es) : Surveys host base (.error error) es
  | outside {layout : Layout} (hjoined : layout.Joined) (hhost : host ≠ .other) (address : Address) :
      Surveys host base (.error (.routineOutsideImage address)) ((layout.locating base).map Stage.exchange)
  | unbuilt {layout : Layout} {shadow : Address} {step : Step} {error : Error} {es cleanup : List Exchange}
      (hjoined : layout.Joined) (hcut : Cut (layout.shadowing shadow) step error es)
      (hcleanup : cleanup.map Exchange.request = layout.discarding shadow step) :
      Surveys host base (.error error) ((layout.locating base).map Stage.exchange ++ (es ++ cleanup))
  | built {layout : Layout} (hjoined : layout.Joined) (shadow : Address) :
      Surveys host base (.ok ⟨shadow, layout.extent, layout.code⟩)
        ((layout.locating base).map Stage.exchange ++ (layout.shadowing shadow).map Stage.exchange)

/-! ## The program of a survey -/

/-- An empty region where another one ends. -/
def Region.behind (region : Region) : Region := ⟨region.base + region.size, 0, .noAccess⟩

theorem Region.limit_eq {region : Region} {limit : Address} (h : region.limit = some limit) :
    limit = region.base + region.size := (Word.add_eq_some_iff.1 h).1.symm

section

open Program (request yields_bind yields_require yields_during yields_request)

variable {host : Host} {base : Address}

theorem yields_queryAt {expected : Address} {part : Part} {step : Step} {P : Except Error Region → List Exchange → Prop}
    (hrefused : ∀ code, P (.error (.ofKernel step code)) [⟨.region expected, .error code⟩])
    (hmisplaced : ∀ found, found.base ≠ expected →
      P (.error (.layoutViolated part expected found.base)) [⟨.region expected, .ok found⟩])
    (hfound : ∀ found, found.base = expected → P (.ok found) [⟨.region expected, .ok found⟩]) :
    (queryAt expected part step).Yields P := by
  rw [queryAt, yields_bind, yields_during, yields_request]
  rintro (code | region)
  · exact hrefused code
  · dsimp only
    split
    · rename_i hbase
      exact hfound region hbase
    · rename_i hne
      exact hmisplaced region hne

theorem yields_noteParts {parts : List PlacedRegion} {P : Except Error Unit → List Exchange → Prop} (h : P (.ok ()) []) :
    (noteParts parts).Yields P := by
  induction parts with
  | nil => exact h
  | cons placed rest ih =>
    rw [noteParts, yields_bind, yields_require]
    exact fun _ _ => ih

/-- The two regions behind the code are found, back to back. -/
theorem yields_locateBehind (base : Address) (code : Region) :
    (locateBehind code).Yields fun result es => ∃ layout : Layout, layout.code = code ∧ layout.Joined ∧
      Walks (layout.locating base).tail layout result es := by
  rw [locateBehind, yields_bind, yields_require]
  intro constantsBase hconstantsBase
  cases Region.limit_eq hconstantsBase
  dsimp only
  rw [yields_bind]
  refine yields_queryAt (fun cause => ?_) (fun found hne => ?_) fun constants hconstants => ?_
  · exact ⟨⟨code, code.behind, code.behind.behind⟩, rfl, ⟨rfl, rfl⟩, _, .here (.refused rfl rfl)⟩
  · exact ⟨⟨code, code.behind, code.behind.behind⟩, rfl, ⟨rfl, rfl⟩, .queryConstants,
      .here (@Stops.misplaced .constants _ found _ nofun hne)⟩
  · dsimp only
    rw [yields_bind, yields_require]
    intro dataBase hdataBase
    cases Region.limit_eq hdataBase
    dsimp only
    rw [yields_bind, ← hconstants]
    refine yields_queryAt (fun cause => ?_) (fun found hne => ?_) fun data hdata => ?_
    · exact ⟨⟨code, constants, constants.behind⟩, rfl, ⟨hconstants, rfl⟩, _, .later (.here (.refused rfl rfl))⟩
    · exact ⟨⟨code, constants, constants.behind⟩, rfl, ⟨hconstants, rfl⟩, .queryData,
        .later (.here (@Stops.misplaced .data _ found _ nofun hne))⟩
    · dsimp only
      rw [yields_bind, yields_require]
      intro parts _
      dsimp only
      rw [yields_bind, ← hdata]
      exact yields_noteParts ⟨⟨code, constants, data⟩, rfl, ⟨hconstants, hdata⟩, rfl, rfl⟩

/-- Locating finds three regions that lie back to back. -/
theorem yields_locate : (locate base).Yields fun result es => ∃ layout : Layout, layout.Joined ∧
    Walks (layout.locating base) layout result es := by
  rw [locate, yields_bind, yields_during, yields_request]
  rintro (cause | code)
  · let code : Region := ⟨base, 0, .noAccess⟩
    exact ⟨⟨code, code.behind, code.behind.behind⟩, ⟨rfl, rfl⟩, _, .here (.refused rfl rfl)⟩
  · have hbehind : (locateBehind code).Yields fun result es => ∃ layout : Layout, layout.Joined ∧
        Walks (layout.locating base) layout result (⟨.region base, .ok code⟩ :: es) := by
      refine (yields_locateBehind base code).mono fun result es h => ?_
      obtain ⟨layout, rfl, hjoined, hwalks⟩ := h
      exact ⟨layout, hjoined, hwalks.cons⟩
    dsimp only
    split
    · exact hbehind
    · exact hbehind

/-- The calls that copy regions to their offsets from an address. -/
def copying (shadow : Address) (parts : List PlacedRegion) : List Stage :=
  parts.map fun placed =>
    ⟨some placed.part.copyStep, ⟨.copy placed.region.base placed.region.size (shadow + placed.offset), .ok ()⟩⟩

theorem walks_copyParts (shadow : Address) (parts : List PlacedRegion) :
    (copyParts shadow parts).Yields (Walks (copying shadow parts) ()) := by
  induction parts with
  | nil => exact ⟨rfl, rfl⟩
  | cons placed rest ih =>
    rw [copyParts, yields_bind, yields_require]
    intro destination hdestination
    obtain ⟨rfl, -⟩ := Word.add_eq_some_iff.1 hdestination
    exact walks_bind walks_copy ih

theorem Layout.size_eq_some {layout : Layout} {size : Nat} (h : layout.size = some size) : size = layout.extent := by
  obtain ⟨offset, hoffset, hsize⟩ := Option.bind_eq_some_iff.1 h
  obtain ⟨rfl, -⟩ := Word.add_eq_some_iff.1 hoffset
  exact (Word.add_eq_some_iff.1 hsize).1.symm

/-- Filling a shadow image goes as it is planned. -/
theorem walks_fillShadow (layout : Layout) (shadow : Address) :
    (fillShadow layout shadow layout.extent).Yields (Walks (layout.shadowing shadow).tail ()) := by
  refine walks_bind walks_protect ?_
  rw [yields_bind, yields_require]
  intro parts hparts
  obtain ⟨offset, hoffset, rfl⟩ := Option.map_eq_some_iff.1 hparts
  obtain ⟨rfl, -⟩ := Word.add_eq_some_iff.1 hoffset
  exact walks_bind (walks_copyParts shadow _) walks_protect

/-- A shadow image is built, or what there is of it is discarded. -/
theorem yields_buildShadow (layout : Layout) : (buildShadow layout).Yields fun result es => ∃ shadow, match result with
    | .ok built => built = ⟨shadow, layout.extent, layout.code⟩ ∧ es = (layout.shadowing shadow).map Stage.exchange
    | .error error => ∃ step made cleanup, es = made ++ cleanup ∧ Cut (layout.shadowing shadow) step error made ∧
        cleanup.map Exchange.request = layout.discarding shadow step := by
  rw [buildShadow, yields_bind, yields_require]
  intro size hsize
  cases Layout.size_eq_some hsize
  dsimp only
  rw [yields_bind, yields_during, yields_request]
  rintro (cause | shadow)
  · exact ⟨0, _, [⟨.allocate .anywhere layout.extent, .error cause⟩], [], rfl, .here (.refused rfl rfl), rfl⟩
  · dsimp only
    rw [yields_bind, Program.yields_attempt]
    refine (walks_fillShadow layout shadow).mono fun result es h => ?_
    cases result with
    | error error =>
      obtain ⟨step, hcut⟩ := h
      have hstep := Layout.discarding_of_cut hcut
      have hunbuilt : ∀ reply, ∃ step made cleanup,
          ⟨.allocate .anywhere layout.extent, .ok shadow⟩ :: (es ++ [⟨.deallocate shadow layout.extent, reply⟩]) =
              made ++ cleanup ∧ Cut (layout.shadowing shadow) step error made ∧
            cleanup.map Exchange.request = layout.discarding shadow step :=
        fun reply => ⟨step, _ :: es, [_], rfl, hcut.later, hstep.symm⟩
      rintro (cause | ⟨⟩)
      · exact ⟨shadow, hunbuilt _⟩
      · exact ⟨shadow, hunbuilt _⟩
    | ok =>
      obtain ⟨-, rfl⟩ := h
      dsimp only
      rw [yields_bind, yields_require]
      exact fun _ _ => ⟨shadow, rfl, by simp [Layout.shadowing]⟩

/-- A routine of the image that lies outside of its code ends the preparation. -/
theorem yields_checkInside {α : Type} {routine : Routine} {code : Region} {f : Unit → Engine α}
    {P : Except Error α → List Exchange → Prop}
    (houtside : host ≠ .other → ∀ address, P (.error (.routineOutsideImage address)) []) (hinside : (f ()).Yields P) :
    (Program.ofOutcome (routine.checkInside host code) >>= f).Yields P := by
  cases host with
  | other => exact hinside
  | own recreate overwrite =>
    unfold Routine.checkInside
    split
    · exact hinside
    · split
      · trivial
      · split
        · exact hinside
        · exact houtside nofun _

end

/-! ## Surveys as a whole -/

/-- The errors of a preparation that ends before the code is recreated. -/
def Error.BeforeRecreating : Error → Prop
  | .layoutViolated .. | .routineOutsideImage _ | .alreadyInitialized => True
  | .kernelFailed _ step _ => step ∈ [.queryCode, .queryConstants, .queryData, .allocateShadow, .unlockShadow, .copyCode,
      .copyConstants, .copyData, .sealShadow]
  | _ => False

namespace Layout

variable {layout : Layout} {base shadow : Address} {step : Step} {error : Error} {es : List Exchange}

theorem ofSurvey_of_locating : ∀ stage ∈ layout.locating base, stage.exchange.request.OfSurvey := by
  simp [locating, Request.OfSurvey]

theorem ofSurvey_of_shadowing : ∀ stage ∈ layout.shadowing shadow, stage.exchange.request.OfSurvey := by
  simp [shadowing, Request.OfSurvey]

theorem ofSurvey_of_discarding {cleanup : List Exchange} (h : cleanup.map Exchange.request = layout.discarding shadow step) :
    ∀ e ∈ cleanup, e.request.OfSurvey := by
  intro e he
  have hmem := List.mem_map_of_mem (f := Exchange.request) he
  rw [h, discarding] at hmem
  split at hmem
  · rw [List.mem_singleton.1 hmem]
    trivial
  · cases hmem

end Layout

/-- The calls of a part that was cut are as those that were planned. -/
theorem Cut.forall_request {P : Request → Prop} {stages : List Stage} {step : Step} {error : Error} {es : List Exchange}
    (h : Cut stages step error es) (hP : ∀ stage ∈ stages, P stage.exchange.request) : ∀ e ∈ es, P e.request := by
  intro e he
  obtain ⟨stage, hstage, hrequest⟩ := List.mem_map.1 (h.request_mem he)
  exact hrequest ▸ hP stage hstage

/-- Stages of steps from before the code is recreated are ended by errors from before that. -/
theorem Cut.beforeRecreating {stages : List Stage} {step : Step} {error : Error} {es : List Exchange}
    (h : Cut stages step error es)
    (hsteps : ∀ step, some step ∈ stages.map Stage.step? → ∀ code, (Error.ofKernel step code).BeforeRecreating) :
    error.BeforeRecreating := by
  have hstep := hsteps step h.step_mem
  obtain ⟨_, _, hstops⟩ := h.stops
  cases hstops with
  | refused => exact hstep _
  | misplaced => trivial
  | relocated | spoilt => exact absurd (hstep .failure) (by simp [Error.ofKernel, Error.BeforeRecreating])

namespace Surveys

variable {host : Host} {base : Address} {result : Except Error Shadow} {es : List Exchange}

theorem ofSurvey (h : Surveys host base result es) : ∀ e ∈ es, e.request.OfSurvey := by
  have hall : ∀ {stages : List Stage}, (∀ stage ∈ stages, stage.exchange.request.OfSurvey) →
      ∀ e ∈ stages.map Stage.exchange, e.request.OfSurvey := fun h => List.forall_mem_map.2 h
  cases h with
  | unlocated hjoined hcut => exact hcut.forall_request Layout.ofSurvey_of_locating
  | outside => exact hall Layout.ofSurvey_of_locating
  | unbuilt hjoined hcut hcleanup =>
    rw [List.forall_mem_append, List.forall_mem_append]
    exact ⟨hall Layout.ofSurvey_of_locating, hcut.forall_request Layout.ofSurvey_of_shadowing,
      Layout.ofSurvey_of_discarding hcleanup⟩
  | built =>
    rw [List.forall_mem_append]
    exact ⟨hall Layout.ofSurvey_of_locating, hall Layout.ofSurvey_of_shadowing⟩

theorem beforeRecreating {error : Error} (h : Surveys host base (.error error) es) : error.BeforeRecreating := by
  cases h with
  | unlocated hjoined hcut =>
    exact hcut.beforeRecreating (by simp [Layout.locating, Error.ofKernel, Error.BeforeRecreating])
  | outside => trivial
  | unbuilt hjoined hcut hcleanup =>
    exact hcut.beforeRecreating (by simp [Layout.shadowing, Error.ofKernel, Error.BeforeRecreating])

end Surveys

/-! ## Preparations -/

/-- How a preparation goes: it is one too many; it ends before the code is recreated; the bracket in which that is done fails; or it
succeeds, and a flush of the code follows. -/
inductive Config.Prepares (config : Config) (host : Host) (base : Address) : Option Error → List Exchange → Prop where
  | again (hhost : host ≠ .other) : Prepares config host base (some .alreadyInitialized) []
  | surveyed {error : Error} {es : List Exchange} (h : Surveys host base (.error error) es) :
      Prepares config host base (some error) es
  | stopped {shadow : Shadow} {error : Error} {survey es : List Exchange} (hsurvey : Surveys host base (.ok shadow) survey)
      (h : Paused host config.strictThreads (ReplacesCode shadow.code shadow.base) (.error error) es) :
      Prepares config host base (some error) (survey ++ es)
  | prepared {shadow : Shadow} {survey es : List Exchange} (hsurvey : Surveys host base (.ok shadow) survey)
      (h : Paused host config.strictThreads (ReplacesCode shadow.code shadow.base) (.ok ()) es) :
      Prepares config host base none (survey ++ (es ++ [⟨.flush shadow.code.base shadow.code.size, ()⟩]))

theorem yields_prepare {config : Config} {host : Host} {attempted : Bool} {imageBase : Address} {pageSize : Nat} :
    (Image.prepare host attempted imageBase pageSize config).Yields fun result es =>
      config.Prepares host (config.imageBase.getD imageBase) (errorOf? result) es := by
  unfold Image.prepare
  split
  · exact .again nofun
  · rw [Program.yields_reporting, Image.establish, Program.yields_bind]
    refine yields_locate.mono fun result es h => ?_
    obtain ⟨layout, hjoined, hwalks⟩ := h
    cases result with
    | error error =>
      obtain ⟨step, hcut⟩ := hwalks
      exact .surveyed (.unlocated hjoined hcut)
    | ok found =>
      obtain ⟨rfl, rfl⟩ := hwalks
      have houtside : host ≠ .other → ∀ address, config.Prepares host (config.imageBase.getD imageBase)
          (some (.routineOutsideImage address)) ((found.locating (config.imageBase.getD imageBase)).map Stage.exchange ++ []) :=
        fun hhost address => (List.append_nil _).symm ▸ .surveyed (.outside hjoined hhost address)
      refine yields_checkInside houtside (yields_checkInside houtside ?_)
      rw [Program.yields_bind]
      refine (yields_buildShadow found).mono fun result es h => ?_
      obtain ⟨shadow, h⟩ := h
      cases result with
      | error error =>
        obtain ⟨step, made, cleanup, rfl, hcut, hcleanup⟩ := h
        exact .surveyed (.unbuilt hjoined hcut hcleanup)
      | ok built =>
        obtain ⟨rfl, rfl⟩ := h
        have hbuilt := @Surveys.built host (config.imageBase.getD imageBase) found hjoined shadow
        dsimp only
        rw [recreateCode, Program.yields_bind]
        refine (yields_runRoutine (yields_replaceCode found.code shadow)).mono fun result es h => ?_
        rw [← List.append_assoc]
        cases result with
        | error error => exact .stopped hbuilt h
        | ok =>
          dsimp only
          rw [Program.yields_request_bind]
          rintro ⟨⟩
          rw [Program.yields_bind, Program.yields_require]
          rintro limit -
          have hprepared := Config.Prepares.prepared hbuilt h
          rw [List.append_assoc] at hprepared
          exact hprepared

/-- A survey that succeeds starts with a query that finds the code. -/
theorem Surveys.exists_cons {host : Host} {base : Address} {shadow : Shadow} {es : List Exchange}
    (h : Surveys host base (.ok shadow) es) : ∃ rest, es = ⟨.region base, .ok shadow.code⟩ :: rest := by
  cases h
  exact ⟨_, rfl⟩

/-- A preparation that succeeds got the place of the code that it had found, and asked for no other fixed place before. -/
theorem Config.Prepares.recreated {config : Config} {host : Host} {base : Address} {es : List Exchange}
    (h : config.Prepares host base none es) : ∃ (code : Region) (ahead behind : List Exchange),
      es = ⟨.region base, .ok code⟩ :: (ahead ++ ⟨.allocate (.fixed code.base) code.size, .ok code.base⟩ :: behind) ∧
        ∀ e ∈ ahead, ∀ address size, e.request ≠ .allocate (.fixed address) size := by
  cases h with
  | @prepared shadow survey es hsurvey h =>
    have hofSurvey := hsurvey.ofSurvey
    obtain ⟨rest, rfl⟩ := hsurvey.exists_cons
    cases h.bracketed with
    | @around _ es₁ _ es₂ h₁ hgo hreplaces h₂ =>
      cases hreplaces
      refine ⟨shadow.code, rest ++ (es₁ ++ [⟨.deallocate shadow.code.base shadow.code.size, .ok ()⟩]), _,
        by simp only [List.cons_append, List.append_assoc]; rfl, ?_⟩
      rw [List.forall_mem_cons] at hofSurvey
      rw [List.forall_mem_append, List.forall_mem_append, List.forall_mem_singleton]
      refine ⟨fun e he address size hrequest => ?_, fun e he address size hrequest => ?_, nofun⟩
      · have hrest := hofSurvey.2 e he
        rwa [hrequest] at hrest
      · have hsweep := h₁ e he
        rwa [hrequest] at hsweep

end LivePatch
