import LivePatch.Proofs.Engine.Survey

/-!
# Running from the shadow image

If the code that is changed is that of the engine itself, its routines run from their copies in the shadow image. The check of the
routines against the code that was found and their translation through the shadow image agree on every address: a routine that passes
the check has its copy at the same distance from the start of the shadow image. Then the engine does what it does to another image.
A routine that does not pass ends a preparation before anything is changed.
-/

namespace LivePatch

/-- The routines that have an address lie in the code. -/
def Host.LiesIn (host : Host) (code : Region) : Prop :=
  ∀ routine, ∀ address ∈ host.addressOf? routine, code.contains address = some true

/-- The routines that have an address run from their copies, which lie in the copy of the code. -/
def Shadow.Carries (shadow : Shadow) (host : Host) : Prop :=
  ∀ routine, ∀ address ∈ host.addressOf? routine,
    shadow.code.base ≤ address ∧ address - shadow.code.base < shadow.code.size ∧
      routine.entry host shadow = .done (some (shadow.base + (address - shadow.code.base)))

/-- The first routine that lies outside of the code, in the order in which they are checked, has this address. -/
inductive Host.FirstOutside (code : Region) : Host → Address → Prop where
  | recreate {recreate : Address} (overwrite : Address) (h : code.contains recreate ≠ some true) :
      FirstOutside code (.own recreate overwrite) recreate
  | overwrite {recreate overwrite : Address} (hinside : code.contains recreate = some true)
      (h : code.contains overwrite ≠ some true) : FirstOutside code (.own recreate overwrite) overwrite

section

variable {host : Host} {code : Region} {routine : Routine} {shadow : Shadow} {address limit : Address}

theorem Region.contains_eq_some_true_iff : code.contains address = some true ↔
    (code.base ≤ address ∧ address < code.base + code.size) ∧ code.base + code.size < Word.count := by
  rw [Region.contains, Option.map_eq_some_iff]
  constructor
  · rintro ⟨limit, hlimit, hin⟩
    obtain ⟨rfl, hlt⟩ := Word.add_eq_some_iff.1 hlimit
    exact ⟨of_decide_eq_true hin, hlt⟩
  · rintro ⟨hin, hlt⟩
    exact ⟨_, Word.add_eq_some_iff.2 ⟨rfl, hlt⟩, decide_eq_true hin⟩

/-- Routines that lie in the code pass the check. -/
theorem Host.LiesIn.checkInside_eq (h : host.LiesIn code) (routine : Routine) : routine.checkInside host code = .done () := by
  unfold Routine.checkInside
  split
  · rfl
  · rename_i address haddress
    rw [h routine address haddress]
    rfl

/-- Routines that pass the check lie in the code. -/
theorem Host.liesIn_of_checkInside (h : ∀ routine : Routine, routine.checkInside host code = .done ()) : host.LiesIn code := by
  intro routine address haddress
  have hcheck := h routine
  unfold Routine.checkInside at hcheck
  rw [Option.mem_def.1 haddress] at hcheck
  dsimp only at hcheck
  rcases hcontains : code.contains address with _ | inside
  · rw [hcontains] at hcheck
    cases hcheck
  · rw [hcontains] at hcheck
    cases inside with
    | true => rfl
    | false => cases hcheck

/-- A routine that does not lie in code that has a limit fails the check. -/
theorem Routine.checkInside_eq_failed (haddress : host.addressOf? routine = some address) (hlimit : code.limit = some limit)
    (h : code.contains address ≠ some true) : routine.checkInside host code = .failed (.routineOutsideImage address) := by
  unfold Routine.checkInside
  rw [haddress]
  unfold Region.contains at h ⊢
  rw [hlimit] at h ⊢
  exact if_neg (mt (congrArg some) h)

/-- What lies in the code of a shadow image has its copy at the same distance from the start of the shadow image. -/
theorem Shadow.toCopy_of_contains (h : shadow.code.contains address = some true)
    (hend : shadow.base + shadow.code.size < Word.count) :
    shadow.toCopy address = some (some (shadow.base + (address - shadow.code.base))) := by
  obtain ⟨⟨hbase, hlt⟩, -⟩ := Region.contains_eq_some_true_iff.1 h
  have hadd : Word.add (address - shadow.code.base) shadow.base = some (shadow.base + (address - shadow.code.base)) :=
    Word.add_eq_some_iff.2 ⟨Nat.add_comm _ _, by lia⟩
  rw [Shadow.toCopy, h, Option.bind_eq_bind, Option.bind_some, if_pos rfl, hadd]
  rfl

/-- A shadow image of code that the routines lie in carries them. -/
theorem Host.LiesIn.carries (h : host.LiesIn shadow.code) (hend : shadow.base + shadow.code.size < Word.count) :
    shadow.Carries host := by
  intro routine address haddress
  have hin := h routine address haddress
  obtain ⟨⟨hbase, hlt⟩, -⟩ := Region.contains_eq_some_true_iff.1 hin
  refine ⟨hbase, by lia, ?_⟩
  unfold Routine.entry
  rw [Option.mem_def.1 haddress]
  dsimp only
  rw [Shadow.toCopy_of_contains hin hend]

/-- Every routine that is carried can be entered. -/
theorem Shadow.Carries.exists_entry (h : shadow.Carries host) (routine : Routine) :
    ∃ copy, routine.entry host shadow = .done copy := by
  cases haddress : host.addressOf? routine with
  | none =>
    refine ⟨none, ?_⟩
    unfold Routine.entry
    rw [haddress]
  | some address => exact ⟨_, (h routine address haddress).2.2⟩

end

/-! ## Programs that do not tell the difference -/

section

variable {host : Host} {image : Image} {shadow : Shadow} {target : Address} {bytes : Bytes} {strict : Bool}

/-- A routine that is carried runs as one of another image does. -/
theorem Shadow.Carries.runRoutine_eq (h : shadow.Carries host) (routine : Routine) (change : Engine Unit) :
    runRoutine routine host shadow strict change = runRoutine routine .other shadow strict change := by
  obtain ⟨copy, hcopy⟩ := h.exists_entry routine
  have hother : routine.entry .other shadow = .done none := rfl
  rw [runRoutine, runRoutine, hcopy, hother]
  rfl

theorem Image.patch_eq_of_carries (h : image.shadow.Carries host) :
    image.patch host target bytes = image.patch .other target bytes := by
  have hoverwrite : image.overwrite host target bytes = image.overwrite .other target bytes := by
    simp only [Image.overwrite, overwriteCode, h.runRoutine_eq]
  rw [Image.patch, Image.patch, hoverwrite]

theorem Image.guardedPatch_eq_of_carries (h : image.shadow.Carries host) :
    image.guardedPatch host target bytes = image.guardedPatch .other target bytes := by
  rw [Image.guardedPatch, Image.guardedPatch, patch_eq_of_carries h]

theorem Guard.release_eq_of_carries {guard : Guard} (h : guard.image.shadow.Carries host) :
    guard.release host = guard.release .other := by
  rw [Guard.release, Guard.release, Image.patch_eq_of_carries h]

end

/-! ## Preparations -/

namespace Program

variable {κ ε α β : Type} [Kernel κ] {x : Program ε α} {world after : World κ}

/-- Sequences run alike if they start alike and go on alike from wherever that leads. -/
theorem run_bind_congr {f g : α → Program ε β}
    (h : ∀ a between, x.run world = (.done a, between) → (f a).run between = (g a).run between) :
    (x >>= f).run world = (x >>= g).run world := by
  rw [run_bind, run_bind]
  rcases hx : x.run world with ⟨a | error | _, between⟩
  · exact h a between hx
  · rfl
  · rfl

/-- A sequence ends well in its second part, behind a first one that ends well. -/
theorem done_of_run_bind {f : α → Program ε β} {b : β} (h : (x >>= f).run world = (.done b, after)) :
    ∃ a between, x.run world = (.done a, between) ∧ (f a).run between = (.done b, after) := by
  rw [run_bind] at h
  rcases hx : x.run world with ⟨a | error | _, between⟩
  · rw [hx] at h
    exact ⟨a, between, rfl, h⟩
  · rw [hx] at h
    cases h
  · rw [hx] at h
    cases h

/-- A value that must be there is there if the program ends with it. -/
theorem eq_some_of_run_require {value? : Option α} {value : α}
    (h : (require value? : Program ε α).run world = (.done value, after)) : value? = some value := by
  cases value? with
  | none => cases h
  | some found =>
    cases h
    rfl

end Program

section

variable {κ : Type} [Kernel κ] {host : Host} {imageBase base : Address} {pageSize : Nat} {config : Config}
  {world after : World κ} {layout : Layout} {shadow : Shadow} {image : Image}

/-- What is reported ends well on its own. -/
theorem done_of_run_reporting {α : Type} {operation : Operation} {x : Engine α} {value : α}
    (hrun : (reporting operation x).run world = (.done value, after)) : x.run world = (.done value, after) := by
  obtain ⟨result, reported, hresult, hrun⟩ := Program.done_of_run_bind hrun
  rw [Program.run_attempt] at hresult
  rcases hx : x.run world with ⟨found | error | _, ended⟩
  · rw [hx] at hresult
    cases hresult
    exact hrun
  · rw [hx] at hresult
    cases hresult
    obtain ⟨_, _, -, hrun⟩ := Program.done_of_run_bind hrun
    cases hrun
  · rw [hx] at hresult
    cases hresult

/-- The code that is found ends at an address. -/
theorem exists_limit_of_locate (hrun : (locate base).run world = (.done layout, after)) :
    ∃ limit, layout.code.limit = some limit := by
  have hbehind : ∀ code, (locateBehind code).Yields fun result _ =>
      ∀ layout, result = .ok layout → ∃ limit, layout.code.limit = some limit := by
    intro code
    rcases hlimit : code.limit with _ | limit
    · rw [locateBehind, hlimit]
      trivial
    · refine (yields_locateBehind base code).mono fun result es h => ?_
      obtain ⟨found, hcode, -, hwalks⟩ := h
      rintro layout rfl
      cases hwalks.1
      exact ⟨limit, hcode ▸ hlimit⟩
  have hyields : (locate base).Yields fun result _ =>
      ∀ layout, result = .ok layout → ∃ limit, layout.code.limit = some limit := by
    rw [locate, Program.yields_bind, Program.yields_during, Program.yields_request]
    rintro (cause | code)
    · rintro layout ⟨⟩
    · dsimp only
      split
      · exact hbehind code
      · exact hbehind code
  exact hyields.of_run hrun rfl layout rfl

/-- A shadow image that is built copies the code of its layout and ends at an address. -/
theorem bounds_of_buildShadow (hrun : (buildShadow layout).run world = (.done shadow, after)) :
    shadow.code = layout.code ∧ shadow.base + shadow.code.size < Word.count := by
  rw [buildShadow] at hrun
  obtain ⟨size, _, hsize, hrun⟩ := Program.done_of_run_bind hrun
  obtain ⟨base, _, -, hrun⟩ := Program.done_of_run_bind hrun
  obtain ⟨result, _, -, hrun⟩ := Program.done_of_run_bind hrun
  cases result with
  | error error =>
    obtain ⟨_, _, -, hrun⟩ := Program.done_of_run_bind hrun
    cases hrun
  | ok =>
    obtain ⟨limit, _, hlimit, hrun⟩ := Program.done_of_run_bind hrun
    cases hrun
    have hextent := Layout.size_eq_some (Program.eq_some_of_run_require hsize)
    obtain ⟨rfl, hlt⟩ := Word.add_eq_some_iff.1 (Program.eq_some_of_run_require hlimit)
    refine ⟨rfl, ?_⟩
    rw [hextent, Layout.extent] at hlt
    dsimp only
    lia

/-- A preparation that finds the routines in the code goes as that of another image. -/
theorem Image.run_prepare_eq_of_liesIn
    (h : ∀ layout located, (locate (config.imageBase.getD imageBase)).run world = (.done layout, located) →
      host.LiesIn layout.code) :
    (Image.prepare host false imageBase pageSize config).run world =
      (Image.prepare .other false imageBase pageSize config).run world := by
  have hestablish : (Image.establish host imageBase pageSize config).run world =
      (Image.establish .other imageBase pageSize config).run world := by
    refine Program.run_bind_congr fun layout located hlocate => ?_
    have hinside := (h layout located hlocate).checkInside_eq
    have hother : ∀ routine : Routine, routine.checkInside .other layout.code = .done () := fun _ => rfl
    simp only [hinside, hother, Program.ofOutcome, Program.done_bind]
    refine Program.run_bind_congr fun shadow built hbuild => ?_
    obtain ⟨hcode, hend⟩ := bounds_of_buildShadow hbuild
    have hlies : host.LiesIn shadow.code := hcode ▸ h layout located hlocate
    rw [recreateCode, recreateCode, (hlies.carries hend).runRoutine_eq]
  have hreporting : Image.prepare host false imageBase pageSize config =
      reporting .initialization (Image.establish host imageBase pageSize config) := by
    cases host <;> rfl
  have hother : Image.prepare .other false imageBase pageSize config =
      reporting .initialization (Image.establish .other imageBase pageSize config) := rfl
  rw [hreporting, hother, reporting, reporting, Program.run_bind, Program.run_bind, Program.run_attempt, Program.run_attempt,
    hestablish]

/-- An image that is prepared has the code of the layout that is found, the shadow image that is built of it, and the settings. -/
theorem Image.exists_of_prepare {attempted : Bool}
    (hrun : (Image.prepare host attempted imageBase pageSize config).run world = (.done image, after)) :
    ∃ (layout : Layout) (shadow : Shadow) (located built : World κ),
      (locate (config.imageBase.getD imageBase)).run world = (.done layout, located) ∧
        (buildShadow layout).run located = (.done shadow, built) ∧ image = ⟨config, layout.code, shadow, pageSize⟩ := by
  have hchecked : ∀ {outcome : Outcome Error Unit} {located passed : World κ},
      (Program.ofOutcome outcome).run located = (.done (), passed) → passed = located := by
    rintro (_ | _ | _) located passed h
    · cases h
      rfl
    · cases h
    · cases h
  have hestablish : (Image.establish host imageBase pageSize config).run world = (.done image, after) := by
    unfold Image.prepare at hrun
    split at hrun
    · cases hrun
    · exact done_of_run_reporting hrun
  obtain ⟨layout, located, hlocate, hrest⟩ := Program.done_of_run_bind hestablish
  obtain ⟨_, _, hrecreate, hrest⟩ := Program.done_of_run_bind hrest
  obtain ⟨_, _, hoverwrite, hrest⟩ := Program.done_of_run_bind hrest
  obtain ⟨shadow, built, hbuild, hrest⟩ := Program.done_of_run_bind hrest
  rw [hchecked hoverwrite, hchecked hrecreate] at hbuild
  -- what follows gives the image this shadow image
  obtain ⟨_, _, -, hrest⟩ := Program.done_of_run_bind hrest
  obtain ⟨_, _, -, hrest⟩ := Program.done_of_run_bind hrest
  obtain ⟨_, _, -, hrest⟩ := Program.done_of_run_bind hrest
  obtain ⟨_, _, -, hrest⟩ := Program.done_of_run_bind hrest
  cases hrest
  exact ⟨layout, shadow, located, built, hlocate, hbuild, rfl⟩

/-- The shadow image of an image that is prepared carries the routines that were found in the code. -/
theorem Image.carries_of_prepare {attempted : Bool}
    (h : ∀ layout located, (locate (config.imageBase.getD imageBase)).run world = (.done layout, located) →
      host.LiesIn layout.code)
    (hrun : (Image.prepare .other attempted imageBase pageSize config).run world = (.done image, after)) :
    image.shadow.Carries host := by
  obtain ⟨layout, shadow, located, built, hlocate, hbuild, rfl⟩ := Image.exists_of_prepare hrun
  obtain ⟨hcode, hend⟩ := bounds_of_buildShadow hbuild
  have hlies : host.LiesIn shadow.code := hcode ▸ h layout located hlocate
  exact hlies.carries hend

/-- A preparation that finds a routine outside of the code ends there, with one record for the failure. -/
theorem Image.run_prepare_outside {located : World κ} {address : Address}
    (hlocate : (locate (config.imageBase.getD imageBase)).run world = (.done layout, located))
    (h : host.FirstOutside layout.code address) :
    (Image.prepare host false imageBase pageSize config).run world = (.failed (.routineOutsideImage address),
      { located with journal := located.journal.push (.operationFailed .initialization (.routineOutsideImage address)) }) := by
  obtain ⟨limit, hlimit⟩ := exists_limit_of_locate hlocate
  have hestablish : (Image.establish host imageBase pageSize config).run world =
      (.failed (.routineOutsideImage address), located) := by
    rw [Image.establish, Program.run_bind, hlocate]
    dsimp only
    cases h with
    | recreate overwrite houtside =>
      rw [Routine.checkInside_eq_failed rfl hlimit houtside]
      rfl
    | @overwrite recreate _ hinside houtside =>
      have hpass : Routine.recreate.checkInside (.own recreate address) layout.code = .done () := by
        unfold Routine.checkInside Host.addressOf?
        dsimp only
        rw [hinside]
        rfl
      rw [hpass, Routine.checkInside_eq_failed rfl hlimit houtside]
      rfl
  have hprepare : Image.prepare host false imageBase pageSize config =
      reporting .initialization (Image.establish host imageBase pageSize config) := by
    cases host <;> rfl
  rw [hprepare, reporting, Program.run_bind, Program.run_attempt, hestablish]
  rfl

end

/-! ## Errors of other images -/

/-- The error is not that of a routine that lies outside of the code. -/
def Error.Inside (error : Error) : Prop := ∀ address, error ≠ .routineOutsideImage address

section

variable {image : Image} {config : Config} {error : Error} {es : List Exchange} {base : Address}

theorem Cut.inside {stages : List Stage} {step : Step} (h : Cut stages step error es) : error.Inside := by
  obtain ⟨_, _, hstops⟩ := h.stops
  cases hstops <;> exact nofun

theorem Paused.inside {strict : Bool} {P : Except Error Unit → List Exchange → Prop} {result : Except Error Unit}
    (hP : ∀ error es, P (.error error) es → error.Inside) (h : Paused .other strict P result es) :
    ∀ error, result = .error error → error.Inside := by
  rintro error herror
  cases h with
  | outside hhost => exact absurd rfl hhost
  | unlisted code =>
    cases herror
    exact nofun
  | calledOff suspended hstrict hrefused resumed =>
    cases resumed <;> (cases herror; exact nofun)
  | @around result es suspended hgo hchange resumed =>
    rcases result with error' | ⟨⟩
    · cases herror
      exact hP _ _ hchange
    · cases resumed <;> cases herror
      exact nofun

/-- No error of preparing another image is that of a routine. -/
theorem Config.Prepares.inside (h : config.Prepares .other base (some error) es) : error.Inside := by
  cases h with
  | again hhost => exact absurd rfl hhost
  | surveyed h =>
    cases h with
    | unlocated hjoined hcut => exact hcut.inside
    | outside hjoined hhost => exact absurd rfl hhost
    | unbuilt hjoined hcut => exact hcut.inside
  | stopped hsurvey h => exact h.inside (fun error es hreplaces => by cases hreplaces <;> exact nofun) error rfl

/-- No error of patching another image is that of a routine. -/
theorem Image.Overwrites.inside {n : Nat} (h : image.Overwrites .other n (some error) es) : error.Inside := by
  cases h with
  | untried hsaves herror =>
    rintro address rfl
    exact herror _ rfl
  | tried hsaves hin hspan hpos h =>
    cases h with
    | stopped h => exact h.inside (fun error es hwrites => by cases hwrites <;> exact nofun) error rfl
    | written h hverifies =>
      rintro address rfl
      exact hverifies.reads.2 _ rfl

end

end LivePatch
