import LivePatch.Proofs.Engine.Preparation
import LivePatch.Proofs.Session.History
import LivePatch.Proofs.Session.Housing
import LivePatch.Proofs.Simulation.Replay

/-!
# The shadow image is invisible

A session on the code of the engine itself, whose first preparation finds the routines in the code, goes like one on another
image: moment by moment it has the same answers, calls and records, and leaves the same memory. The one difference is that a
preparation after the first is turned down, and then nothing is asked and nothing noted. If the first preparation finds a routine
outside of the code, it ends behind its queries.
-/

namespace LivePatch.Session

/-- Nothing was prepared yet in the session, which changes another image. -/
structure State.Fresh (state : State Testbed) : Prop where
  host : state.host = .other
  attempted : state.attempted = false
  images : state.images = #[]
  guards : state.guards = []

/-- Takes one command, but no preparation after the first. -/
def State.takeOnce (state : State Testbed) (command : Command) : Answer × State Testbed :=
  if command.isPreparation ∧ state.attempted then (.failure .alreadyInitialized, state) else state.take command

/-- A preparation with these settings finds this layout. -/
def State.Finds (state : State Testbed) (config : Config) (layout : Layout) : Prop :=
  ∃ located, (locate (config.imageBase.getD (Kernel.imageBase state.world.kernel))).run state.world = (.done layout, located)

/-- If the first of the preparations finds a layout, the routines lie in its code. -/
def State.Houses (state : State Testbed) : List Command → Prop
  | [] => True
  | .operate (.prepare config) :: _ => ∀ layout, state.Finds config layout → state.host.LiesIn layout.code
  | command :: rest => (state.take command).1 ≠ .crashed → (state.take command).2.Houses rest

/-- The moment of a session on the code of the engine itself is that of a session on another image: the entries are the same, and
so are the states, but for whose code it is. The shadow images carry the routines, and no routine lies outside of the code. -/
structure Mirrors (host : Host) (own plain : Moment) : Prop where
  entries : own.1 = plain.1
  states : own.2 = plain.2.hostedBy host
  carried : own.2.Keeps (·.shadow.Carries host)
  inside : own.1.answer.Inside

/-- The preparation fails because of the address of a routine, behind the three queries that find the layout. Nothing but the
record of these is new to the kernel, and nothing to the session but that there was an attempt. -/
structure State.TurnsAway (state : State Testbed) (config : Config) (layout : Layout) (address : Address) : Prop where
  answer : (state.prepare config).1 = .failure (.routineOutsideImage address)
  calls : (entry state (state.prepare config).2 (state.prepare config).1).calls =
    [.region (config.imageBase.getD (Kernel.imageBase state.world.kernel)), .region layout.constants.base,
      .region layout.data.base]
  kernel : (state.prepare config).2.world.kernel = { state.world.kernel with
    machine := { state.world.kernel.machine with
      calls := (state.prepare config).2.world.kernel.machine.calls
      counts := (state.prepare config).2.world.kernel.machine.counts } }
  state : (state.prepare config).2 = { state with world := (state.prepare config).2.world, attempted := true }

namespace State

/-! ## Commands -/

section

variable {state : State Testbed} {command : Command}

/-- No command changes whose code it is, and only preparations are attempts. -/
theorem fields_take (state : State Testbed) (command : Command) :
    (state.take command).2.host = state.host ∧
      (state.take command).2.attempted = (command.isPreparation || state.attempted) := by
  have hcall : ∀ request, (state.call request).2.host = state.host ∧ (state.call request).2.attempted = state.attempted := by
    intro request
    unfold call
    rcases (single request).run state.world with ⟨answer | impossible | _, world⟩
    · exact ⟨rfl, rfl⟩
    · exact impossible.elim
    · exact ⟨rfl, rfl⟩
  cases command with
  | setUp preparation =>
    rw [take]
    split
    · exact ⟨rfl, rfl⟩
    · exact ⟨rfl, rfl⟩
  | call request => exact hcall request
  | inspect inspection => exact ⟨rfl, rfl⟩
  | operate operation =>
    cases hpreparation : operation.isPreparation with
    | false =>
      obtain ⟨hhost, hattempted⟩ : state.Alongside _ := alongside_operate hpreparation
      refine ⟨hhost, hattempted.trans ?_⟩
      rw [Command.isPreparation, hpreparation, Bool.false_or]
    | true =>
      cases operation with
      | prepare config => exact state.prepare_fields config
      | _ => cases hpreparation

theorem takeOnce_eq_take (h : command.isPreparation = true → state.attempted = false) :
    state.takeOnce command = state.take command := by
  refine if_neg fun hboth => ?_
  rw [h hboth.1] at hboth
  exact nomatch hboth.2

/-- What houses a command that is no preparation, and the rest, houses the rest behind it. -/
theorem Houses.of_cons {rest : List Command} (h : state.Houses (command :: rest)) (hnot : command.isPreparation = false)
    (hcrashed : (state.take command).1 ≠ .crashed) : (state.take command).2.Houses rest := by
  cases command with
  | setUp | call | inspect => exact h hcrashed
  | operate operation =>
    cases operation with
    | prepare config => cases hnot
    | _ => exact h hcrashed

/-- A session with one preparation goes the same if only one is taken. -/
theorem history_takeOnce {commands : List Command} (h : state.attempted.toNat + commands.countP Command.isPreparation ≤ 1) :
    state.history takeOnce commands = state.history take commands := by
  induction commands generalizing state with
  | nil => rfl
  | cons command rest ih =>
    have htake : state.takeOnce command = state.take command := takeOnce_eq_take fun hpreparation => by
      rw [List.countP_cons_of_pos hpreparation] at h
      cases hattempted : state.attempted with
      | false => rfl
      | true =>
        rw [hattempted, Bool.toNat_true] at h
        lia
    have hrest : (state.take command).2.attempted.toNat + rest.countP Command.isPreparation ≤ 1 := by
      rw [(state.fields_take command).2]
      cases hpreparation : command.isPreparation with
      | false =>
        rw [List.countP_cons_of_neg (by rw [hpreparation]; exact nofun)] at h
        exact h
      | true =>
        rw [List.countP_cons_of_pos hpreparation] at h
        rw [Bool.true_or, Bool.toNat_true]
        lia
    rw [history, history, htake, ih hrest]

end

/-! ## Both sessions side by side -/

/-- The first session is the second one on the code of the engine itself, its shadow images carry the routines, and the first
preparation finds these in the code. -/
structure Housed (host : Host) (commands : List Command) (own plain : State Testbed) : Prop where
  same : own = plain.hostedBy host
  other : plain.host = .other
  carried : plain.Keeps (·.shadow.Carries host)
  housing : plain.attempted = false → own.Houses commands

section

variable {host : Host} {commands : List Command} {own plain : State Testbed}

/-- What is alike in both sessions mirrors each other, and keeps them together if the commands that are left are housed. -/
theorem abreast_of_hosted {outcome outcome' : Answer × State Testbed} (hsame : own = plain.hostedBy host)
    (houtcome : outcome = hosted host outcome') (hinside : outcome'.1.Inside) (hother : outcome'.2.host = .other)
    (hcarried : outcome'.2.Keeps (·.shadow.Carries host))
    (hhousing : outcome.1 ≠ .crashed → outcome'.2.attempted = false → outcome.2.Houses commands) :
    Abreast (Housed host commands) (Mirrors host) own plain outcome outcome' := by
  subst hsame houtcome
  exact {
    moments := ⟨rfl, rfl, ⟨hcarried.images, hcarried.guards⟩, hinside⟩
    crashed := Iff.rfl
    together := fun hcrashed => ⟨rfl, hother, hcarried, hhousing hcrashed⟩ }

/-- What is not a preparation goes alike in both sessions. -/
theorem take_hostedBy {command : Command} (hother : plain.host = .other) (hcarried : plain.Keeps (·.shadow.Carries host))
    (hnot : command.isPreparation = false) : (plain.hostedBy host).take command = hosted host (plain.take command) := by
  cases command with
  | setUp preparation =>
    have hworld : (plain.hostedBy host).world = plain.world := rfl
    rw [take, take, hworld]
    split
    · rfl
    · rfl
  | call request =>
    have hworld : (plain.hostedBy host).world = plain.world := rfl
    rw [take, take, call, call, hworld]
    rcases (single request).run plain.world with ⟨answer | impossible | _, world⟩
    · rfl
    · exact impossible.elim
    · rfl
  | inspect inspection => rfl
  | operate operation => exact operate_hostedBy hother hcarried hnot

/-- What is not a preparation leaves the images as they were. -/
theorem Keeps.take {P : Image → Prop} {command : Command} (h : plain.Keeps P) (hnot : command.isPreparation = false) :
    (plain.take command).2.Keeps P := by
  cases command with
  | setUp preparation =>
    rw [State.take]
    split
    · exact h
    · exact h.withWorld _
  | call request =>
    rw [State.take, call]
    rcases (single request).run plain.world with ⟨answer | impossible | _, world⟩
    · exact h.withWorld world
    · exact impossible.elim
    · exact h.withWorld world
  | inspect inspection => exact h
  | operate operation =>
    refine h.operate fun config _ _ hprepare => ?_
    rw [hprepare] at hnot
    cases hnot

/-- A preparation after the first is turned down on the code of the engine itself, and changes nothing. -/
theorem prepare_again {recreate overwrite : Address} (hattempted : plain.attempted = true) (config : Config) :
    (plain.hostedBy (.own recreate overwrite)).prepare config =
      (.failure .alreadyInitialized, plain.hostedBy (.own recreate overwrite)) := by
  have hagain : (plain.hostedBy (.own recreate overwrite)).attempted = true := hattempted
  have hstate : { plain.hostedBy (.own recreate overwrite) with attempted := true } =
      plain.hostedBy (.own recreate overwrite) := by rw [← hagain]
  rw [prepare, hagain, hstate]
  rfl

/-- One command keeps the two sessions together. -/
theorem Housed.abreast {recreate overwrite : Address} {command : Command} {rest : List Command}
    (h : Housed (.own recreate overwrite) (command :: rest) own plain) :
    Abreast (Housed (.own recreate overwrite) rest) (Mirrors (.own recreate overwrite)) own plain (own.take command)
      (plain.takeOnce command) := by
  obtain ⟨hsame, hother, hcarried, hhousing⟩ := h
  obtain ⟨hhost, hattempted⟩ := plain.fields_take command
  cases hpreparation : command.isPreparation with
  | false =>
    rw [takeOnce_eq_take fun h => absurd (h.symm.trans hpreparation) nofun]
    refine abreast_of_hosted hsame (hsame ▸ take_hostedBy hother hcarried hpreparation) (inside_take hother command)
      (hhost.trans hother) (hcarried.take hpreparation) fun hcrashed hfirst => ?_
    rw [hattempted, hpreparation, Bool.false_or] at hfirst
    exact (hhousing hfirst).of_cons hpreparation hcrashed
  | true =>
    obtain ⟨config, rfl⟩ : ∃ config, command = .operate (.prepare config) := by
      cases command with
      | operate operation =>
        cases operation with
        | prepare config => exact ⟨config, rfl⟩
        | _ => cases hpreparation
      | _ => cases hpreparation
    cases hagain : plain.attempted with
    | true =>
      have honce : plain.takeOnce (.operate (.prepare config)) = (.failure .alreadyInitialized, plain) :=
        if_pos ⟨hpreparation, hagain⟩
      rw [honce]
      refine abreast_of_hosted hsame (hsame ▸ prepare_again hagain config) ?_ hother hcarried
        fun _ hfirst => absurd (hagain.symm.trans hfirst) nofun
      rintro _ ⟨⟩
      exact nofun
    | false =>
      have hfound : ∀ layout located,
          (locate (config.imageBase.getD (Kernel.imageBase plain.world.kernel))).run plain.world = (.done layout, located) →
            (Host.own recreate overwrite).LiesIn layout.code := by
        intro layout located hlocate
        subst hsame
        exact hhousing hagain layout ⟨located, hlocate⟩
      rw [takeOnce_eq_take fun _ => hagain]
      refine abreast_of_hosted hsame (hsame ▸ prepare_hostedBy hother hagain hfound) (inside_take hother _)
        (hhost.trans hother) (hcarried.operate fun _ image after hprepare hrun => ?_) fun _ hfirst => ?_
      · cases hprepare
        rw [hother] at hrun
        exact Image.carries_of_prepare hfound hrun
      · rw [hattempted, hpreparation, Bool.true_or] at hfirst
        cases hfirst

/-- Giving a guard up at the end does so, too. -/
theorem Housed.abreast_release (h : Housed host [] own plain) (name : String) :
    Abreast (Housed host []) (Mirrors host) own plain (own.release name (.dropped name))
      (plain.release name (.dropped name)) := by
  obtain ⟨hsame, hother, hcarried, -⟩ := h
  have hself : plain.Alongside plain := ⟨rfl, rfl⟩
  obtain ⟨hhost, -⟩ := hself.release name (.dropped name)
  exact abreast_of_hosted hsame (hsame ▸ release_hostedBy hother hcarried name _) (inside_release nofun)
    (hhost.trans hother) (hcarried.release name _) fun _ _ => trivial

/-- The whole sessions mirror each other. -/
theorem Housed.mirrors {recreate overwrite : Address} (h : Housed (.own recreate overwrite) commands own plain) :
    List.Forall₂ (Mirrors (.own recreate overwrite)) (own.history take commands) (plain.history takeOnce commands) :=
  forall₂_history (fun h => by rw [h.same]; rfl) (fun name _ _ h => h.abreast_release name) (fun _ _ _ _ h => h.abreast) h

end

/-! ## Preparations that are turned away -/

/-- Queries change nothing but the record. -/
theorem kernel_of_served_regions {bed final : Testbed} {es : List Exchange} (h : Program.Served bed es final)
    (hes : ∀ e ∈ es, ∃ address, e.request = .region address) :
    final = { bed with machine := { bed.machine with calls := final.machine.calls, counts := final.machine.counts } } := by
  have hregion : ∀ (bed : Testbed) (address : Address), (Kernel.serve (.region address) bed).2 =
      { bed with machine := bed.machine.recorded (.region address) } := by
    intro bed address
    rw [Testbed.serve_eq (nofun : Request.region address ≠ .threads)]
    have hrecorded : (bed.machine.region address).2 = bed.machine.recorded (.region address) :=
      Machine.receive_recorded (f := id) (fun _ => rfl) bed.machine _
    exact congrArg (fun machine => ({ bed with machine } : Testbed)) hrecorded
  induction es generalizing bed with
  | nil =>
    cases h
    rfl
  | cons e es ih =>
    obtain ⟨next, hserve, hrest⟩ := h
    rw [List.forall_mem_cons] at hes
    obtain ⟨⟨address, haddress⟩, hes⟩ := hes
    have hnext := hregion bed address
    rw [← haddress, hserve] at hnext
    obtain rfl : next = { bed with machine := bed.machine.recorded (.region address) } := hnext
    have hfinal := ih hrest hes
    exact hfinal

/-- A first preparation on the code of the engine itself that finds a routine outside of the code is turned away. -/
theorem Finds.turnsAway {state : State Testbed} {config : Config} {layout : Layout} {address : Address}
    (h : state.Finds config layout) (hfirst : state.attempted = false)
    (houtside : state.host.FirstOutside layout.code address) : state.TurnsAway config layout address := by
  obtain ⟨located, hlocate⟩ := h
  obtain ⟨_, -, rfl, hes⟩ := yields_locate.of_run hlocate rfl
  have hserved := Program.served_run hlocate nofun
  rw [hes] at hserved
  obtain ⟨world, hworld⟩ : ∃ world : World Testbed, world = { located with
    journal := located.journal.push (.operationFailed .initialization (.routineOutsideImage address)) } := ⟨_, rfl⟩
  have hkernel : world.kernel = located.kernel := by rw [hworld]
  have hoperate : state.prepare config =
      (.failure (.routineOutsideImage address), { state with world := world, attempted := true }) := by
    rw [prepare, hfirst, perform, Image.run_prepare_outside hlocate houtside, hworld]
  rw [← hkernel] at hserved
  constructor
  · rw [hoperate]
  · have hcalls := Testbed.calls_served hserved
    rw [hoperate, entry, hcalls]
    simp [Layout.locating, Call.ofRequest?]
  · rw [hoperate]
    refine kernel_of_served_regions hserved fun e he => ?_
    simp only [Layout.locating, List.map_cons, List.map_nil, List.mem_cons, List.not_mem_nil, or_false] at he
    rcases he with rfl | rfl | rfl
    · exact ⟨_, rfl⟩
    · exact ⟨_, rfl⟩
    · exact ⟨_, rfl⟩
  · rw [hoperate]

end State

/-- A session on the code of the engine itself mirrors one on another image if the routines lie in the code that the first
preparation finds; with one preparation at most, the two have the same entries. Routines that pass their checks run from their
copies in the shadow image of the code. A first preparation that finds a routine outside of the code is turned away. -/
theorem State.shadow_invisible {plain : State Testbed} (hfresh : plain.Fresh) (recreate overwrite : Address) :
    (∀ commands, (plain.hostedBy (.own recreate overwrite)).Houses commands →
      List.Forall₂ (Mirrors (.own recreate overwrite)) ((plain.hostedBy (.own recreate overwrite)).history State.take commands)
        (plain.history State.takeOnce commands) ∧
      (commands.countP Command.isPreparation ≤ 1 →
        (plain.hostedBy (.own recreate overwrite)).run commands = plain.run commands)) ∧
    (∀ (layout : Layout) (shadow : Shadow) (world built : World Testbed),
      (∀ routine : Routine, routine.checkInside (.own recreate overwrite) layout.code = .done ()) →
        (buildShadow layout).run world = (.done shadow, built) → shadow.Carries (.own recreate overwrite)) ∧
    ∀ (state : State Testbed) (config : Config) (layout : Layout) (address : Address), state.host = .own recreate overwrite →
      state.attempted = false → state.Finds config layout → state.host.FirstOutside layout.code address →
        state.TurnsAway config layout address := by
  refine ⟨fun commands hhouses => ?_, fun layout shadow world built hchecks hbuild => ?_,
    fun state config layout address _ hfirst hfinds houtside => hfinds.turnsAway hfirst houtside⟩
  · have hcarried : plain.Keeps (·.shadow.Carries (.own recreate overwrite)) := by
      constructor
      · rw [hfresh.images]
        exact nofun
      · rw [hfresh.guards]
        exact nofun
    have hhoused : State.Housed (.own recreate overwrite) commands (plain.hostedBy (.own recreate overwrite)) plain :=
      ⟨rfl, hfresh.host, hcarried, fun _ => hhouses⟩
    refine ⟨hhoused.mirrors, fun honce => ?_⟩
    have htaken : plain.attempted.toNat + commands.countP Command.isPreparation ≤ 1 := by
      rw [hfresh.attempted, Bool.toNat_false, Nat.zero_add]
      exact honce
    have hentries := hhoused.mirrors.imp fun _ _ h => h.entries
    rw [State.history_takeOnce htaken] at hentries
    rw [← State.map_fst_history, ← State.map_fst_history, ← List.forall₂_eq_eq_eq, List.forall₂_map_left_iff,
      List.forall₂_map_right_iff]
    exact hentries
  · obtain ⟨hcode, hend⟩ := bounds_of_buildShadow hbuild
    have hlies : (Host.own recreate overwrite).LiesIn shadow.code := by
      rw [hcode]
      exact Host.liesIn_of_checkInside hchecks
    exact hlies.carries hend

/-- The first and the last address of the code of the small process are addresses of routines, and the next one is not. -/
theorem State.shadow_invisible_threePages :
    ∃ plain : State Testbed, plain.Fresh ∧
      List.Forall₂ (Mirrors (.own Space.imageBase (Space.imageBase + pageBytes - 1)))
        ((plain.hostedBy (.own Space.imageBase (Space.imageBase + pageBytes - 1))).history State.take
          [.operate (.prepare {}), .operate (.patch 0 Space.imageBase #[0xcc]), .operate (.prepare {})])
        (plain.history State.takeOnce
          [.operate (.prepare {}), .operate (.patch 0 Space.imageBase #[0xcc]), .operate (.prepare {})]) ∧
      (plain.hostedBy (.own Space.imageBase (Space.imageBase + pageBytes))).TurnsAway {} .threePages
        (Space.imageBase + pageBytes) := by
  let plain : State Testbed := { world := { kernel := .threePages } }
  have hfresh : plain.Fresh := ⟨rfl, rfl, rfl, rfl⟩
  obtain ⟨located, hlocate⟩ : ∃ located, (locate Space.imageBase).run plain.world = (.done .threePages, located) :=
    Program.exists_run_eq (by decide +kernel)
  have hhouses : (plain.hostedBy (.own Space.imageBase (Space.imageBase + pageBytes - 1))).Houses
      [.operate (.prepare {}), .operate (.patch 0 Space.imageBase #[0xcc]), .operate (.prepare {})] := by
    rintro layout ⟨_, hfound⟩ routine address haddress
    have hlayout : Layout.threePages = layout :=
      Outcome.done.inj (congrArg Prod.fst (hlocate.symm.trans hfound))
    subst hlayout
    cases routine <;> cases haddress <;> decide
  have hfinds : (plain.hostedBy (.own Space.imageBase (Space.imageBase + pageBytes))).Finds {} .threePages :=
    ⟨located, hlocate⟩
  have houtside : (Host.own Space.imageBase (Space.imageBase + pageBytes)).FirstOutside Layout.threePages.code
      (Space.imageBase + pageBytes) := .overwrite (by decide) (by decide)
  exact ⟨plain, hfresh, ((State.shadow_invisible hfresh _ _).1 _ hhouses).1,
    (State.shadow_invisible hfresh _ _).2.2 _ _ _ _ rfl rfl hfinds houtside⟩

end LivePatch.Session
