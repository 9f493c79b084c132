import LivePatch.Proofs.Engine.Tally
import LivePatch.Proofs.Engine.Upkeep
import LivePatch.Proofs.Procedure
import LivePatch.Proofs.Session.History
import LivePatch.Proofs.Session.Keeping

/-!
# Operations never crash

A session on the code of another image locates, prepares, patches, guards and releases, and its test bed is set up anew at will:
failures, refusals, diversions, threads. If there is room for each shadow image that is built, and for what is diverted, no command
crashes. What carries this from one command to the next, also past those that fail midway, is that the memory stays in order, and
that every image keeps clear of the end of the address space.
-/

namespace LivePatch

/-- What fits can be afforded. -/
theorem Testbed.Fits.affords {world : World Testbed} {base : Address} (h : world.kernel.Fits base)
    (horder : world.kernel.InOrder 0) : world.Affords base := by
  intro layout located hrun _
  obtain ⟨-, code, constants, data, hmaps, hadjoins⟩ := Program.wp_run_done horder.wp_locate_found hrun
  rw [Layout.extent, hmaps.code_size, hmaps.constants_size, hmaps.data_size]
  exact h code constants data hadjoins

namespace Session

/-- The change leaves the memory and keeps what there is in range: a page size is a power of two, a diversion leads to a page
boundary, and the threads of a table can be counted. -/
def Preparation.Harmless : Preparation → Prop
  | .map .. => False
  | .setPageSize size => size.isPowerOfTwo
  | .divert address => address % pageBytes = 0 ∧ address < Word.count
  | .setThreads threads _ => threads.length < Word.count
  | .scriptThreads lists => ∀ threads ∈ lists, threads.length < Word.count
  | _ => True

namespace State

/-- In this state the command is one that must not crash. A preparation is one if the test bed affords it. -/
def Admits (state : State Testbed) : Command → Prop
  | .setUp preparation => preparation.Harmless
  | .operate (.locate _) | .operate (.patch ..) | .operate (.guard ..) | .operate (.release _) => True
  | .operate (.prepare config) => state.world.Affords (config.imageBase.getD (Kernel.imageBase state.world.kernel))
  | _ => False

/-- Each command is admitted in the state in which it is taken. -/
def AdmitsAll (state : State Testbed) : List Command → Prop
  | [] => True
  | command :: rest => state.Admits command ∧ (state.take command).2.AdmitsAll rest

/-- The code is that of another image, the test bed is in order, and every image keeps clear of the end of the address space. -/
structure Sound (state : State Testbed) : Prop where
  host : state.host = .other
  order : state.world.kernel.InOrder 0
  pageSize : state.world.kernel.pageSize.isPowerOfTwo
  listable : state.world.kernel.Listable
  bounded : state.Keeps Image.Bounded

/-- The command did not crash, and the state that it leaves is sound. -/
def Survives (outcome : Answer × State Testbed) : Prop := outcome.1 ≠ .crashed ∧ outcome.2.Sound

variable {state : State Testbed} {α : Type}

/-! ## Single commands -/

/-- A safe program leaves a sound state, in whatever way it ends. -/
theorem Sound.ran {x : Engine α} {world : World Testbed} {outcome : Outcome Error α} (h : state.Sound)
    (hx : x.Safe state.world.kernel) (hrun : x.run state.world = (outcome, world)) :
    outcome ≠ .crashed ∧ Sound { state with world := world } := by
  obtain ⟨hreturns, horder⟩ := hx.run
  have hfollows := Testbed.follows_run x state.world
  have hlistable := h.listable.run (x := x)
  rw [hrun] at hreturns horder hfollows hlistable
  exact ⟨hreturns, h.host, horder, hfollows.pageSize ▸ h.pageSize, hlistable, h.bounded.withWorld world⟩

/-- Performing a safe program is survived if keeping its value is. -/
theorem Sound.perform {x : Engine α} {keep : α → State Testbed → Answer × State Testbed} (h : state.Sound)
    (hx : x.Safe state.world.kernel) (hkeep : ∀ value world, x.run state.world = (.done value, world) →
      Sound { state with world := world } → Survives (keep value { state with world := world })) :
    Survives (state.perform x keep) := by
  rcases perform_cases state x keep with ⟨value, world, hrun, hperform⟩ | ⟨_, world, hrun, hperform⟩ | ⟨world, hrun, -⟩
  · rw [hperform]
    exact hkeep value world hrun (h.ran hx hrun).2
  · rw [hperform]
    exact ⟨nofun, (h.ran hx hrun).2⟩
  · exact absurd rfl (h.ran hx hrun).1

theorem Sound.withGuards (h : state.Sound) (guards : Registry Guard) (hguards : ∀ entry ∈ guards, entry.2.image.Bounded) :
    Sound { state with guards := guards } :=
  ⟨h.host, h.order, h.pageSize, h.listable, h.bounded.images, hguards⟩

theorem Sound.release (h : state.Sound) (name : String) {answer : Answer} (hanswer : answer ≠ .crashed) :
    Survives (state.release name answer) := by
  rw [State.release]
  cases hguard : state.guards.get? name with
  | none => exact ⟨nofun, h⟩
  | some guard =>
    have hless := h.withGuards (state.guards.erase name) (h.bounded.erase name).guards
    exact hless.perform (h.order.safe_release (h.bounded.guard hguard)) fun _ _ _ hafter => ⟨hanswer, hafter⟩

theorem Sound.keepGuard {guard : Guard} (h : state.Sound) (hguard : guard.image.Bounded) (name : String) :
    Survives (state.keepGuard name guard) := by
  have hmore := h.withGuards (state.guards.put name guard) (h.bounded.put hguard name).guards
  rw [State.keepGuard]
  cases hold : state.guards.get? name with
  | none => exact ⟨by simp, hmore⟩
  | some old => exact hmore.perform (h.order.safe_release (h.bounded.guard hold)) fun _ _ _ hafter => ⟨by simp, hafter⟩

/-- A preparation that the test bed affords is survived, and its image keeps clear of the end of the address space. -/
theorem Sound.prepare {config : Config} (h : state.Sound)
    (hafford : state.world.Affords (config.imageBase.getD (Kernel.imageBase state.world.kernel))) :
    Survives (state.prepare config) := by
  have hattempt : Sound { state with attempted := true } :=
    ⟨h.host, h.order, h.pageSize, h.listable, h.bounded.images, h.bounded.guards⟩
  refine hattempt.perform (h.order.safe_prepare h.host hafford) fun image world hrun hafter => ⟨nofun, ?_⟩
  have hbounded := (Image.bounded_of_prepare h.order.wellFormed h.order.addressable h.pageSize hrun).1
  exact ⟨hafter.host, hafter.order, hafter.pageSize, hafter.listable, hafter.bounded.push hbounded⟩

/-- What is set up leaves a sound state if it is harmless. -/
theorem Sound.setUp {preparation : Preparation} (h : state.Sound) (hharmless : preparation.Harmless) :
    Survives (state.take (.setUp preparation)) := by
  obtain ⟨hhost, horder, hpageSize, hlistable, hbounded⟩ := h
  have hkeeps := hbounded.withWorld
  cases preparation with
  | map => exact hharmless.elim
  | setPageSize size => exact ⟨nofun, hhost, horder.congr rfl rfl, hharmless, hlistable, hkeeps _⟩
  | divert address =>
    refine ⟨nofun, hhost, ⟨horder.wellFormed, horder.addressable, fun diverted hdiverted => ?_⟩, hpageSize, hlistable, hkeeps _⟩
    cases hdiverted
    exact hharmless
  | setThreads threads caller =>
    refine ⟨nofun, hhost, horder.congr rfl rfl, hpageSize, ?_, hkeeps _⟩
    exact List.forall_mem_cons.2 ⟨hharmless, (List.forall_mem_cons.1 hlistable).2⟩
  | scriptThreads lists =>
    refine ⟨nofun, hhost, horder.congr rfl rfl, hpageSize, ?_, hkeeps _⟩
    exact List.forall_mem_cons.2 ⟨(List.forall_mem_cons.1 hlistable).1, hharmless⟩
  | inject | refuseSuspend | refuseResume | distort | setImageBase =>
    exact ⟨nofun, hhost, horder.congr rfl rfl, hpageSize, hlistable, hkeeps _⟩

/-- A command that is admitted is survived. -/
theorem Sound.take {command : Command} (h : state.Sound) (hadmits : state.Admits command) : Survives (state.take command) := by
  cases command with
  | setUp preparation => exact h.setUp hadmits
  | call | inspect => exact hadmits.elim
  | operate operation =>
    rw [State.take]
    cases operation with
    | build | toCopies | toCode | sweep => exact hadmits.elim
    | locate base =>
      exact h.perform (h.order.safe_locate base) fun _ _ _ hafter =>
        ⟨by simp, hafter.host, hafter.order, hafter.pageSize, hafter.listable, hafter.bounded.images, hafter.bounded.guards⟩
    | prepare config => exact h.prepare hadmits
    | patch i target bytes =>
      rw [operate]
      cases hi : state.images[i]? with
      | none => exact ⟨by simp, h⟩
      | some image => exact h.perform (h.order.safe_patch (h.bounded.image hi)) fun _ _ _ hafter => ⟨by simp, hafter⟩
    | guard i name target bytes =>
      rw [operate]
      cases hi : state.images[i]? with
      | none => exact ⟨by simp, h⟩
      | some image =>
        refine h.perform (h.order.safe_guardedPatch (h.bounded.image hi)) fun guard _ hrun hafter => hafter.keepGuard ?_ name
        rw [Image.image_of_guardedPatch hrun]
        exact h.bounded.image hi
    | release name => exact h.release name (by simp)

end State

/-! ## Sessions -/

/-- No session crashes that starts on a test bed in order, and in which each command is admitted where it is taken: not in its
commands, and not when the guards that are left are given up. Every state on the way is sound. There, as on every test bed with
threads that can be counted, the numbers of both reports of a bracket are in range, whatever is changed in it. -/
theorem State.run_ne_crashed {state : State Testbed} {commands : List Command} (hsound : state.Sound)
    (hadmits : state.AdmitsAll commands) :
    (∀ entry ∈ state.run commands, entry.answer ≠ .crashed) ∧
      (∀ moment ∈ state.history State.take commands, moment.2.Sound) ∧
        ∀ (α : Type) (strict : Bool) (change : Engine α) (world after : World Testbed) reports result, world.kernel.Listable →
          (paused strict change : Engine (BracketReports × Except Error α)).run world = (.done (reports, result), after) →
            reports.suspended.InRange ∧ reports.resumed.InRange := by
  have hmoments : ∀ moment ∈ state.history State.take commands, moment.1.answer ≠ .crashed ∧ moment.2.Sound := by
    refine State.forall_history (R := fun commands state => state.Sound ∧ state.AdmitsAll commands) (fun name _ h => ?_)
      (fun command rest _ h => ?_) ⟨hsound, hadmits⟩
    · have hsurvives := h.1.release name (nofun : Answer.dropped name ≠ .crashed)
      exact ⟨hsurvives, fun _ => ⟨hsurvives.2, trivial⟩⟩
    · obtain ⟨hstate, hcommand, hrest⟩ := h
      have hsurvives := hstate.take hcommand
      exact ⟨hsurvives, fun _ => ⟨hsurvives.2, hrest⟩⟩
  refine ⟨fun entry hentry => ?_, fun moment hmoment => (hmoments moment hmoment).2, ?_⟩
  · rw [← State.map_fst_history] at hentry
    obtain ⟨moment, hmoment, rfl⟩ := List.mem_map.1 hentry
    exact (hmoments moment hmoment).1
  · intro α strict change world after reports result hlistable hrun
    exact Program.wp_run_done (hlistable.wp_paused (E := fun _ _ => True)) hrun

/-- The small process with a thread that refuses. The first write is made to fail and a diversion is pending when the session goes
on. -/
theorem State.run_ne_crashed_threePages : ∃ state : State Testbed,
    state.world.kernel.machine.injections = [⟨.write, 0, .failure⟩] ∧ state.world.kernel.machine.suspendRefusals = [2] ∧
      ∀ entry ∈ state.run [.operate (.prepare {}), .operate (.guard 0 "g" Space.imageBase #[0xcc]),
        .setUp (.divert 0x500000000000), .operate (.guard 0 "g" Space.imageBase #[0xcc]),
        .operate (.patch 0 (Space.imageBase + pageBytes - 1) #[0x90, 0x90]), .operate (.release "g"), .operate (.locate 0)],
        entry.answer ≠ .crashed := by
  let machine : Machine := { Testbed.threePages.machine with
    threads := [1, 2, 3], injections := [⟨.write, 0, .failure⟩], suspendRefusals := [2] }
  let bed : Testbed := { Testbed.threePages with machine := machine, script := [[1, 2], [3]] }
  have hfits : bed.Fits Space.imageBase :=
    (Testbed.unhindered_threePages {} rfl).fits Space.wellFormed_threePages Space.addressable_threePages
  have horder : bed.InOrder 0 :=
    ⟨Space.wellFormed_threePages, Space.addressable_threePages, by simp [bed, machine, Testbed.threePages]⟩
  have hafford : World.Affords { kernel := bed } Space.imageBase := Testbed.Fits.affords hfits horder
  have hlistable : bed.Listable := by simp [Testbed.Listable, bed, machine, Word.count]
  have hsound : State.Sound { world := { kernel := bed } } :=
    ⟨rfl, horder, ⟨12, by decide⟩, hlistable, by simp, by simp⟩
  refine ⟨{ world := { kernel := bed } }, rfl, rfl, (State.run_ne_crashed hsound ?_).1⟩
  exact ⟨hafford, trivial, ⟨by decide, by decide⟩, trivial, trivial, trivial, trivial, trivial⟩

end Session

end LivePatch
