import LivePatch.Proofs.Engine.Hosting
import LivePatch.Proofs.Engine.Passage
import LivePatch.Proofs.Session.Registry
import LivePatch.Session.Simulated

/-!
# What a session keeps

A session gets new images from preparations alone, and its guards are for images that it has. So a property of every image that
preparations give is one of all images in the session and of those behind its guards. Whose code is changed never changes, and
only a preparation counts as an attempt. A relation that holds over what the programs of the engine do to a kernel holds over what a
session does to it.
-/

namespace LivePatch

/-- The guard of a patch is for the image that was patched. -/
theorem Image.image_of_guardedPatch {κ : Type} [Kernel κ] {image : Image} {host : Host} {target : Address} {bytes : Bytes}
    {guard : Guard} {world after : World κ} (hrun : (image.guardedPatch host target bytes).run world = (.done guard, after)) :
    guard.image = image := by
  obtain ⟨saved, _, -, hrun⟩ := Program.done_of_run_bind hrun
  obtain ⟨_, _, -, hrun⟩ := Program.done_of_run_bind hrun
  cases hrun
  rfl

namespace Session

/-- The operation is a preparation. -/
def Operation.isPreparation : Operation → Bool
  | .prepare _ => true
  | _ => false

/-- The command is a preparation. -/
def Command.isPreparation : Command → Bool
  | .operate operation => operation.isPreparation
  | _ => false

namespace State

variable {κ α : Type} {state : State κ}

section

variable [Kernel κ]

/-- A program that is performed ends in one of three ways. -/
theorem perform_cases (state : State κ) (x : Engine α) (keep : α → State κ → Answer × State κ) :
    (∃ value world, x.run state.world = (.done value, world) ∧
      state.perform x keep = keep value { state with world := world }) ∨
    (∃ error world, x.run state.world = (.failed error, world) ∧
      state.perform x keep = (.failure error, { state with world := world })) ∨
    ∃ world, x.run state.world = (.crashed, world) ∧ state.perform x keep = (.crashed, { state with world := world }) := by
  rcases hrun : x.run state.world with ⟨value | error | _, world⟩
  · exact Or.inl ⟨value, world, rfl, by rw [perform, hrun]⟩
  · exact Or.inr (Or.inl ⟨error, world, rfl, by rw [perform, hrun]⟩)
  · exact Or.inr (Or.inr ⟨world, rfl, by rw [perform, hrun]⟩)

/-- What holds of a state in any world holds behind a program that is performed, if it holds behind what is kept of its value. -/
theorem perform_induction {P : State κ → Prop} {x : Engine α} {keep : α → State κ → Answer × State κ}
    (h : ∀ world, P { state with world := world })
    (hkeep : ∀ value world, x.run state.world = (.done value, world) → P (keep value { state with world := world }).2) :
    P (state.perform x keep).2 := by
  rcases perform_cases state x keep with ⟨value, world, hrun, hperform⟩ | ⟨_, world, -, hperform⟩ | ⟨world, -, hperform⟩
  · rw [hperform]
    exact hkeep value world hrun
  · rw [hperform]
    exact h world
  · rw [hperform]
    exact h world

end

/-! ## Images -/

/-- All images of the session are as `P` says, and so are those behind its guards. -/
structure Keeps (P : Image → Prop) (state : State κ) : Prop where
  images : ∀ image ∈ state.images, P image
  guards : ∀ entry ∈ state.guards, P entry.2.image

variable {P : Image → Prop}

theorem Keeps.withWorld (h : state.Keeps P) (world : World κ) : Keeps P { state with world := world } := ⟨h.images, h.guards⟩

theorem Keeps.image {i : Nat} {image : Image} (h : state.Keeps P) (hi : state.images[i]? = some image) : P image :=
  h.images image (Array.mem_of_getElem? hi)

theorem Keeps.guard {name : String} {guard : Guard} (h : state.Keeps P) (hname : state.guards.get? name = some guard) :
    P guard.image :=
  h.guards _ (Registry.mem_of_get?_eq_some hname)

/-- A guard less, a guard for one of the images, and an image that is as `P` says leave it so. -/
theorem Keeps.erase (h : state.Keeps P) (name : String) : Keeps P { state with guards := state.guards.erase name } :=
  ⟨h.images, fun entry hentry => h.guards entry (Registry.mem_of_mem_erase hentry)⟩

theorem Keeps.put {guard : Guard} (h : state.Keeps P) (hguard : P guard.image) (name : String) :
    Keeps P { state with guards := state.guards.put name guard } := by
  refine ⟨h.images, fun entry hentry => ?_⟩
  rcases Registry.mem_of_mem_put hentry with rfl | hentry
  · exact hguard
  · exact h.guards entry hentry

theorem Keeps.push {image : Image} (h : state.Keeps P) (himage : P image) :
    Keeps P { state with images := state.images.push image } := by
  refine ⟨fun other hother => ?_, h.guards⟩
  rcases Array.mem_push.1 hother with hother | rfl
  · exact h.images other hother
  · exact himage

variable [Kernel κ]

/-- Giving a guard up leaves the images that there are. -/
theorem Keeps.release (h : state.Keeps P) (name : String) (answer : Answer) : (state.release name answer).2.Keeps P := by
  unfold State.release
  split
  · exact h
  · exact perform_induction (h.erase name).withWorld fun _ world _ => (h.erase name).withWorld world

/-- So does keeping a guard for one of them. -/
theorem Keeps.keepGuard {guard : Guard} (h : state.Keeps P) (hguard : P guard.image) (name : String) :
    (state.keepGuard name guard).2.Keeps P := by
  have hmore := h.put hguard name
  rw [State.keepGuard]
  split
  · exact hmore
  · exact perform_induction hmore.withWorld fun _ world _ => hmore.withWorld world

/-- An operation keeps the images, and if it is a preparation the image that it gives joins them. -/
theorem Keeps.operate {operation : Operation} (h : state.Keeps P)
    (hprepare : ∀ config image after, operation = .prepare config →
      (Image.prepare state.host state.attempted (Kernel.imageBase state.world.kernel) (Kernel.pageSize state.world.kernel)
        config).run state.world = (.done image, after) → P image) : (state.operate operation).2.Keeps P := by
  have hworld := h.withWorld
  cases operation with
  | locate base => exact perform_induction hworld fun _ world _ => ⟨h.images, h.guards⟩
  | build source =>
    rw [State.operate]
    split
    · exact h
    · exact perform_induction hworld fun _ world _ => ⟨h.images, h.guards⟩
  | toCopies | toCode => exact h
  | prepare config =>
    have hattempt : ∀ world : World κ, Keeps P { state with attempted := true, world := world } :=
      fun _ => ⟨h.images, h.guards⟩
    exact perform_induction hattempt fun image world hrun => (hattempt world).push (hprepare config image world rfl hrun)
  | patch i target bytes =>
    rw [State.operate]
    split
    · exact h
    · exact perform_induction hworld fun _ world _ => hworld world
  | guard i name target bytes =>
    rw [State.operate]
    split
    · exact h
    · rename_i image hi
      refine perform_induction hworld fun guard world hrun => (hworld world).keepGuard ?_ name
      rw [Image.image_of_guardedPatch hrun]
      exact h.image hi
  | release name => exact h.release name .nothing
  | sweep kind report =>
    refine perform_induction hworld fun result world _ => ?_
    cases result <;> exact ⟨h.images, h.guards⟩

/-! ## Whose code it is, and whether it was attempted -/

/-- The second state changes the same code as the first one, and as many attempts were made. -/
def Alongside (state after : State κ) : Prop := after.host = state.host ∧ after.attempted = state.attempted

theorem Alongside.perform {start : State κ} {x : Engine α} {keep : α → State κ → Answer × State κ} (h : start.Alongside state)
    (hkeep : ∀ value after, start.Alongside after → start.Alongside (keep value after).2) :
    start.Alongside (state.perform x keep).2 :=
  perform_induction (fun _ => h) fun value _ _ => hkeep value _ h

theorem Alongside.release {start : State κ} (h : start.Alongside state) (name : String) (answer : Answer) :
    start.Alongside (state.release name answer).2 := by
  unfold State.release
  split
  · exact h
  · have hless : ∀ guards, start.Alongside { state with guards := guards } := fun _ => h
    exact (hless _).perform fun _ _ h => h

/-- An operation leaves the host, and only a preparation is an attempt. -/
theorem alongside_operate {operation : Operation} (hnot : operation.isPreparation = false) :
    state.Alongside (state.operate operation).2 := by
  have hself : state.Alongside state := ⟨rfl, rfl⟩
  cases operation with
  | prepare => cases hnot
  | locate => exact hself.perform fun _ _ h => h
  | build =>
    rw [State.operate]
    split
    · exact hself
    · exact hself.perform fun _ _ h => h
  | toCopies | toCode => exact hself
  | patch =>
    rw [State.operate]
    split
    · exact hself
    · exact hself.perform fun _ _ h => h
  | guard i name =>
    rw [State.operate]
    split
    · exact hself
    · refine hself.perform fun guard after h => ?_
      have hmore : ∀ guards, state.Alongside { after with guards := guards } := fun _ => h
      rw [keepGuard]
      split
      · exact hmore _
      · exact (hmore _).perform fun _ _ h => h
  | release name => exact hself.release name .nothing
  | sweep => exact hself.perform fun result _ h => by cases result <;> exact h

/-- A preparation leaves the host, and is an attempt. -/
theorem prepare_fields (state : State κ) (config : Config) :
    (state.prepare config).2.host = state.host ∧ (state.prepare config).2.attempted = true :=
  perform_induction (P := fun after => after.host = state.host ∧ after.attempted = true) (fun _ => ⟨rfl, rfl⟩)
    fun _ _ _ => ⟨rfl, rfl⟩

/-! ## What becomes of the kernel -/

section

variable {R : κ → κ → Prop} {kernel : κ}

theorem leads_perform (h : Passage R) {x : Engine α} {keep : α → State κ → Answer × State κ}
    (hstart : R kernel state.world.kernel) (hx : x.Leads R)
    (hkeep : ∀ value after, R kernel after.world.kernel → R kernel (keep value after).2.world.kernel) :
    R kernel (state.perform x keep).2.world.kernel := by
  have hrun := h.trans hstart (hx state.world)
  rcases perform_cases state x keep with ⟨value, world, heq, hperform⟩ | ⟨_, world, heq, hperform⟩ | ⟨world, heq, hperform⟩
  · rw [heq] at hrun
    rw [hperform]
    exact hkeep value { state with world := world } hrun
  all_goals
    rw [heq] at hrun
    rw [hperform]
    exact hrun

theorem leads_release (h : Passage R) (hstart : R kernel state.world.kernel) (name : String) (answer : Answer) :
    R kernel (state.release name answer).2.world.kernel := by
  unfold State.release
  split
  · exact hstart
  · exact leads_perform h hstart h.release fun _ _ => id

theorem leads_keepGuard (h : Passage R) (hstart : R kernel state.world.kernel) (name : String) (guard : Guard) :
    R kernel (state.keepGuard name guard).2.world.kernel := by
  rw [keepGuard]
  split
  · exact hstart
  · exact leads_perform h hstart h.release fun _ _ => id

theorem leads_prepare (h : Passage R) (hstart : R kernel state.world.kernel) (config : Config) :
    R kernel (state.prepare config).2.world.kernel := leads_perform h hstart h.prepare fun _ _ => id

/-- A relation that holds over requests and sweeps holds over every operation. -/
theorem leads_operate (h : Passage R) (hstart : R kernel state.world.kernel) (operation : Operation) :
    R kernel (state.operate operation).2.world.kernel := by
  have hsurvey : ∀ {β : Type} {x : Engine β}, x.Asks Request.OfSurvey → x.Leads R :=
    fun hx => h.asks (hx.mono fun _ => Request.OfSurvey.not_ofThreads)
  cases operation with
  | locate base => exact leads_perform h hstart (hsurvey asks_locate) fun _ _ => id
  | build source =>
    rw [State.operate]
    split
    · exact hstart
    · exact leads_perform h hstart (hsurvey asks_buildShadow) fun _ _ => id
  | toCopies | toCode => exact hstart
  | prepare config => exact leads_prepare h hstart config
  | patch image target bytes =>
    rw [State.operate]
    split
    · exact hstart
    · exact leads_perform h hstart h.patch fun _ _ => id
  | guard image name target bytes =>
    rw [State.operate]
    split
    · exact hstart
    · exact leads_perform h hstart h.guardedPatch fun guard _ hafter => leads_keepGuard h hafter name guard
  | release name => exact leads_release h hstart name .nothing
  | sweep kind report => exact leads_perform h hstart (h.sweep kind _) fun result _ => by cases result <;> exact id

end

end State

end Session

end LivePatch
