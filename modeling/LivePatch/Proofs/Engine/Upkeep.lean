import LivePatch.Proofs.Confinement
import LivePatch.Proofs.Engine.Completion
import LivePatch.Proofs.Engine.Survey
import LivePatch.Proofs.Simulation.Upkeep

/-!
# Operations that keep a test bed in order

On a test bed that is in order, locating, preparing and patching come to an end, and leave the test bed in order however they end.
A preparation needs room for its shadow image and, if its allocation at a fixed address is diverted, room there; both only if it gets
so far.
-/

namespace LivePatch

open Program (request Answered asks_request asks_ofOutcome asks_require_bind)

/-- On this test bed the program ends with a value or with an error, and leaves the test bed in order. -/
def Program.Safe {ε α : Type} (x : Program ε α) (bed : Testbed) : Prop :=
  x.wp (fun _ bed' => bed'.InOrder 0) (fun _ bed' => bed'.InOrder 0) (fun _ => False) bed

/-- If a layout is found from the base, and no failure is ordered for the allocation that follows, there is room for the shadow image
behind all mappings, and the code would end at an address where an allocation is diverted to. -/
def World.Affords (world : World Testbed) (base : Address) : Prop :=
  ∀ layout located, (locate base).run world = (.done layout, located) →
    located.kernel.machine.injected? .allocate = none →
      world.kernel.machine.space.Room layout.extent ∧
        ∀ diverted ∈ world.kernel.machine.diversion, diverted + layout.code.size < Word.count

namespace Program

variable {ε α β : Type} {P : Request → Prop}

/-- A sequence asks for what its second part asks for behind the values that the first part can have. -/
theorem Asks.bind_yields {x : Program ε α} {f : α → Program ε β} (h : x.Asks P)
    (hf : x.Yields fun result _ => ∀ value, result = .ok value → (f value).Asks P) : (x >>= f).Asks P := by
  induction x with
  | done value => exact hf value rfl
  | failed | crashed => trivial
  | emit event next ih => exact ih h hf
  | ask request next ih => exact ⟨h.1, fun reply => ih reply (h.2 reply) (hf reply)⟩

/-- A safe program does not crash, and leaves the test bed in order. -/
theorem Safe.run {x : Program ε α} {world : World Testbed} (h : x.Safe world.kernel) :
    (x.run world).1 ≠ .crashed ∧ (x.run world).2.kernel.InOrder 0 := by
  rw [Safe, wp_iff_run] at h
  rcases hrun : x.run world with ⟨value | error | _, after⟩
  · rw [hrun] at h
    exact ⟨nofun, h⟩
  · rw [hrun] at h
    exact ⟨nofun, h⟩
  · rw [hrun] at h
    exact h.elim

end Program

theorem Request.OfSweep.careful {kind : ThreadRequest} {request : Request} {n : Nat} (h : request.OfSweep kind) :
    request.Careful n := by
  cases request with
  | allocate => exact h.elim
  | _ => trivial

theorem Request.Within.careful {region : Region} {request : Request} {n : Nat} (h : request.Within region) :
    request.Careful n := by
  cases request with
  | allocate => exact h.elim
  | _ => trivial

namespace Testbed

variable {bed : Testbed} {n : Nat} {ε α : Type}

theorem InOrder.still {bed' : Testbed} (h : bed.InOrder n) (h' : bed.Still bed') : bed'.InOrder n :=
  h.follows h'.toFollows (h'.space ▸ ⟨h.wellFormed, h.addressable⟩)

/-- A program that asks with care keeps the test bed in order, however it ends. -/
theorem InOrder.wp_careful {x : Program ε α} {Q : α → Testbed → Prop} {E : ε → Testbed → Prop} {C : Testbed → Prop}
    (h : bed.InOrder n) (hx : x.Asks (Request.Careful n))
    (hwp : x.wp (fun value bed' => bed'.InOrder n → Q value bed') (fun error bed' => bed'.InOrder n → E error bed') C bed) :
    x.wp Q E C bed :=
  hx.wp (fun _ _ hcareful hbed => InOrder.serve hbed hcareful) h hwp

/-- A program that asks with care and comes to an end is safe. -/
theorem InOrder.safe {x : Program ε α} (h : bed.InOrder 0) (hx : x.Asks (Request.Careful 0))
    (hreturns : x.wp (fun _ _ => True) (fun _ _ => True) (fun _ => False) bed) : x.Safe bed :=
  h.wp_careful hx (Program.wp_mono hreturns (fun _ _ _ => id) (fun _ _ _ => id) fun _ => id)

/-! ## Locating and patching -/

/-- Locating finds three mappings back to back, or fails, and leaves the memory alone. -/
theorem InOrder.wp_locate_found {base : Address} (h : bed.InOrder n) :
    (locate base).wp (fun layout bed' => bed.Still bed' ∧ ∃ code constants data,
        layout.Maps bed.machine.space code constants data ∧ bed.machine.space.Adjoins base code constants data)
      (fun _ bed' => bed.Still bed') (fun _ => False) bed :=
  wp_locate h.wellFormed h.addressable
    (fun _ code constants data _ _ hmaps hadjoins h' => ⟨h', code, constants, data, hmaps, hadjoins⟩) fun _ _ h' _ _ => h'

theorem InOrder.safe_locate (h : bed.InOrder 0) (base : Address) : (locate base).Safe bed :=
  Program.wp_mono h.wp_locate_found (fun _ _ h' => h.still h'.1) (fun _ _ h' => h.still h') fun _ => id

section

variable {image : Image} {host : Host} {target : Address} {bytes : Bytes}

theorem InOrder.safe_patch (h : bed.InOrder 0) (hbounded : image.Bounded) : (image.patch host target bytes).Safe bed :=
  h.safe (asks_patch.mono fun _ hwithin => hwithin.careful) (wp_patch_returns h.wellFormed h.addressable hbounded)

theorem InOrder.safe_guardedPatch (h : bed.InOrder 0) (hbounded : image.Bounded) :
    (image.guardedPatch host target bytes).Safe bed :=
  h.safe ((Image.Attempts.guarded target bytes).asks.mono fun _ hwithin => hwithin.careful)
    (wp_attempts_returns (.guarded target bytes) h.wellFormed h.addressable hbounded)

theorem InOrder.safe_release {guard : Guard} (h : bed.InOrder 0) (hbounded : guard.image.Bounded) :
    (guard.release host).Safe bed := by
  rw [Program.Safe, Guard.release, Program.wp_bind, Program.wp_attempt]
  exact h.safe_patch hbounded

end

/-! ## Preparing -/

section

variable {host : Host} {attempted : Bool} {imageBase : Address} {pageSize : Nat} {config : Config}

/-- Code that is found is whole pages, and some, and it ends at an address. -/
theorem InOrder.careful_code {layout : Layout} {code constants data : Mapping} (h : bed.InOrder 0)
    (hmaps : layout.Maps bed.machine.space code constants data) :
    (Request.allocate (.fixed layout.code.base) layout.code.size).Careful layout.code.size := by
  have hcode := h.wellFormed.mappings code hmaps.code_mem
  have hend := h.addressable code hmaps.code_mem
  have hpos := hcode.base_lt_stop
  rw [hmaps.code_base, hmaps.code_size]
  rw [Mapping.stop] at hend hpos
  exact ⟨rfl, by lia, hcode.size_eq ▸ Nat.mul_mod_left _ _, hcode.aligned, hend⟩

/-- If a diverted allocation has room for the code, a preparation leaves the test bed in order, provided that it comes to an end. -/
theorem InOrder.wp_establish (h : bed.InOrder 0)
    (hdiversion : ∀ code constants data, bed.machine.space.Adjoins (config.imageBase.getD imageBase) code constants data →
      ∀ diverted ∈ bed.machine.diversion, diverted + code.size < Word.count) :
    (Image.establish host imageBase pageSize config).wp (fun _ bed' => bed'.InOrder 0) (fun _ bed' => bed'.InOrder 0)
      (fun _ => True) bed := by
  rw [Image.establish, Program.wp_bind]
  refine Program.wp_mono h.wp_locate_found ?_ (fun _ _ h₁ => h.still h₁) fun _ _ => trivial
  rintro layout bed₁ ⟨h₁, code, constants, data, hmaps, hadjoins⟩
  have hcareful := h.careful_code hmaps
  have horder : bed.InOrder layout.code.size := by
    refine ⟨h.wellFormed, h.addressable, fun diverted hdiverted => ⟨(h.diversion diverted hdiverted).1, ?_⟩⟩
    rw [hmaps.code_size]
    exact hdiversion code constants data hadjoins diverted hdiverted
  refine (horder.still h₁).wp_careful ?_
    (Program.wp_always (fun _ _ h' => h'.mono (Nat.zero_le _)) (fun _ _ h' => h'.mono (Nat.zero_le _)) fun _ => trivial)
  refine asks_ofOutcome.bind fun _ => asks_ofOutcome.bind fun _ => ?_
  -- the shadow image has the bytes of the code at least
  refine (asks_buildShadow_of (fun size hsize => ?_) (fun _ _ _ => trivial) (fun _ _ _ => trivial) fun _ _ => trivial).bind_yields
    ((yields_buildShadow layout).mono fun result _ hbuilt shadow hresult => ?_)
  · have hpos := hcareful.2.1
    rw [Layout.size_eq_some hsize, Layout.extent]
    change 0 < _
    lia
  · subst hresult
    obtain ⟨base, rfl, -⟩ := hbuilt
    refine (asks_runRoutine (fun _ _ hsweep => hsweep.careful) (asks_replaceCode trivial hcareful (fun _ => trivial) trivial)).bind
      fun _ => ?_
    exact Program.Asks.bind (asks_request.2 trivial) fun _ => asks_require_bind fun _ _ => trivial

/-- With room for the shadow image and for the code a preparation is safe. -/
theorem InOrder.safe_establish_of_fits (h : bed.InOrder 0) (hfits : bed.Fits (config.imageBase.getD imageBase)) :
    (Image.establish host imageBase pageSize config).Safe bed := by
  have horder : (Image.establish host imageBase pageSize config).wp (fun _ bed' => bed'.InOrder 0) (fun _ bed' => bed'.InOrder 0)
      (fun _ => True) bed := h.wp_establish fun code constants data hadjoins => (hfits code constants data hadjoins).2
  have hreturns : (Image.establish host imageBase pageSize config).wp (fun _ _ => True) (fun _ _ => True) (fun _ => False) bed :=
    wp_establish_obstructed h.wellFormed h.addressable (fun _ _ _ _ _ _ _ _ _ _ _ _ _ => trivial)
      (fun _ _ _ _ _ _ => trivial) (fun _ _ _ _ _ _ => trivial) (fun _ _ _ _ _ _ _ _ => trivial) fun hn => absurd hfits hn
  exact Program.wp_mono (Program.wp_and horder hreturns) (fun _ _ => And.left) (fun _ _ => And.left) fun _ => And.right

/-- If a failure is ordered for the next allocation, no shadow image is built, and the memory stays as it is. -/
theorem wp_buildShadow_refused {layout : Layout} {size : Nat} {code : KernelCode} {Q : Shadow → Testbed → Prop}
    {E : Error → Testbed → Prop} {C : Testbed → Prop} (hsize : layout.size = some size)
    (hinjected : bed.machine.injected? .allocate = some code)
    (hfail : ∀ bed', bed.Still bed' → E (.ofKernel .allocateShadow code) bed') : (buildShadow layout).wp Q E C bed := by
  have hserve : ∀ (Q : Except KernelCode Address → Testbed → Prop) (E : Error → Testbed → Prop) C,
      (request (.allocate .anywhere size)).wp Q E C bed ↔
        Answered (bed.following (Machine.reply (bed.machine.allocate .anywhere size))) Q C := fun _ _ _ => Iff.rfl
  have hallocate : bed.machine.allocate .anywhere size = (.failed code, bed.machine.recorded (.allocate .anywhere size)) :=
    Machine.receive_of_injected hinjected
  rw [buildShadow, hsize, Program.require_some, Program.done_bind, Program.wp_bind, Program.wp_during, hserve, hallocate]
  exact hfail _ (still_recorded bed _)

/-- What the test bed affords fits, unless the allocation of the shadow image is bound to fail. -/
theorem InOrder.wp_locate_affords {world : World Testbed} {base : Address} (h : world.kernel.InOrder 0)
    (hafford : world.Affords base) (hfits : ¬ world.kernel.Fits base) :
    (locate base).wp (fun layout bed' => world.kernel.Still bed' ∧
        ∃ size code, layout.size = some size ∧ bed'.machine.injected? .allocate = some code)
      (fun _ bed' => world.kernel.Still bed') (fun _ => False) world.kernel := by
  have hlocate : (locate base).wp (fun layout bed' => bed'.machine.injected? .allocate = none →
      world.kernel.machine.space.Room layout.extent ∧
        ∀ diverted ∈ world.kernel.machine.diversion, diverted + layout.code.size < Word.count)
      (fun _ _ => True) (fun _ => True) world.kernel := by
    rw [Program.wp_iff_run _ world]
    rcases hrun : (locate base).run world with ⟨layout | error | _, located⟩
    · exact hafford layout located hrun
    · trivial
    · trivial
  refine Program.wp_mono (Program.wp_and hlocate h.wp_locate_found) ?_ (fun _ _ => And.right) fun _ => And.right
  rintro layout bed₁ ⟨hroom, h₁, code, constants, data, hmaps, hadjoins⟩
  -- without a failure to come, all would fit
  have hinjected : bed₁.machine.injected? .allocate ≠ none := by
    intro hnone
    refine hfits fun code' constants' data' hadjoins' => ?_
    obtain ⟨rfl, rfl, rfl⟩ := hadjoins.unique h.wellFormed hadjoins'
    have hafforded := hroom hnone
    rw [Layout.extent, hmaps.code_size, hmaps.constants_size, hmaps.data_size] at hafforded
    exact hafforded
  obtain ⟨cause, hcause⟩ := Option.ne_none_iff_exists'.1 hinjected
  exact ⟨h₁, _, cause, hmaps.size_eq, hcause⟩

/-- A preparation is safe if the test bed affords it: what is there to be found fits, or the shadow image is not even begun. -/
theorem InOrder.safe_prepare {world : World Testbed} (h : world.kernel.InOrder 0) (hhost : host = .other)
    (hafford : world.Affords (config.imageBase.getD imageBase)) :
    (Image.prepare host attempted imageBase pageSize config).Safe world.kernel := by
  refine wp_prepare (fun hown => absurd hhost hown) ?_
  by_cases hfits : world.kernel.Fits (config.imageBase.getD imageBase)
  · exact h.safe_establish_of_fits hfits
  · subst hhost
    rw [Image.establish, Program.wp_bind]
    refine Program.wp_mono (h.wp_locate_affords hafford hfits) ?_ (fun _ _ h₁ => h.still h₁) fun _ => id
    rintro layout bed₁ ⟨h₁, size, code, hsize, hcode⟩
    -- another image has its routines anywhere
    change Program.wp (buildShadow layout >>= _) _ _ _ bed₁
    rw [Program.wp_bind]
    exact wp_buildShadow_refused hsize hcode fun bed₂ h₂ => h.still (h₁.trans h₂)

end

end Testbed

end LivePatch
