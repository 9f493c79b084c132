import LivePatch.Proofs.Engine.Overwriting
import LivePatch.Proofs.Engine.Serving

/-!
# Patches are all or nothing

However a prepared image was used before, and whatever failures are ordered, a patch that returns leaves the code region as
it was or with the bytes of the patch in place, and its result says which.
-/

namespace LivePatch

/-- The worlds that a prepared image can get into, and the guards that are alive there. Patches and guards may fail, and
between them everything but the memory may change. -/
inductive Image.Reaches (image : Image) (host : Host) : World Testbed → List Guard → Prop where
  | prepared {attempted : Bool} {imageBase : Address} {pageSize : Nat} {config : Config} {before after : World Testbed}
      (hwf : before.kernel.machine.space.WellFormed) (hs : before.kernel.machine.space.Addressable)
      (hrun : (Image.prepare host attempted imageBase pageSize config).run before = (.done image, after)) :
      Reaches image host after []
  | patched {world after : World Testbed} {guards : List Guard} {target : Address} {bytes : Bytes}
      {outcome : Outcome Error Unit} (h : Reaches image host world guards)
      (hrun : (image.patch host target bytes).run world = (outcome, after)) (hreturns : outcome ≠ .crashed) :
      Reaches image host after guards
  | guarded {world after : World Testbed} {guards : List Guard} {target : Address} {bytes : Bytes} {guard : Guard}
      (h : Reaches image host world guards)
      (hrun : (image.guardedPatch host target bytes).run world = (.done guard, after)) :
      Reaches image host after (guard :: guards)
  | refused {world after : World Testbed} {guards : List Guard} {target : Address} {bytes : Bytes} {error : Error}
      (h : Reaches image host world guards)
      (hrun : (image.guardedPatch host target bytes).run world = (.failed error, after)) :
      Reaches image host after guards
  | released {world after : World Testbed} {guards : List Guard} {guard : Guard} (h : Reaches image host world guards)
      (hguard : guard ∈ guards) (hrun : (guard.release host).run world = (.done (), after)) :
      Reaches image host after (guards.erase guard)
  | changed {world world' : World Testbed} {guards : List Guard} (h : Reaches image host world guards)
      (hspace : world'.kernel.machine.space = world.kernel.machine.space) : Reaches image host world' guards

namespace Testbed

variable {bed : Testbed} {image : Image} {host : Host} {target : Address} {bytes old : Bytes} {E : Error → Testbed → Prop}
  {C : Testbed → Prop}

/-- The code region of the image is there, with whatever bytes. -/
def Backs (bed : Testbed) (image : Image) : Prop := ∃ bytes, bed.machine.space.Holds image.code bytes

/-- Saving bytes only looks. -/
theorem wp_save {n : Nat} {Q : Bytes → Testbed → Prop} (hdone : ∀ saved bed', bed.Still bed' → Q saved bed')
    (hfail : ∀ error bed', bed.Still bed' → E error bed') (hcrash : ∀ bed', C bed') : (image.save target n).wp Q E C bed := by
  rw [Image.save]
  split
  · exact hdone _ bed (Still.refl bed)
  · rw [Program.wp_bind, Program.wp_require]
    refine ⟨fun inside _ => ?_, fun _ => hcrash bed⟩
    split
    · exact wp_read (fun _ saved _ _ bed' h => hdone saved bed' h) (fun code bed' h _ => hfail _ bed' h) fun _ => hcrash
    · rw [Program.wp_bind, Program.wp_require]
      exact ⟨fun error _ => hfail error bed (Still.refl bed), fun _ => hcrash bed⟩

/-- A patch keeps the code region there. -/
theorem Backs.wp_patch (h : bed.Backs image) :
    (image.patch host target bytes).wp (fun _ bed' => bed'.Backs image) (fun _ bed' => bed'.Backs image) (fun _ => True) bed := by
  obtain ⟨old, hold⟩ := h
  exact Testbed.wp_patch hold (fun bed' h => ⟨_, h⟩) (fun error bed' h _ => ⟨_, h⟩) (fun error bed' h _ => ⟨_, h⟩)
    fun _ => trivial

theorem Backs.wp_guardedPatch (h : bed.Backs image) :
    (image.guardedPatch host target bytes).wp (fun guard bed' => bed'.Backs image ∧ guard.image = image)
      (fun _ bed' => bed'.Backs image) (fun _ => True) bed := by
  have hstill : ∀ bed' : Testbed, bed.Still bed' → bed'.Backs image := by
    intro bed' hbed'
    obtain ⟨old, hold⟩ := h
    exact ⟨old, hbed'.space ▸ hold⟩
  rw [Image.guardedPatch, Program.wp_bind]
  refine wp_save (fun saved bed₁ h₁ => ?_) (fun _ bed' h' => hstill bed' h') fun _ => trivial
  rw [Program.wp_bind]
  exact Program.wp_mono (hstill bed₁ h₁).wp_patch (fun _ bed' h' => ⟨h', rfl⟩) (fun _ _ h' => h') fun _ h' => h'

theorem Backs.wp_release {guard : Guard} (h : bed.Backs image) (hguard : guard.image = image) :
    (guard.release host).wp (fun _ bed' => bed'.Backs image) (fun _ bed' => bed'.Backs image) (fun _ => True) bed := by
  rw [Guard.release, hguard, Program.wp_bind, Program.wp_attempt]
  exact Program.wp_mono h.wp_patch (fun _ bed' h' => h') (fun _ bed' h' => h') fun _ h' => h'

end Testbed

namespace Image.Reaches

variable {image : Image} {host : Host} {world after : World Testbed} {guards : List Guard}

/-- A prepared image keeps its code region, and its guards are its own. -/
theorem invariant (h : image.Reaches host world guards) :
    world.kernel.Backs image ∧ ∀ guard ∈ guards, guard.image = image := by
  induction h with
  | @prepared attempted imageBase pageSize config before after hwf hs hrun =>
    have hwp : (Image.prepare host attempted imageBase pageSize config).wp (fun image bed => bed.Backs image)
        (fun _ _ => True) (fun _ => True) before.kernel :=
      Testbed.wp_prepare (fun _ => trivial) <| Testbed.wp_establish hwf hs
        (fun layout code constants data x bed' _ hl hmaps hx hspace =>
          ⟨code.bytes, hspace ▸ hmaps.holds_prepared hwf hs hx⟩)
        (fun _ _ _ _ _ _ => trivial) (fun _ _ _ _ _ _ => trivial) (fun _ _ _ _ _ _ _ _ => trivial) fun _ _ => trivial
    exact ⟨Program.wp_run_done hwp hrun, by simp⟩
  | @patched world after guards target bytes outcome h hrun hreturns ih =>
    refine ⟨?_, ih.2⟩
    rcases outcome with value | error | _
    · exact Program.wp_run_done ih.1.wp_patch hrun
    · exact Program.wp_run_failed ih.1.wp_patch hrun
    · exact absurd rfl hreturns
  | guarded h hrun ih =>
    obtain ⟨hbacks, himage⟩ := Program.wp_run_done ih.1.wp_guardedPatch hrun
    refine ⟨hbacks, fun guard hguard => ?_⟩
    rcases List.mem_cons.1 hguard with rfl | hguard
    · exact himage
    · exact ih.2 guard hguard
  | refused h hrun ih => exact ⟨Program.wp_run_failed ih.1.wp_guardedPatch hrun, ih.2⟩
  | released h hguard hrun ih =>
    refine ⟨Program.wp_run_done (ih.1.wp_release (ih.2 _ hguard)) hrun, fun guard hmem => ?_⟩
    exact ih.2 guard (List.mem_of_mem_erase hmem)
  | changed h hspace ih =>
    obtain ⟨⟨bytes, hold⟩, hguards⟩ := ih
    exact ⟨⟨bytes, hspace ▸ hold⟩, hguards⟩

end Image.Reaches

/-- The small process after it was prepared, with one failure ordered. -/
def World.preparedPages (injection : Injection) : World Testbed :=
  { kernel := { machine := { space := Space.preparedPages, injections := [injection] } } }

theorem Image.reaches_preparedPages (injection : Injection) :
    (Image.threePages {}).Reaches .other (.preparedPages injection) [] := by
  obtain ⟨after, hrun, hspace⟩ := @Testbed.prepare_threePages {} rfl rfl
  exact .changed (.prepared Space.wellFormed_threePages Space.addressable_threePages hrun) hspace.symm

/-- The first byte of the code of the small process can be patched. -/
theorem Image.exists_patched_threePages : ∃ (image : Image) (world after : World Testbed), image.Reaches .other world [] ∧
    (image.patch .other Space.imageBase #[0xcc]).run world = (.done (), after) := by
  obtain ⟨image, world, hprepared, hquiet, -, hcode⟩ := Testbed.exists_prepared_threePages
  obtain ⟨code, hserves⟩ := Program.wp_run_done (Testbed.wp_prepare_serves Space.wellFormed_threePages
    Space.addressable_threePages rfl) hprepared hquiet
  have hin : image.code.Accepts Space.imageBase 1 := hcode ▸ by decide
  have hwp : (image.patch .other Space.imageBase #[0xcc]).wp (fun _ _ => True) (fun _ _ => False) (fun _ => False)
      world.kernel := hserves.wp_patch (fun _ _ _ _ => trivial) fun hout => absurd hin hout
  obtain ⟨_, after, hrun, -⟩ := Program.exists_run_done hwp
  exact ⟨image, world, after, .prepared Space.wellFormed_threePages Space.addressable_threePages hprepared, hrun⟩

/-- In the small process after it was prepared, a patch whose write fails has the error of that step. -/
theorem Image.patch_unwritten : ∃ after, ((Image.threePages {}).patch .other Space.imageBase #[0xcc]).run
    (.preparedPages ⟨.write, 0, .failure⟩) = (.failed (.ofKernel .writeTarget .failure), after) :=
  Program.exists_run_eq (by decide +kernel)

/-- So does one whose pages cannot be closed again. -/
theorem Image.patch_unsealed : ∃ after, ((Image.threePages {}).patch .other Space.imageBase #[0xcc]).run
    (.preparedPages ⟨.protect, 1, .protectionFailure⟩) = (.failed (.ofKernel .sealTarget .protectionFailure), after) :=
  Program.exists_run_eq (by decide +kernel)

/-- A guarded patch whose write fails has the error of the patch. -/
theorem Image.guardedPatch_unwritten : ∃ after, ((Image.threePages {}).guardedPatch .other Space.imageBase #[0xcc]).run
    (.preparedPages ⟨.write, 0, .failure⟩) = (.failed (.ofKernel .writeTarget .failure), after) :=
  Program.exists_run_eq (by decide +kernel)

/-- The bytes of the code region, as a look at the memory shows them. -/
def Image.codeIn (image : Image) (space : Space) : Option Bytes := space.peek image.code.base image.code.size

/-- A patch that returns is made as a whole or not at all, and its result says which of the two. -/
theorem Image.patch_atomic {image : Image} {host : Host} {world after : World Testbed} {guards : List Guard}
    {target : Address} {bytes : Bytes} {outcome : Outcome Error Unit} (h : image.Reaches host world guards)
    (hrun : (image.patch host target bytes).run world = (outcome, after)) (hreturns : outcome ≠ .crashed) :
    ∃ old, image.codeIn world.kernel.machine.space = some old ∧
      (outcome = .done () →
        image.codeIn after.kernel.machine.space = some (old.splice (target - image.code.base) bytes)) ∧
      ∀ error, outcome = .failed error →
        (error.AfterWrite (image.config.strictThreads = true ∧ world.kernel.Refuses) →
          image.codeIn after.kernel.machine.space = some (old.splice (target - image.code.base) bytes)) ∧
        (¬ error.AfterWrite (image.config.strictThreads = true ∧ world.kernel.Refuses) →
          error.BeforeWrite (image.config.strictThreads = true ∧ world.kernel.Refuses) ∧
            image.codeIn after.kernel.machine.space = some old) := by
  obtain ⟨⟨old, hold⟩, -⟩ := h.invariant
  have hwp : (image.patch host target bytes).wp
      (fun _ bed => bed.machine.space.Holds image.code (old.splice (target - image.code.base) bytes))
      (fun error bed =>
        (bed.machine.space.Holds image.code (old.splice (target - image.code.base) bytes) ∧
          error.AfterWrite (image.config.strictThreads = true ∧ world.kernel.Refuses)) ∨
        (bed.machine.space.Holds image.code old ∧
          error.BeforeWrite (image.config.strictThreads = true ∧ world.kernel.Refuses)))
      (fun _ => True) world.kernel :=
    Testbed.wp_patch hold (fun _ h => h) (fun _ _ h herror => Or.inl ⟨h, herror⟩) (fun _ _ h herror => Or.inr ⟨h, herror⟩)
      fun _ => trivial
  refine ⟨old, hold.peek_eq, ?_, ?_⟩
  · rintro rfl
    exact (Program.wp_run_done hwp hrun).peek_eq
  · rintro error rfl
    rcases Program.wp_run_failed hwp hrun with ⟨hnew, herror⟩ | ⟨hkept, herror⟩
    · exact ⟨fun _ => hnew.peek_eq, fun h => absurd herror h⟩
    · exact ⟨fun h => absurd h herror.not_afterWrite, fun _ => ⟨herror, hkept.peek_eq⟩⟩

/-- A patch of the first byte of a small process puts that byte in place if nothing fails on its way, and also if its pages cannot
be closed again. If its write fails, the code is as it was. -/
theorem Image.patch_atomic_first_byte :
    (∃ (image : Image) (world after : World Testbed) (old : Bytes), image.Reaches .other world [] ∧
      (image.patch .other Space.imageBase #[0xcc]).run world = (.done (), after) ∧
      image.codeIn world.kernel.machine.space = some old ∧
      image.codeIn after.kernel.machine.space = some (old.splice (Space.imageBase - image.code.base) #[0xcc])) ∧
    (∃ (after : World Testbed) (old : Bytes),
      ((Image.threePages {}).patch .other Space.imageBase #[0xcc]).run (.preparedPages ⟨.protect, 1, .protectionFailure⟩) =
        (.failed (.ofKernel .sealTarget .protectionFailure), after) ∧
      (Image.threePages {}).codeIn Space.preparedPages = some old ∧
      (Image.threePages {}).codeIn after.kernel.machine.space = some (old.splice 0 #[0xcc])) ∧
    ∃ (after : World Testbed) (old : Bytes),
      ((Image.threePages {}).patch .other Space.imageBase #[0xcc]).run (.preparedPages ⟨.write, 0, .failure⟩) =
        (.failed (.ofKernel .writeTarget .failure), after) ∧
      (Image.threePages {}).codeIn Space.preparedPages = some old ∧
      (Image.threePages {}).codeIn after.kernel.machine.space = some old := by
  refine ⟨?_, ?_, ?_⟩
  · obtain ⟨image, world, after, hreaches, hrun⟩ := Image.exists_patched_threePages
    obtain ⟨old, hold, hdone, -⟩ := Image.patch_atomic hreaches hrun nofun
    exact ⟨image, world, after, old, hreaches, hrun, hold, hdone rfl⟩
  · obtain ⟨after, hrun⟩ := Image.patch_unsealed
    obtain ⟨old, hold, -, hfailed⟩ := Image.patch_atomic (Image.reaches_preparedPages _) hrun nofun
    exact ⟨after, old, hrun, hold, (hfailed _ rfl).1 trivial⟩
  · obtain ⟨after, hrun⟩ := Image.patch_unwritten
    obtain ⟨old, hold, -, hfailed⟩ := Image.patch_atomic (Image.reaches_preparedPages _) hrun nofun
    exact ⟨after, old, hrun, hold, ((hfailed _ rfl).2 id).2⟩

end LivePatch
