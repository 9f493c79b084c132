import LivePatch.Proofs.Engine.Survey
import LivePatch.Proofs.Establishment
import LivePatch.Proofs.Simulation.Replay

/-!
# What an image tells of its code

An image tells of its code what the kernel reported before the code was recreated, and recreating gives the code another protection.
So base and size are those of the code that is mapped now, and the protection is so exactly if the code was reported as readable and
executable when it was found. Nothing renews what was kept.
-/

namespace LivePatch

open Program (Served served_append)

/-- The image keeps the region that was found from `base` on in the memory `before`; the kernel now reports the same region, but always
readable and executable. -/
structure Image.Recalls (image : Image) (base : Address) (before : Space) (bed : Testbed) : Prop where
  found : before.region base = .done image.code
  shared : image.shadow.code = image.code
  /-- What the kernel reports now, unless the query is made to fail. -/
  reported : bed.machine.injected? .region = none →
    (Kernel.serve (.region image.code.base) bed).1 = some (.ok { image.code with protection := .readExecute })
  /-- The image tells what the kernel reports exactly if the code was readable and executable when it was found. -/
  current_iff : bed.machine.injected? .region = none →
    ((Kernel.serve (.region image.code.base) bed).1 = some (.ok image.code) ↔ image.code.protection = .readExecute)

/-- A process is prepared only if all its memory ends at addresses: the shadow image goes behind all of it. -/
theorem Testbed.addressable_of_prepare {host : Host} {attempted : Bool} {imageBase : Address} {pageSize : Nat} {config : Config}
    {world after : World Testbed} {image : Image}
    (hrun : (Image.prepare host attempted imageBase pageSize config).run world = (.done image, after)) :
    world.kernel.machine.space.Addressable := by
  have hprepares := yields_prepare.of_run hrun rfl
  have hserved := Program.served_run hrun nofun
  generalize (Image.prepare host attempted imageBase pageSize config).exchanges world.kernel = es at hprepares hserved
  cases hprepares with
  | prepared hsurvey =>
    cases hsurvey with
    | @built layout hjoined shadow =>
      -- the three queries leave the memory as it is, and the call behind them maps the shadow image
      rw [List.append_assoc] at hserved
      obtain ⟨located, hlocated, hbuilding⟩ := served_append.1 hserved
      obtain ⟨next, hserve, -⟩ := hbuilding
      have hspace : located.machine.space = world.kernel.machine.space :=
        (Testbed.evolves_served hlocated).eq_of_idle (by simp [Layout.locating, Request.Idle])
      obtain ⟨rounded, -, hallocate⟩ := Testbed.allocate_of_serve (by rw [hserve])
      rw [← hspace]
      exact Space.addressable_of_place (Space.allocate_eq_done_iff.1 hallocate).1

/-- The kernel reports a mapping that can be executed on all its pages as such. -/
theorem Space.WellFormed.region_painted {space : Space} {m : Mapping} {p : Protection} (h : space.WellFormed)
    (hs : space.Addressable) (hm : m.painted p ∈ space) : space.region m.base = .done ⟨m.base, m.size, p⟩ := by
  obtain ⟨q, hpage, hregion⟩ := h.region_of_next hs (h.next_base hm)
  have hq : q = p := Mapping.mem_pages_painted (Array.mem_of_getElem? hpage)
  rw [hq] at hregion
  exact hregion

/-- The image of a preparation that succeeds keeps the code as it was found, and the code that is mapped then is the same but readable
and executable. -/
theorem Image.region_of_prepare {host : Host} {attempted : Bool} {imageBase : Address} {pageSize : Nat} {config : Config}
    {world after : World Testbed} {image : Image} (hwf : world.kernel.machine.space.WellFormed)
    (hrun : (Image.prepare host attempted imageBase pageSize config).run world = (.done image, after)) :
    world.kernel.machine.space.region (config.imageBase.getD imageBase) = .done image.code ∧ image.shadow.code = image.code ∧
      after.kernel.machine.space.region image.code.base = .done { image.code with protection := .readExecute } := by
  have hs := Testbed.addressable_of_prepare hrun
  have hwp : (Image.prepare host attempted imageBase pageSize config).wp
      (fun image bed => world.kernel.machine.space.region (config.imageBase.getD imageBase) = .done image.code ∧
        image.shadow.code = image.code ∧
        bed.machine.space.region image.code.base = .done { image.code with protection := .readExecute })
      (fun _ _ => True) (fun _ => True) world.kernel := by
    refine Testbed.wp_prepare (fun _ => trivial) (Testbed.wp_establish hwf hs
      (fun layout code constants data x bed' _ hl hmaps hx hspace => ⟨hl.code, rfl, ?_⟩) (fun _ _ _ _ _ _ => trivial)
      (fun _ _ _ _ _ _ => trivial) (fun _ _ _ _ _ _ _ _ => trivial) fun _ _ => trivial)
    obtain ⟨hwf', hs'⟩ := hx.prepared hwf hs hmaps.code_mem
    have hpainted : code.painted .readExecute ∈ world.kernel.machine.space.update (code.painted .readExecute) ++ [x] :=
      List.mem_append_left [x] (Space.mem_update_self hmaps.code_mem rfl)
    rw [hspace, hmaps.code_base, hwf'.region_painted hs' hpainted, ← hmaps.code_base, ← hmaps.code_size]
  exact Program.wp_run_done hwp hrun

/-- Whatever the settings, the threads and the failures were, an image tells of its code what was found; of what is mapped now that is
the base and the size, and the protection only if the code was readable and executable before. -/
theorem Image.prepare_recalls {host : Host} {attempted : Bool} {imageBase : Address} {pageSize : Nat} {config : Config}
    {world after : World Testbed} {image : Image} (hwf : world.kernel.machine.space.WellFormed)
    (hrun : (Image.prepare host attempted imageBase pageSize config).run world = (.done image, after)) :
    image.Recalls (config.imageBase.getD imageBase) world.kernel.machine.space after.kernel := by
  obtain ⟨hfound, hshared, hregion⟩ := Image.region_of_prepare hwf hrun
  have hreported : after.kernel.machine.injected? .region = none →
      (Kernel.serve (.region image.code.base) after.kernel).1 = some (.ok { image.code with protection := .readExecute }) := by
    intro hquiet
    rw [Testbed.serve_region hquiet, hregion]
    rfl
  refine ⟨hfound, hshared, hreported, fun hquiet => ?_⟩
  rw [hreported hquiet]
  constructor
  · intro hsame
    injection hsame with hsame
    injection hsame with hsame
    rw [← hsame]
  · intro hprotection
    rw [← hprotection]

/-- The image of the small process keeps what was found there. -/
theorem Image.prepare_recalls_threePages : ∃ after,
    (Image.prepare .other false Space.imageBase pageBytes {}).run { kernel := .threePages } = (.done (.threePages {}), after) ∧
      Space.WellFormed Space.threePages ∧ (Image.threePages {}).Recalls Space.imageBase Space.threePages after.kernel := by
  obtain ⟨after, hrun, -⟩ := @Testbed.prepare_threePages {} rfl rfl
  exact ⟨after, hrun, Space.wellFormed_threePages, Image.prepare_recalls Space.wellFormed_threePages hrun⟩

/-- The code of the small process was readable and writable. So its image still tells, while the kernel reports that the code is readable
and executable. -/
theorem Image.prepare_outdated_threePages : Space.WellFormed Space.threePages ∧ ∃ image after,
    (Image.prepare .other false Space.imageBase pageBytes {}).run { kernel := Testbed.threePages } = (.done image, after) ∧
      after.kernel.machine.injected? .region = none ∧ image.code = ⟨Space.imageBase, pageBytes, .readWrite⟩ ∧
      (Kernel.serve (.region image.code.base) after.kernel).1 = some (.ok ⟨Space.imageBase, pageBytes, .readExecute⟩) := by
  obtain ⟨image, after, hrun, hquiet, -, hcode⟩ := Testbed.exists_prepared_threePages
  have hinjected := hquiet.injected?_eq_none .region
  obtain ⟨-, -, hregion⟩ := Image.region_of_prepare Space.wellFormed_threePages hrun
  refine ⟨Space.wellFormed_threePages, image, after, hrun, hinjected, hcode, ?_⟩
  rw [Testbed.serve_region hinjected, hregion, hcode]
  rfl

end LivePatch
