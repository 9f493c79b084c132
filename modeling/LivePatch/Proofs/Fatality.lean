import LivePatch.Proofs.Engine.Preparation
import LivePatch.Proofs.Engine.Survey
import LivePatch.Proofs.Simulation.Replay

/-!
# What the error of a failed preparation says

An error of preparing that is not fatal, or that reports a violated layout, comes with every mapping as it was, except that
the code may have been made executable throughout. Any other fatal error comes with the code lost. So code that could be
executed is lost exactly if the error is fatal and does not report the layout.
-/

namespace LivePatch

namespace Space

variable {before after : Space} {base : Address} {code code' : Mapping}

/-- Every mapping is still there, and none was changed but the code, which may have become executable on every page. -/
def KeptIn (before after : Space) (base : Address) : Prop :=
  ∀ m ∈ before, m ∈ after ∨ (before.CodeAt base m ∧ m.painted .readExecute ∈ after)

/-- There is one mapping that holds the code. -/
theorem CodeAt.unique (h : before.WellFormed) (hcode : before.CodeAt base code) (hcode' : before.CodeAt base code') :
    code = code' := by
  obtain ⟨hmem, region, hregion, hbase⟩ := hcode
  obtain ⟨hmem', region', hregion', hbase'⟩ := hcode'
  rw [hregion] at hregion'
  cases hregion'
  exact h.eq_of_base_eq hmem hmem' (hbase.symm.trans hbase')

theorem keptIn_append (x : Mapping) : before.KeptIn (before ++ [x]) base := fun _ hm => Or.inl (List.mem_append_left _ hm)

/-- Recreating the code keeps every mapping. -/
theorem WellFormed.keptIn_recreated (h : before.WellFormed) (hcode : before.CodeAt base code) (x : Mapping) :
    before.KeptIn (before.update (code.painted .readExecute) ++ [x]) base := by
  intro m hm
  by_cases hb : m.base = code.base
  · cases h.eq_of_base_eq hm hcode.1 hb
    exact Or.inr ⟨hcode, List.mem_append_left _ (mem_update_self hm rfl)⟩
  · exact Or.inl (List.mem_append_left _ (mem_update_iff.2 (Or.inr ⟨hm, hb⟩)))

/-- Executable code that was kept is not lost. -/
theorem KeptIn.not_lost (h : before.KeptIn after base) (hwf : before.WellFormed) (hcode : before.CodeAt base code)
    (hexecute : ∀ p ∈ code.pages, p.execute = true) : ¬ after.Lost code := by
  have hcodeWf := hwf.mappings code hcode.1
  rcases h code hcode.1 with hmem | ⟨-, hmem⟩
  · exact not_lost_of_executable hmem (.refl code) hcodeWf hexecute
  · refine not_lost_of_executable hmem (Mapping.sameShape_painted code .readExecute) hcodeWf fun p hp => ?_
    rw [Mapping.mem_pages_painted hp]
    rfl

end Space

/-- What an error of preparing says about the space that it left. -/
structure Error.Tells (error : Error) (before after : Space) (base : Address) : Prop where
  kept : error.isFatal = false → before.KeptIn after base
  untouched : error.ViolatesLayout → after = before
  lost : error.LosesCode → ∃ code, before.CodeAt base code ∧ after.Lost code
  lost_iff : ∀ code, before.CodeAt base code → (∀ p ∈ code.pages, p.execute = true) → (error.LosesCode ↔ after.Lost code)

variable {error : Error} {before after : Space} {base : Address} {code : Mapping}

/-- An error that loses no code tells the truth if every mapping was kept. -/
theorem Error.tells_of_keptIn (hwf : before.WellFormed) (herror : ¬ error.LosesCode) (hkept : before.KeptIn after base)
    (huntouched : error.ViolatesLayout → after = before) : error.Tells before after base where
  kept _ := hkept
  untouched := huntouched
  lost h := absurd h herror
  lost_iff _ hcode hexecute := iff_of_false herror (hkept.not_lost hwf hcode hexecute)

/-- An error that loses the code tells the truth if the code is lost. -/
theorem Error.tells_of_lost (hwf : before.WellFormed) (herror : error.LosesCode) (hcode : before.CodeAt base code)
    (hlost : after.Lost code) : error.Tells before after base where
  kept h := absurd (h.symm.trans herror.1) (by simp)
  untouched h := absurd h herror.2
  lost _ := ⟨code, hcode, hlost⟩
  lost_iff _ hcode' _ := iff_of_true herror (hcode'.unique hwf hcode ▸ hlost)

section

variable {world : World Testbed} {attempted : Bool} {imageBase diverted : Address} {pageSize : Nat} {config : Config}

/-- While a diversion leads away from every mapping, no preparation succeeds. -/
theorem Image.not_prepared_of_diverted {host : Host} {image : Image} {after : World Testbed}
    (hdiversion : world.kernel.machine.diversion = some diverted)
    (haway : ∀ m ∈ world.kernel.machine.space, m.base ≠ diverted) :
    (Image.prepare host attempted imageBase pageSize config).run world ≠ (.done image, after) := by
  intro hrun
  have hserved := Program.served_run hrun nofun
  obtain ⟨code, ahead, behind, hes, hahead⟩ := Config.Prepares.recreated (yields_prepare.of_run hrun rfl)
  rw [hes] at hserved
  obtain ⟨found, hfound, hserved⟩ := hserved
  obtain ⟨unmapped, hunmapped, mapped, hmapped, -⟩ := Program.served_append.1 hserved
  have hregion : world.kernel.machine.space.region (config.imageBase.getD imageBase) = .done code :=
    Testbed.region_of_serve (by rw [hfound])
  obtain ⟨m, hm, hbase, -⟩ := Space.mem_of_region_eq_done hregion
  -- the diversion still waits when the place of the code is asked for
  have hwaits : unmapped.machine.diversion = some diverted := by
    have hserved : Program.Served world.kernel (_ :: ahead) unmapped := ⟨found, hfound, hunmapped⟩
    rw [Testbed.diversion_served hserved (List.forall_mem_cons.2 ⟨nofun, hahead⟩), hdiversion]
  have hplace : code.base = unmapped.machine.diversion.getD code.base := Testbed.eq_of_serve_allocate_fixed (by rw [hmapped])
  rw [hwaits, Option.getD_some] at hplace
  exact haway m hm (hbase.symm.trans hplace)

/-- A preparation that only a diversion keeps from succeeding loses the code. -/
theorem Image.prepare_diverted (hwf : world.kernel.machine.space.WellFormed) (hs : world.kernel.machine.space.Addressable)
    (hquiet : world.kernel.Quiet) (hfeasible : world.kernel.Feasible (config.imageBase.getD imageBase) config)
    (hfits : world.kernel.Fits (config.imageBase.getD imageBase)) (hdiversion : world.kernel.machine.diversion = some diverted)
    (haway : ∀ m ∈ world.kernel.machine.space, m.base ≠ diverted) : ∃ error after,
      (Image.prepare .other attempted imageBase pageSize config).run world = (.failed error, after) ∧ error.LosesCode := by
  have hwp : (Image.prepare .other attempted imageBase pageSize config).wp (fun _ _ => True) (fun error _ => error.LosesCode)
      (fun _ => False) world.kernel := by
    refine Testbed.wp_prepare (fun hhost => absurd rfl hhost) (Testbed.wp_establish_obstructed hwf hs
      (fun _ _ _ _ _ _ _ _ _ _ _ _ _ => trivial) (fun error bed _ _ _ hobstructs => ?_)
      (fun part expected found bed _ hobstructs => ?_) (fun error code bed _ herror _ _ _ => herror) fun h => absurd hfits h)
    · exact absurd (hobstructs rfl hquiet) (hfeasible.not_obstructs hwf)
    · exact absurd (hobstructs hquiet) (hfeasible.not_obstructs hwf)
  rw [Program.wp_iff_run _ world] at hwp
  rcases hrun : (Image.prepare .other attempted imageBase pageSize config).run world with ⟨image | error | _, after⟩
  · exact absurd hrun (not_prepared_of_diverted hdiversion haway)
  · rw [hrun] at hwp
    exact ⟨error, after, rfl, hwp⟩
  · rw [hrun] at hwp
    exact hwp.elim

end

/-- The error of a failed preparation tells the truth about the memory that the preparation left. -/
theorem Image.prepare_failed_tells {host : Host} {attempted : Bool} {imageBase : Address} {pageSize : Nat} {config : Config}
    {world after : World Testbed} (hwf : world.kernel.machine.space.WellFormed)
    (hs : world.kernel.machine.space.Addressable)
    (hrun : (Image.prepare host attempted imageBase pageSize config).run world = (.failed error, after)) :
    error.Tells world.kernel.machine.space after.kernel.machine.space (config.imageBase.getD imageBase) := by
  have hself : world.kernel.machine.space.KeptIn world.kernel.machine.space (config.imageBase.getD imageBase) :=
    fun m hm => Or.inl hm
  have hwp : (Image.prepare host attempted imageBase pageSize config).wp (fun _ _ => True)
      (fun error bed => error.Tells world.kernel.machine.space bed.machine.space (config.imageBase.getD imageBase))
      (fun _ => True) world.kernel := by
    refine Testbed.wp_prepare (fun _ => ?_) (Testbed.wp_establish hwf hs (fun _ _ _ _ _ _ _ _ _ _ _ => trivial)
      (fun error bed _ herror hspace _ => ?_) (fun part expected found bed h _ => ?_)
      (fun error code bed _ herror hcode hlost _ => Error.tells_of_lost hwf herror hcode hlost) fun _ _ => trivial)
    · exact Error.tells_of_keptIn hwf (fun h => nomatch h.1) hself nofun
    · have hnot : ¬ error.LosesCode := fun h => absurd (herror.symm.trans h.1) (by simp)
      have hlayout : ¬ error.ViolatesLayout := by
        rintro ⟨_, _, _, rfl⟩
        cases herror
      refine Error.tells_of_keptIn hwf hnot ?_ fun h => absurd h hlayout
      rcases hspace with h | ⟨x, h⟩ | ⟨code, x, hcode, h⟩
      · rw [h]
        exact hself
      · rw [h]
        exact Space.keptIn_append x
      · rw [h]
        exact hwf.keptIn_recreated hcode x
    · refine Error.tells_of_keptIn hwf (fun h => h.2 ⟨_, _, _, rfl⟩) ?_ fun _ => h.space
      rw [h.space]
      exact hself
  exact Program.wp_run_failed hwp hrun

/-- The small process without memory for its shadow image. -/
def Testbed.crowded : Testbed := { machine := { space := .threePages, injections := [⟨.allocate, 0, .noSpace⟩] } }

/-- The small process whose new code goes to another place. -/
def Testbed.diverted : Testbed := { machine := { space := .threePages, diversion := some 0x200000000 } }

/-- Without memory for its shadow image, a small process keeps every mapping, and preparing it fails with an error that is not
fatal. If its new code goes to another place, the error is fatal and the code is lost. -/
theorem Image.prepare_failed_tells_threePages :
    (∃ error after,
        (Image.prepare .other false Space.imageBase pageBytes {}).run { kernel := Testbed.crowded } = (.failed error, after) ∧
        error.isFatal = false ∧ Space.threePages.KeptIn after.kernel.machine.space Space.imageBase) ∧
      ∃ error after code,
        (Image.prepare .other false Space.imageBase pageBytes {}).run { kernel := Testbed.diverted } = (.failed error, after) ∧
        error.isFatal = true ∧ Space.threePages.CodeAt Space.imageBase code ∧ after.kernel.machine.space.Lost code := by
  have hwf := Space.wellFormed_threePages
  have hs := Space.addressable_threePages
  constructor
  · obtain ⟨after, hrun⟩ : ∃ after, (Image.prepare .other false Space.imageBase pageBytes {}).run { kernel := Testbed.crowded } =
        (.failed (.ofKernel .allocateShadow .noSpace), after) :=
      Program.exists_run_eq (by decide +kernel)
    exact ⟨_, after, hrun, rfl, (Image.prepare_failed_tells hwf hs hrun).kept rfl⟩
  · have hunhindered := Testbed.unhindered_threePages {} rfl
    have hfeasible := hunhindered.feasible hwf hs
    have hfits : Testbed.diverted.Fits Space.imageBase := by
      refine fun code constants data hadjoins => ⟨(hunhindered.fits hwf hs code constants data hadjoins).1, ?_⟩
      rintro diverted ⟨⟩
      rw [(Space.mem_threePages hadjoins.next.mem).2.2.1]
      decide
    have haway : ∀ m ∈ Space.threePages, m.base ≠ 0x200000000 := by decide
    obtain ⟨error, after, hrun, herror⟩ := @Image.prepare_diverted { kernel := Testbed.diverted } false Space.imageBase
      0x200000000 pageBytes {} hwf hs ⟨nofun, nofun⟩ ⟨hfeasible.readable, hfeasible.tolerated⟩ hfits rfl haway
    obtain ⟨code, hcode, hlost⟩ := (Image.prepare_failed_tells hwf hs hrun).lost herror
    exact ⟨error, after, code, hrun, herror.1, hcode, hlost⟩

end LivePatch
