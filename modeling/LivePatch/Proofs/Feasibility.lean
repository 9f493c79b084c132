import LivePatch.Proofs.Engine.Serving

/-!
# When a preparation succeeds

Without failures and diversions that were ordered, a preparation succeeds exactly if it is feasible: three mappings lie back to back
from its base on, all of them can be read, and strict mode does not call it off. Otherwise its error is the first obstacle on the
way, which is met before anything is lost: the only fatal one is a layout that is not as it has to be.
-/

namespace LivePatch

open Program (Asks)

/-! ## Reads that nobody makes -/

namespace Testbed

/-- The test bed without the orders to spoil reads. -/
def unspoilt (bed : Testbed) : Testbed := { bed with distortions := [] }

variable {bed : Testbed} {base : Address} {config : Config} {error : Error}

theorem advance_unspoilt (bed : Testbed) : bed.unspoilt.advance = bed.advance.unspoilt := by
  obtain ⟨machine, script, distortions, pageSize, imageBase⟩ := bed
  cases script <;> rfl

/-- Which reads are to be spoilt makes no difference to other requests. -/
theorem serve_unspoilt {request : Request} (h : ¬ request.IsRead) (bed : Testbed) :
    Kernel.serve request bed.unspoilt = ((Kernel.serve request bed).1, (Kernel.serve request bed).2.unspoilt) := by
  cases request with
  | read => exact absurd trivial h
  | threads =>
    have hserve : Kernel.serve .threads bed.unspoilt =
        bed.unspoilt.advance.following (Machine.serve .threads bed.unspoilt.advance.machine) := rfl
    rw [hserve, advance_unspoilt]
    rfl
  | _ => rfl

/-- Nor does it to programs that read nothing. -/
theorem run_unspoilt {ε α : Type} {x : Program ε α} (hx : x.Asks fun request => ¬ request.IsRead) (world : World Testbed) :
    (x.run { world with kernel := world.kernel.unspoilt }).1 = (x.run world).1 := by
  induction x generalizing world with
  | done | failed | crashed => rfl
  | emit event next ih => exact ih hx { world with journal := world.journal.push event }
  | ask request next ih =>
    rw [Program.run, Program.run, serve_unspoilt hx.1]
    rcases Kernel.serve request world.kernel with ⟨_ | reply, kernel⟩
    · rfl
    · exact ih reply (hx.2 reply) { world with kernel := kernel }

theorem others_unspoilt (bed : Testbed) : bed.unspoilt.others = bed.others := by
  rw [others, others, advance_unspoilt]
  rfl

theorem refuses_unspoilt : bed.unspoilt.Refuses ↔ bed.Refuses := by
  rw [Refuses, Refuses, others_unspoilt]
  rfl

/-- What obstructs a preparation has nothing to do with reads. -/
theorem Obstructs.of_unspoilt (h : bed.unspoilt.Obstructs base config error) : bed.Obstructs base config error := by
  have hrefusal : bed.unspoilt.refusal = bed.refusal := by
    rw [refusal, refusal, others_unspoilt]
    rfl
  cases h with
  | misplaced h => exact .misplaced h
  | unread hadjoins h => exact .unread hadjoins h
  | refused hadjoins hreadable hstrict hrefuses =>
    exact hrefusal ▸ .refused hadjoins hreadable hstrict (refuses_unspoilt.1 hrefuses)

end Testbed

/-! ## Feasible preparations -/

/-- The error of a preparation is no other fatal one than that of the layout. -/
def Error.LeavesCode (error : Error) : Prop := error.isFatal = true → error.ViolatesLayout

/-- Without failures and diversions, a preparation ends as its obstacles say, and none of them costs the process its code. -/
theorem Testbed.wp_prepare_obstructed {bed : Testbed} {attempted : Bool} {imageBase : Address} {pageSize : Nat} {config : Config}
    (hwf : bed.machine.space.WellFormed) (hs : bed.machine.space.Addressable) (hfits : bed.Fits (config.imageBase.getD imageBase))
    (hquiet : bed.Quiet) (hundiverted : bed.machine.diversion = none) :
    (Image.prepare .other attempted imageBase pageSize config).wp (fun _ _ => bed.Feasible (config.imageBase.getD imageBase) config)
      (fun error _ => bed.Obstructs (config.imageBase.getD imageBase) config error ∧ error.LeavesCode) (fun _ => False) bed := by
  refine wp_prepare (fun hhost => absurd rfl hhost) (wp_establish_obstructed hwf hs
    (fun layout code constants data x bed' _ hl hmaps _ _ hreadable htolerated => ?_) (fun error bed' _ herror _ hq => ?_)
    (fun part expected found bed' _ hq => ?_) (fun error code bed' _ _ _ _ hq => absurd hundiverted (hq hquiet))
    fun h => absurd hfits h)
  · exact ⟨⟨code, constants, data, hwf.adjoins_of_locatedIn hs hl hmaps, hreadable⟩, htolerated⟩
  · exact ⟨hq rfl hquiet, fun hfatal => nomatch herror.symm.trans hfatal⟩
  · exact ⟨hq hquiet, fun _ => ⟨part, expected, found, rfl⟩⟩

/-- Without failures and diversions, a preparation of another image does not crash, it succeeds exactly if it is feasible, its error
is the first obstacle, and the code is lost by none. -/
theorem Image.prepare_feasible_iff {attempted : Bool} {imageBase : Address} {pageSize : Nat} {config : Config}
    {world after : World Testbed} {outcome : Outcome Error Image} (hwf : world.kernel.machine.space.WellFormed)
    (hs : world.kernel.machine.space.Addressable)
    (hroom : ∀ code constants data,
      world.kernel.machine.space.Adjoins (config.imageBase.getD imageBase) code constants data →
        world.kernel.machine.space.Room (code.size + constants.size + data.size))
    (hinjections : ∀ injection ∈ world.kernel.machine.injections,
      injection.index < world.kernel.machine.counts injection.kind)
    (hundiverted : world.kernel.machine.diversion = none)
    (hrun : (Image.prepare .other attempted imageBase pageSize config).run world = (outcome, after)) :
    outcome ≠ .crashed ∧
      ((∃ image, outcome = .done image) ↔ world.kernel.Feasible (config.imageBase.getD imageBase) config) ∧
      ∀ error, (outcome = .failed error ↔ world.kernel.Obstructs (config.imageBase.getD imageBase) config error) ∧
        (outcome = .failed error → error.LeavesCode) := by
  have hfits : world.kernel.unspoilt.Fits (config.imageBase.getD imageBase) := by
    refine fun code constants data hadjoins => ⟨hroom code constants data hadjoins, fun diverted hdiverted => ?_⟩
    exact nomatch hundiverted.symm.trans hdiverted
  -- a preparation reads nothing, so it ends as it does without orders to spoil reads
  have hreads : (Image.prepare .other attempted imageBase pageSize config).Asks fun request => ¬ request.IsRead := by
    refine asks_prepare (fun request h hread => ?_) (fun kind request h hread => ?_) (fun _ _ => id) fun _ _ => id
    · cases request with
      | read => exact h
      | _ => exact hread
    · cases request with
      | read => exact h
      | _ => exact hread
  have hsame := Testbed.run_unspoilt hreads world
  have hwp := @Testbed.wp_prepare_obstructed world.kernel.unspoilt attempted imageBase pageSize config hwf hs hfits
    ⟨hinjections, nofun⟩ hundiverted
  rw [hrun] at hsame
  rw [Program.wp_iff_run _ { world with kernel := world.kernel.unspoilt }] at hwp
  rcases hplain : (Image.prepare .other attempted imageBase pageSize config).run
    { world with kernel := world.kernel.unspoilt } with ⟨image | error | _, after'⟩
  all_goals
    rw [hplain] at hsame hwp
    cases hsame
  · have hfeasible : world.kernel.Feasible (config.imageBase.getD imageBase) config :=
      ⟨hwp.readable, fun h => hwp.tolerated (h.imp_right Testbed.refuses_unspoilt.2)⟩
    refine ⟨nofun, iff_of_true ⟨image, rfl⟩ hfeasible, fun error => ⟨?_, nofun⟩⟩
    exact iff_of_false nofun (hfeasible.not_obstructs hwf)
  · have hobstructs := hwp.1.of_unspoilt
    refine ⟨nofun, ?_, fun error' => ⟨⟨?_, fun h => ?_⟩, ?_⟩⟩
    · exact iff_of_false nofun fun h => h.not_obstructs hwf hobstructs
    · rintro ⟨⟩
      exact hobstructs
    · rw [hobstructs.unique hwf h]
    · rintro ⟨⟩
      exact hwp.2
  · exact hwp.elim

/-- The small process, with two other threads, of which one cannot be suspended. -/
def Testbed.reluctant : Testbed := { machine := { space := .threePages, threads := [1, 2, 3], suspendRefusals := [3] } }

/-- One of two other threads keeps a small process from being prepared in strict mode, and in no other. -/
theorem Image.prepare_feasible_iff_reluctant :
    (∃ image after, (Image.prepare .other false Space.imageBase pageBytes {}).run { kernel := Testbed.reluctant } =
      (.done image, after)) ∧
    ∃ after, (Image.prepare .other false Space.imageBase pageBytes { strictThreads := true }).run
        { kernel := Testbed.reluctant } = (.failed (.partialSuspension 1 2), after) := by
  have hwf := Space.wellFormed_threePages
  have hs := Space.addressable_threePages
  have hunhindered := Testbed.unhindered_threePages {} rfl
  have hroom : ∀ code constants data, Space.threePages.Adjoins Space.imageBase code constants data →
      Space.threePages.Room (code.size + constants.size + data.size) :=
    fun code constants data hadjoins => (hunhindered.fits hwf hs code constants data hadjoins).1
  obtain ⟨code, constants, data, hadjoins, hreadable⟩ := (hunhindered.feasible hwf hs).readable
  constructor
  · rcases hrun : (Image.prepare .other false Space.imageBase pageBytes {}).run { kernel := Testbed.reluctant } with
      ⟨outcome, after⟩
    have hends := Image.prepare_feasible_iff hwf hs hroom (List.forall_mem_nil _) rfl hrun
    have hfeasible : Testbed.reluctant.Feasible Space.imageBase {} := ⟨⟨code, constants, data, hadjoins, hreadable⟩, nofun⟩
    obtain ⟨image, rfl⟩ := hends.2.1.2 hfeasible
    exact ⟨image, after, rfl⟩
  · rcases hrun : (Image.prepare .other false Space.imageBase pageBytes { strictThreads := true }).run
      { kernel := Testbed.reluctant } with ⟨outcome, after⟩
    have hends := Image.prepare_feasible_iff hwf hs hroom (List.forall_mem_nil _) rfl hrun
    have hobstructs : Testbed.reluctant.Obstructs Space.imageBase { strictThreads := true } (.partialSuspension 1 2) :=
      .refused hadjoins hreadable rfl ⟨3, by decide, by decide⟩
    exact ⟨after, by rw [← (hends.2.2 _).1.2 hobstructs]⟩

end LivePatch
