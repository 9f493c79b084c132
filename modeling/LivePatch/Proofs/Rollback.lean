import LivePatch.Proofs.Atomicity
import LivePatch.Proofs.Engine.Conduct

/-!
# Guarded patches that fail

A guarded patch that fails gives no guard, so nobody keeps the bytes that it replaced. It leaves the code as it was if its error
comes from before the write. An error from behind the write is handed on without a rollback, and the new bytes stay.
-/

namespace LivePatch

namespace Testbed

variable {bed : Testbed} {image : Image} {target : Address} {n : Nat}

/-- A record leaves the threads and what they refuse as they are. -/
theorem refuses_recorded (bed : Testbed) (call : Call) :
    ({ bed with machine := bed.machine.recorded call } : Testbed).Refuses ↔ bed.Refuses := by
  obtain ⟨machine, script⟩ := bed
  cases script <;> rfl

/-- Reading leaves the threads and what they refuse as they are. -/
theorem refuses_read (bed : Testbed) (a : Address) (n : Nat) : (bed.read a n).2.Refuses ↔ bed.Refuses := by
  have hmachine : (bed.read a n).2 = { bed with machine := bed.machine.recorded (.read a n) } := by
    have hread : (bed.machine.read a n).2 = bed.machine.recorded (.read a n) :=
      Machine.receive_recorded (f := id) (fun _ => rfl) bed.machine _
    exact congrArg (fun machine => ({ bed with machine } : Testbed)) hread
  rw [hmachine]
  exact refuses_recorded bed _

/-- Saving bytes leaves the threads and what they refuse as they are. -/
theorem wp_save_refuses : (image.save target n).wp (fun _ bed' => bed'.Refuses ↔ bed.Refuses) (fun _ _ => True)
    (fun _ => True) bed := by
  rw [Image.save]
  split
  · exact Iff.rfl
  · rw [Program.wp_bind, Program.wp_require]
    refine ⟨fun inside _ => ?_, fun _ => trivial⟩
    split
    · have hread := refuses_read bed target n
      rw [Program.wp_during, Program.wp_request]
      rcases hserve : Kernel.serve (.read target n) bed with ⟨_ | code | saved, bed'⟩
      · trivial
      · trivial
      · have hbed : (bed.read target n).2 = bed' := congrArg (·.2) hserve
        exact hbed ▸ hread
    · rw [Program.wp_bind, Program.wp_require]
      exact ⟨fun _ _ => trivial, fun _ => trivial⟩

end Testbed

/-- The errors of an attempt that ends before its bracket do not come from behind the write. -/
theorem Error.BeforeBracket.not_afterWrite {calledOff : Prop} {error : Error} (h : error.BeforeBracket) :
    ¬ error.AfterWrite calledOff := by
  unfold Error.BeforeBracket at h
  split at h
  · exact id
  · exact id
  · exact h.elim

/-- A guarded patch that fails was made, and failed behind its write; or it was not, and the code is as it was. -/
theorem Image.holds_of_guardedPatch_failed {image : Image} {host : Host} {world after : World Testbed} {target : Address}
    {bytes old : Bytes} {error : Error} (hold : world.kernel.machine.space.Holds image.code old)
    (hrun : (image.guardedPatch host target bytes).run world = (.failed error, after)) :
    (error.AfterWrite (image.config.strictThreads = true ∧ world.kernel.Refuses) ∧
      after.kernel.machine.space.Holds image.code (old.splice (target - image.code.base) bytes)) ∨
    ((error.BeforeBracket ∨ error.BeforeWrite (image.config.strictThreads = true ∧ world.kernel.Refuses)) ∧
      after.kernel.machine.space.Holds image.code old) := by
  have hstill : (image.save target bytes.size).wp (fun _ bed => world.kernel.Still bed) (fun _ bed => world.kernel.Still bed)
      (fun _ => True) world.kernel :=
    Testbed.wp_save (fun _ _ h => h) (fun _ _ h => h) fun _ => trivial
  rcases Program.failed_of_run_bind hrun with hsave | ⟨saved, between, hsave, hrest⟩
  · have hkept := (Program.wp_run_failed hstill hsave).space ▸ hold
    exact Or.inr ⟨Or.inl ((yields_save.of_run hsave rfl).2 _ rfl), hkept⟩
  · have hold' : between.kernel.machine.space.Holds image.code old := (Program.wp_run_done hstill hsave).space ▸ hold
    have hrefuses : between.kernel.Refuses ↔ world.kernel.Refuses := Program.wp_run_done Testbed.wp_save_refuses hsave
    have hwp : (image.patch host target bytes).wp (fun _ _ => True)
        (fun error bed => (error.AfterWrite (image.config.strictThreads = true ∧ between.kernel.Refuses) ∧
            bed.machine.space.Holds image.code (old.splice (target - image.code.base) bytes)) ∨
          ((error.BeforeBracket ∨ error.BeforeWrite (image.config.strictThreads = true ∧ between.kernel.Refuses)) ∧
            bed.machine.space.Holds image.code old))
        (fun _ => True) between.kernel :=
      Testbed.wp_patch hold' (fun _ _ => trivial) (fun _ _ hnew herror => Or.inl ⟨herror, hnew⟩)
        (fun _ _ hkept herror => Or.inr ⟨Or.inr herror, hkept⟩) fun _ => trivial
    rcases Program.failed_of_run_bind hrest with hpatch | ⟨_, _, -, hguard⟩
    · rw [← hrefuses]
      exact Program.wp_run_failed hwp hpatch
    · cases hguard

/-- A guarded patch that fails leaves the code as it was, unless its error comes from behind the write. After such an error the
new bytes are in the code, and no guard keeps the old ones. -/
theorem Image.guardedPatch_failed {image : Image} {host : Host} {world after : World Testbed} {guards : List Guard}
    {target : Address} {bytes : Bytes} {error : Error} (h : image.Reaches host world guards)
    (hrun : (image.guardedPatch host target bytes).run world = (.failed error, after)) :
    ∃ old, image.codeIn world.kernel.machine.space = some old ∧
      (error.AfterWrite (image.config.strictThreads = true ∧ world.kernel.Refuses) →
        image.codeIn after.kernel.machine.space = some (old.splice (target - image.code.base) bytes)) ∧
      (¬ error.AfterWrite (image.config.strictThreads = true ∧ world.kernel.Refuses) →
        (error.BeforeBracket ∨ error.BeforeWrite (image.config.strictThreads = true ∧ world.kernel.Refuses)) ∧
          image.codeIn after.kernel.machine.space = some old) := by
  obtain ⟨⟨old, hold⟩, -⟩ := h.invariant
  refine ⟨old, hold.peek_eq, ?_⟩
  rcases holds_of_guardedPatch_failed hold hrun with ⟨herror, hnew⟩ | ⟨herror, hkept⟩
  · exact ⟨fun _ => hnew.peek_eq, fun hnot => absurd herror hnot⟩
  · have hnot : ¬ error.AfterWrite (image.config.strictThreads = true ∧ world.kernel.Refuses) :=
      herror.elim Error.BeforeBracket.not_afterWrite Error.BeforeWrite.not_afterWrite
    exact ⟨fun h => absurd h hnot, fun _ => ⟨herror, hkept.peek_eq⟩⟩

/-- If its write fails, a guarded patch of the small process leaves the code as it was. -/
theorem Image.guardedPatch_failed_unwritten : ∃ (after : World Testbed) (old : Bytes),
    (Image.threePages {}).Reaches .other (.preparedPages ⟨.write, 0, .failure⟩) [] ∧
      ((Image.threePages {}).guardedPatch .other Space.imageBase #[0xcc]).run (.preparedPages ⟨.write, 0, .failure⟩) =
        (.failed (.ofKernel .writeTarget .failure), after) ∧
      (Image.threePages {}).codeIn Space.preparedPages = some old ∧
      (Image.threePages {}).codeIn after.kernel.machine.space = some old := by
  have hreaches := Image.reaches_preparedPages ⟨.write, 0, .failure⟩
  obtain ⟨after, hrun⟩ := Image.guardedPatch_unwritten
  obtain ⟨old, hold, -, hkept⟩ := Image.guardedPatch_failed hreaches hrun
  exact ⟨after, old, hreaches, hrun, hold, (hkept id).2⟩

/-- If its pages cannot be closed again, a guarded patch of the small process fails, and the code is not what it was. -/
theorem Image.guardedPatch_failed_unsealed_changes : ∃ after : World Testbed,
    (Image.threePages {}).Reaches .other (.preparedPages ⟨.protect, 1, .protectionFailure⟩) [] ∧
      ((Image.threePages {}).guardedPatch .other Space.imageBase #[0xcc]).run
        (.preparedPages ⟨.protect, 1, .protectionFailure⟩) = (.failed (.ofKernel .sealTarget .protectionFailure), after) ∧
      (Image.threePages {}).codeIn after.kernel.machine.space ≠ (Image.threePages {}).codeIn Space.preparedPages := by
  have hreaches := Image.reaches_preparedPages ⟨.protect, 1, .protectionFailure⟩
  obtain ⟨after, hrun⟩ : ∃ after, ((Image.threePages {}).guardedPatch .other Space.imageBase #[0xcc]).run
      (.preparedPages ⟨.protect, 1, .protectionFailure⟩) = (.failed (.ofKernel .sealTarget .protectionFailure), after) :=
    Program.exists_run_eq (by decide +kernel)
  refine ⟨after, hreaches, hrun, ?_⟩
  obtain ⟨⟨old, hold⟩, -⟩ := hreaches.invariant
  rcases holds_of_guardedPatch_failed hold hrun with ⟨-, hnew⟩ | ⟨herror, -⟩
  · -- there was no such byte in the code before
    obtain ⟨m, hm, -, -, rfl, -⟩ := hold.mapping
    have hzero : ∀ m ∈ Space.preparedPages, ∀ b ∈ m.bytes, b = 0 := by
      simp [Space.preparedPages, Space.threePages, Space.update, Mapping.fresh, Mapping.painted, Mapping.threePagesShadow,
        pageBytes]
    intro hsame
    have hbytes := Option.some.inj (hnew.peek_eq.symm.trans (hsame.trans hold.peek_eq))
    have hmem : (0xcc : UInt8) ∈ m.bytes := by
      rw [← hbytes]
      simp [Bytes.splice]
    exact absurd (hzero m hm _ hmem) (by decide)
  · exact (herror.elim id id).elim

end LivePatch
