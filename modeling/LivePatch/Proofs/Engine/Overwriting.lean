import LivePatch.Engine.Image
import LivePatch.Proofs.Engine.Bracket
import LivePatch.Proofs.Space.Contents

/-!
# Overwriting code

Whatever fails while a patch is made, the code region holds what it held before or that with the patch in its place, and the
error says which: the write is the only request that changes bytes, and each error stands for one point before or behind it.
Only a failed list for resuming can come from both sides; it comes from before the write if strict mode called the patch off.
-/

namespace LivePatch

open Program (request)

/-! ## Errors on both sides of the write -/

/-- The errors of a patch that come after its bytes were written, if strict mode calls the patch off or not. -/
def Error.AfterWrite (calledOff : Prop) : Error → Prop
  | .verificationFailed _ | .kernelFailed _ .sealTarget _ | .kernelFailed _ .verifyTarget _ => True
  | .kernelFailed _ .resumeThreads _ => ¬ calledOff
  | _ => False

/-- The errors of a patch that come before its bytes were written. -/
def Error.BeforeWrite (calledOff : Prop) : Error → Prop
  | .outOfRange .. | .kernelFailed _ .suspendThreads _ | .kernelFailed _ .unlockTarget _ | .kernelFailed _ .writeTarget _
  | .routineOutsideImage _ => True
  | .kernelFailed _ .resumeThreads _ | .partialSuspension .. => calledOff
  | _ => False

/-- No error comes from both sides of the write. -/
theorem Error.BeforeWrite.not_afterWrite {calledOff : Prop} {error : Error} (h : error.BeforeWrite calledOff) :
    ¬ error.AfterWrite calledOff := by
  intro hafter
  unfold Error.BeforeWrite at h
  split at h
  · exact hafter
  · exact hafter
  · exact hafter
  · exact hafter
  · exact hafter
  · exact hafter h
  · exact hafter
  · exact h

/-- An error from before a change comes from before the write. -/
theorem Error.BeforeChange.beforeWrite {calledOff : Prop} {error : Error} (h : error.BeforeChange calledOff) :
    error.BeforeWrite calledOff := by
  unfold Error.BeforeChange at h
  split at h
  · trivial
  · trivial
  · exact h
  · exact h
  · exact h.elim

namespace Testbed

variable {bed : Testbed} {Q : Unit → Testbed → Prop} {E : Error → Testbed → Prop} {C : Testbed → Prop} {region : Region}
  {old bytes : Bytes} {target : Address}

/-! ## The write -/

/-- Writing a patch: the bytes are there unless the write failed, or was not reached. -/
theorem wp_writeCode {span : PageSpan} (hold : bed.machine.space.Holds region old) (hpos : 0 < bytes.size)
    (htarget : region.base ≤ target) (hstop : target + bytes.size ≤ region.base + region.size)
    (hdone : ∀ bed', bed'.machine.space.Holds region (old.splice (target - region.base) bytes) → Q () bed')
    (hunlock : ∀ code bed', bed'.machine.space.Holds region old → E (.ofKernel .unlockTarget code) bed')
    (hwrite : ∀ code bed', bed'.machine.space.Holds region old → E (.ofKernel .writeTarget code) bed')
    (hseal : ∀ code bed', bed'.machine.space.Holds region (old.splice (target - region.base) bytes) →
      E (.ofKernel .sealTarget code) bed')
    (hcrash : ∀ bed', C bed') : (writeCode target bytes span).wp Q E C bed := by
  rw [writeCode, Program.wp_bind]
  refine wp_protect ?_ ?_ fun _ => hcrash
  · intro space h bed₁ _ hspace₁
    have hold₁ : bed₁.machine.space.Holds region old := hspace₁ ▸ hold.protect h
    rw [Program.wp_bind, Program.wp_attempt]
    refine wp_write ?_ ?_ fun _ => hcrash
    · intro space h bed₂ _ hspace₂
      have hnew : bed₂.machine.space.Holds region (old.splice (target - region.base) bytes) :=
        hspace₂ ▸ hold₁.store hpos htarget hstop h
      rw [Program.wp_bind, Program.wp_attempt]
      refine wp_protect ?_ ?_ fun _ => hcrash
      · intro space h bed₃ _ hspace₃
        exact hdone bed₃ (hspace₃ ▸ hnew.protect h)
      · intro code bed₃ h₃ _
        exact hseal code bed₃ (h₃.space ▸ hnew)
    · intro code bed₂ h₂ _
      have hold₂ : bed₂.machine.space.Holds region old := h₂.space ▸ hold₁
      rw [Program.wp_bind, Program.wp_attempt]
      refine wp_protect ?_ ?_ fun _ => hcrash
      · intro space h bed₃ _ hspace₃
        exact hwrite code bed₃ (hspace₃ ▸ hold₂.protect h)
      · intro _ bed₃ h₃ _
        exact hwrite code bed₃ (h₃.space ▸ hold₂)
  · intro code bed₁ h₁ _
    exact hunlock code bed₁ (h₁.space ▸ hold)

/-- Writing a patch in a bracket. -/
theorem wp_overwriteCode {host : Host} {shadow : Shadow} {pageSize : Nat} {strict : Bool}
    (hold : bed.machine.space.Holds region old) (hpos : 0 < bytes.size) (htarget : region.base ≤ target)
    (hstop : target + bytes.size ≤ region.base + region.size)
    (hdone : ∀ bed', bed'.machine.space.Holds region (old.splice (target - region.base) bytes) → Q () bed')
    (hafter : ∀ error bed', bed'.machine.space.Holds region (old.splice (target - region.base) bytes) →
      error.AfterWrite (strict = true ∧ bed.Refuses) → E error bed')
    (hbefore : ∀ error bed', bed'.machine.space.Holds region old →
      error.BeforeWrite (strict = true ∧ bed.Refuses) → E error bed')
    (hcrash : ∀ bed', C bed') : (overwriteCode host shadow target bytes pageSize strict).wp Q E C bed := by
  rw [overwriteCode, Program.wp_bind, Program.wp_require]
  refine ⟨fun span _ => ?_, fun _ => hcrash bed⟩
  refine wp_runRoutine (fun error bed' h herror _ => hbefore error bed' (h.space ▸ hold) herror.beforeWrite)
    (fun _ => hcrash bed) fun hoff bed₁ h₁ => ?_
  refine wp_writeCode (h₁.space ▸ hold) hpos htarget hstop (fun bed₂ hnew bed₃ h₃ => ⟨hdone bed₃ (h₃.space ▸ hnew), ?_⟩)
    (fun code bed₂ hold₂ bed₃ h₃ => hbefore _ bed₃ (h₃.space ▸ hold₂) trivial)
    (fun code bed₂ hold₂ bed₃ h₃ => hbefore _ bed₃ (h₃.space ▸ hold₂) trivial)
    (fun code bed₂ hnew bed₃ h₃ => hafter _ bed₃ (h₃.space ▸ hnew) trivial) hcrash
  exact fun code _ => hafter _ bed₃ (h₃.space ▸ hnew) hoff

/-- Reading a patch back changes nothing, and fails as one of the errors from behind the write. -/
theorem wp_verify {calledOff : Prop} (hdone : ∀ bed', bed.Still bed' → Q () bed')
    (hfail : ∀ error bed', bed.Still bed' → error.AfterWrite calledOff → E error bed') (hcrash : ∀ bed', C bed') :
    (Image.verify target bytes).wp Q E C bed := by
  rw [Image.verify, Program.wp_bind]
  refine wp_read (fun _ actual _ _ bed' h => ?_) (fun code bed' h _ => hfail _ bed' h trivial) fun _ => hcrash
  split
  · exact hdone bed' h
  · exact hfail _ bed' h trivial

/-! ## The patch -/

/-- A patch leaves the code as it was or with the patch in its place, and its error says which. -/
theorem wp_patch {image : Image} {host : Host} (hold : bed.machine.space.Holds image.code old)
    (hdone : ∀ bed', bed'.machine.space.Holds image.code (old.splice (target - image.code.base) bytes) → Q () bed')
    (hafter : ∀ error bed', bed'.machine.space.Holds image.code (old.splice (target - image.code.base) bytes) →
      error.AfterWrite (image.config.strictThreads = true ∧ bed.Refuses) → E error bed')
    (hbefore : ∀ error bed', bed'.machine.space.Holds image.code old →
      error.BeforeWrite (image.config.strictThreads = true ∧ bed.Refuses) → E error bed')
    (hcrash : ∀ bed', C bed') : (image.patch host target bytes).wp Q E C bed := by
  rw [Image.patch]
  split
  · rename_i hempty
    cases Array.isEmpty_iff.1 hempty
    rw [Bytes.splice_empty] at hdone
    exact hdone bed hold
  · rename_i hempty
    have hpos : 0 < bytes.size := Nat.pos_of_ne_zero (mt Array.isEmpty_iff_size_eq_zero.2 hempty)
    rw [Program.wp_bind, Program.wp_require]
    refine ⟨fun inside hinside => ?_, fun _ => hcrash bed⟩
    split
    · rename_i hin
      obtain ⟨htarget, -, hstop⟩ := Region.containsRange_eq_some (hinside.trans (congrArg some hin))
      rw [wp_reporting, Image.overwrite, Program.wp_bind]
      refine wp_overwriteCode hold hpos htarget hstop (fun bed₁ hnew => ?_) hafter hbefore hcrash
      rw [Program.wp_bind]
      refine wp_flush fun bed₂ h₂ => ?_
      have hnew₂ : bed₂.machine.space.Holds image.code (old.splice (target - image.code.base) bytes) := h₂.space ▸ hnew
      dsimp only
      split
      · rw [Program.wp_bind]
        refine wp_verify (fun bed₃ h₃ => ?_) (fun error bed₃ h₃ herror => hafter error bed₃ (h₃.space ▸ hnew₂) herror) hcrash
        exact hdone bed₃ (h₃.space ▸ hnew₂)
      · exact hdone bed₂ hnew₂
    · rw [Program.wp_bind, Program.wp_require]
      refine ⟨fun error herror => ?_, fun _ => hcrash bed⟩
      rw [wp_reporting, Program.wp_failed]
      obtain ⟨limit, -, rfl⟩ := Option.map_eq_some_iff.1 herror
      exact hbefore _ bed hold trivial

end Testbed

end LivePatch
