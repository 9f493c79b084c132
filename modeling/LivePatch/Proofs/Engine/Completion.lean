import LivePatch.Proofs.Engine.Conduct
import LivePatch.Proofs.Engine.Preparation
import LivePatch.Proofs.Memory.Span

/-!
# Operations that come to an end

A preparation or a patch ends with a value or with an error, and does not crash, if its addresses stay clear of the end of the
address space. Whatever fails on the way, no sum overflows, because the mappings stay where they are.
-/

namespace LivePatch

open Program (request)

/-- The image keeps clear of the end of the address space: the end of its code can be rounded up to a page, and the copy of its code
ends at an address. Its pages have a size that pages can have. -/
structure Image.Bounded (image : Image) : Prop where
  code : image.code.base + image.code.size + pageBytes < Word.count
  shadow_code : image.shadow.code = image.code
  shadow : image.shadow.base + image.code.size < Word.count
  pageSize : image.pageSize.isPowerOfTwo

namespace Image.Bounded

variable {image : Image} {target : Address} {len : Nat}

theorem limit_eq (h : image.Bounded) : image.code.limit = some (image.code.base + image.code.size) :=
  Word.add_eq_some_iff.2 ⟨rfl, Nat.lt_of_le_of_lt (Nat.le_add_right _ _) h.code⟩

/-- It can be told whether a range lies in the code. -/
theorem containsRange_ne_none (h : image.Bounded) : image.code.containsRange target len ≠ none := by
  unfold Region.containsRange
  split
  · nofun
  · rw [h.limit_eq]
    nofun

/-- The pages of a range in the code can be told, and the end of the range can be rounded up to a page. -/
theorem exists_span (h : image.Bounded) (hstop : target + len ≤ image.code.base + image.code.size) :
    ∃ span, PageSpan.covering target len image.pageSize = some span ∧ span.start + span.size + pageBytes < Word.count := by
  have hcode := h.code
  obtain ⟨span, hcovering⟩ := PageSpan.exists_covering h.pageSize (by lia : target + len < Word.count)
  have hend := (PageSpan.spans_of_covering hcovering).stop_eq
  exact ⟨span, hcovering, by lia⟩

theorem entry_ne_crashed (h : image.Bounded) {routine : Routine} {host : Host} : routine.entry host image.shadow ≠ .crashed :=
  Testbed.entry_ne_crashed (h.shadow_code ▸ h.limit_eq) (h.shadow_code ▸ h.shadow)

end Image.Bounded

namespace Testbed

variable {bed : Testbed} {Q : Unit → Testbed → Prop} {E : Error → Testbed → Prop} {step : Step} {a : Address} {n : Nat}
  {bytes : Bytes}

/-! ## Requests that return -/

/-- Protecting pages returns and leaves the mappings where they are. -/
theorem wp_protect_returns {p : Protection} (hwf : bed.machine.space.WellFormed) (hs : bed.machine.space.Addressable)
    (hn : a + n + pageBytes < Word.count)
    (h : ∀ bed' : Testbed, bed'.machine.space.WellFormed → bed'.machine.space.Addressable →
      Q () bed' ∧ ∀ code, E (.ofKernel step code) bed') :
    ((request (.protect a n p)).during step).wp Q E (fun _ => False) bed := by
  refine wp_protect (fun space hspace bed' _ hbed' => ?_) (fun code bed' h' _ => ?_) fun hcrash => ?_
  · obtain ⟨m, hm, first, stop, rfl⟩ := Space.update_of_protect_eq_done hspace
    have hshape := m.sameShape_withProtection first stop p
    exact (h bed' (hbed' ▸ hwf.update hm hshape) (hbed' ▸ hs.update hm hshape)).1
  · exact (h bed' (h'.space ▸ hwf) (h'.space ▸ hs)).2 code
  · exact absurd hcrash (hwf.protect_ne_crashed hs hn)

/-- So does writing. -/
theorem wp_write_returns (hwf : bed.machine.space.WellFormed) (hs : bed.machine.space.Addressable) (hpos : 0 < bytes.size)
    (hn : a + bytes.size < Word.count)
    (h : ∀ bed' : Testbed, bed'.machine.space.WellFormed → bed'.machine.space.Addressable →
      Q () bed' ∧ ∀ code, E (.ofKernel step code) bed') :
    ((request (.write a bytes)).during step).wp Q E (fun _ => False) bed := by
  refine wp_write (fun space hspace bed' _ hbed' => ?_) (fun code bed' h' _ => ?_) fun hcrash => ?_
  · obtain ⟨m, hm, hbase, hstop, rfl⟩ := Space.update_of_store_eq_done hspace
    have hshape := Mapping.sameShape_withBytes hbase hstop
    exact (h bed' (hbed' ▸ hwf.update hm hshape) (hbed' ▸ hs.update hm hshape)).1
  · exact (h bed' (h'.space ▸ hwf) (h'.space ▸ hs)).2 code
  · exact absurd hcrash (hwf.store_ne_crashed hs hpos hn)

/-- Reading returns and leaves the memory as it is. -/
theorem wp_read_returns {Q : Bytes → Testbed → Prop} (hwf : bed.machine.space.WellFormed)
    (hs : bed.machine.space.Addressable) (hpos : 0 < n) (hn : a + n < Word.count)
    (h : ∀ bed', bed.Still bed' → (∀ bytes, Q bytes bed') ∧ ∀ code, E (.ofKernel step code) bed') :
    ((request (.read a n)).during step).wp Q E (fun _ => False) bed :=
  wp_read (fun _ bytes _ _ bed' h' => (h bed' h').1 bytes) (fun code bed' h' _ => (h bed' h').2 code)
    fun hcrash => absurd hcrash (hwf.load_ne_crashed hs hpos hn)

/-! ## Patches -/

/-- A patch in the writing returns, and leaves the mappings where they are. -/
theorem wp_writeCode_returns {target : Address} {span : PageSpan} (hwf : bed.machine.space.WellFormed)
    (hs : bed.machine.space.Addressable) (hpos : 0 < bytes.size) (hstop : target + bytes.size < Word.count)
    (hspan : span.start + span.size + pageBytes < Word.count)
    (h : ∀ bed' : Testbed, bed'.machine.space.WellFormed → bed'.machine.space.Addressable → Q () bed' ∧ ∀ error, E error bed') :
    (writeCode target bytes span).wp Q E (fun _ => False) bed := by
  rw [writeCode, Program.wp_bind]
  refine wp_protect_returns hwf hs hspan fun bed₁ hwf₁ hs₁ => ⟨?_, fun code => (h bed₁ hwf₁ hs₁).2 _⟩
  -- the pages are closed whatever came of the write
  have hclose : ∀ (written : Except Error Unit) (bed₂ : Testbed), bed₂.machine.space.WellFormed →
      bed₂.machine.space.Addressable →
      (((request (.protect span.start span.size .readExecute)).during .sealTarget).attempt >>= fun restored =>
        Program.ofExcept (written.bind fun _ => restored)).wp Q E (fun _ => False) bed₂ := by
    intro written bed₂ hwf₂ hs₂
    rw [Program.wp_bind, Program.wp_attempt]
    refine wp_protect_returns hwf₂ hs₂ hspan fun bed₃ hwf₃ hs₃ => ?_
    obtain ⟨hdone, hfailed⟩ := h bed₃ hwf₃ hs₃
    cases written with
    | error error => exact ⟨hfailed error, fun _ => hfailed error⟩
    | ok => exact ⟨hdone, fun _ => hfailed _⟩
  rw [Program.wp_bind, Program.wp_attempt]
  exact wp_write_returns hwf₁ hs₁ hpos hstop fun bed₂ hwf₂ hs₂ => ⟨hclose _ bed₂ hwf₂ hs₂, fun _ => hclose _ bed₂ hwf₂ hs₂⟩

variable {image : Image} {host : Host} {target : Address}

/-- A patch through an image that keeps clear of the end of the address space returns. -/
theorem wp_patch_returns (hwf : bed.machine.space.WellFormed) (hs : bed.machine.space.Addressable) (hbounded : image.Bounded) :
    (image.patch host target bytes).wp (fun _ _ => True) (fun _ _ => True) (fun _ => False) bed := by
  rw [Image.patch]
  split
  · trivial
  · rename_i hempty
    have hpos : 0 < bytes.size := Nat.pos_of_ne_zero (mt Array.isEmpty_iff_size_eq_zero.2 hempty)
    rw [Program.wp_bind, Program.wp_require]
    refine ⟨fun inside hinside => ?_, fun h => absurd h hbounded.containsRange_ne_none⟩
    split
    · rename_i hin
      obtain ⟨-, -, hstop⟩ := Region.containsRange_eq_some (hinside.trans (congrArg some hin))
      obtain ⟨span, hspan, hend⟩ := hbounded.exists_span hstop
      have hcode := hbounded.code
      have hlt : target + bytes.size < Word.count := by lia
      rw [wp_reporting, Image.overwrite, Program.wp_bind, overwriteCode, hspan, Program.require_some, Program.done_bind]
      refine wp_runRoutine (fun _ _ _ _ _ => trivial) (fun h => absurd h hbounded.entry_ne_crashed) fun _ bed₁ h₁ => ?_
      refine wp_writeCode_returns (h₁.space ▸ hwf) (h₁.space ▸ hs) hpos hlt hend fun bed₂ hwf₂ hs₂ => ⟨?_, fun _ _ _ => trivial⟩
      refine fun bed₃ h₃ => ⟨?_, fun _ _ => trivial⟩
      rw [Program.wp_bind]
      refine wp_flush fun bed₄ h₄ => ?_
      have hspace := h₄.space.trans h₃.space
      dsimp only
      split
      · rw [Program.wp_bind, Image.verify, Program.wp_bind]
        refine wp_read_returns (hspace ▸ hwf₂) (hspace ▸ hs₂) hpos hlt fun bed₅ _ => ⟨fun actual => ?_, fun _ => trivial⟩
        split <;> trivial
      · trivial
    · rw [Program.wp_bind, Image.rangeError, hbounded.limit_eq, Option.map_some, Program.require_some, Program.wp_done,
        wp_reporting]
      trivial

/-- So does every operation that patches through it. -/
theorem wp_attempts_returns {α β : Type} {operation : Engine α} {attempt : Engine β}
    (h : image.Attempts host operation attempt) (hwf : bed.machine.space.WellFormed) (hs : bed.machine.space.Addressable)
    (hbounded : image.Bounded) : attempt.wp (fun _ _ => True) (fun _ _ => True) (fun _ => False) bed := by
  cases h with
  | patch => exact wp_patch_returns hwf hs hbounded
  | release guard himage => exact wp_patch_returns hwf hs (himage ▸ hbounded)
  | guarded target bytes =>
    rw [Image.guardedPatch, Program.wp_bind, Image.save]
    have hpatch : ∀ saved (bed' : Testbed), bed'.machine.space = bed.machine.space →
        (image.patch host target bytes >>= fun _ => Program.done (⟨image, target, saved⟩ : Guard)).wp (fun _ _ => True)
          (fun _ _ => True) (fun _ => False) bed' := by
      intro saved bed' hspace
      rw [Program.wp_bind]
      exact wp_patch_returns (hspace ▸ hwf) (hspace ▸ hs) hbounded
    split
    · exact hpatch _ bed rfl
    · rename_i hne
      rw [Program.wp_bind, Program.wp_require]
      refine ⟨fun inside hinside => ?_, fun h => absurd h hbounded.containsRange_ne_none⟩
      split
      · rename_i hin
        obtain ⟨-, -, hstop⟩ := Region.containsRange_eq_some (hinside.trans (congrArg some hin))
        have hcode := hbounded.code
        exact wp_read_returns hwf hs (Nat.pos_of_ne_zero hne) (by lia) fun bed₁ h₁ =>
          ⟨fun saved => hpatch saved bed₁ h₁.space, fun _ => trivial⟩
      · rw [Program.wp_bind, Image.rangeError, hbounded.limit_eq, Option.map_some, Program.require_some, Program.wp_done]
        trivial

/-- A preparation returns if there is room for the shadow image and for the code. -/
theorem wp_prepare_returns {attempted : Bool} {imageBase : Address} {pageSize : Nat} {config : Config}
    (hwf : bed.machine.space.WellFormed) (hs : bed.machine.space.Addressable)
    (hfits : bed.Fits (config.imageBase.getD imageBase)) :
    (Image.prepare host attempted imageBase pageSize config).wp (fun _ _ => True) (fun _ _ => True) (fun _ => False) bed :=
  wp_prepare (fun _ => trivial) <| wp_establish_obstructed hwf hs (fun _ _ _ _ _ _ _ _ _ _ _ _ _ => trivial)
    (fun _ _ _ _ _ _ => trivial) (fun _ _ _ _ _ _ => trivial) (fun _ _ _ _ _ _ _ _ => trivial)
    fun h => absurd hfits h

end Testbed

/-- What is known to return does not crash. -/
theorem Program.ne_crashed_of_wp {κ ε α : Type} [Kernel κ] {x : Program ε α} {world after : World κ} {outcome : Outcome ε α}
    (h : x.wp (fun _ _ => True) (fun _ _ => True) (fun _ => False) world.kernel) (hrun : x.run world = (outcome, after)) :
    outcome ≠ .crashed := by
  rintro rfl
  rw [Program.wp_iff_run, hrun] at h
  exact h

end LivePatch
