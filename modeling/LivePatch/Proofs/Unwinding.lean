import LivePatch.Proofs.Engine.Serving

/-!
# Guards unwind exactly

Each live guard keeps what its patch replaced. Putting the saved bytes back in thought, the latest guard first, gives the code
as it was before any of them: placing a guard keeps this, because its saved bytes undo its own patch, and releasing one keeps
it, because no later guard that is still alive overlaps it, so that its bytes can be put back before theirs as well.
-/

namespace LivePatch

namespace Guard

/-- The address is one of those that the guard has patched. -/
def Covers (guard : Guard) (a : Address) : Prop := guard.target ≤ a ∧ a < guard.target + guard.saved.size

/-- The guards have patched an address in common. -/
def Overlaps (guard guard' : Guard) : Prop := ∃ a, guard.Covers a ∧ guard'.Covers a

/-- The code with the bytes of the guard put back. -/
def restore (guard : Guard) (base : Address) (code : Bytes) : Bytes := code.splice (guard.target - base) guard.saved

/-- The code with the bytes of all guards put back, the latest first. -/
def unwind (base : Address) (live : List Guard) (code : Bytes) : Bytes :=
  live.foldl (fun code guard => guard.restore base code) code

variable {guard guard' : Guard} {live newer older : List Guard} {region : Region} {code : Bytes} {base a : Address}

/-- A guard that starts behind another one does not overlap it. -/
theorem not_overlaps_of_le (h : guard.target + guard.saved.size ≤ guard'.target) : ¬ guard'.Overlaps guard := by
  rintro ⟨a, ⟨hfirst, -⟩, -, hlast⟩
  exact Nat.not_lt_of_le (Nat.le_trans h hfirst) hlast

/-- A guard whose bytes all lie in the region, or that has none. -/
def LiesIn (guard : Guard) (region : Region) : Prop := region.Accepts guard.target guard.saved.size

theorem LiesIn.restore_eq (h : guard.LiesIn region) (hsize : code.size = region.size) :
    guard.restore region.base code = code ∨
      (region.base ≤ guard.target ∧ guard.target - region.base + guard.saved.size ≤ code.size) := by
  rcases h with hempty | ⟨h1, h2⟩
  · rw [restore, Array.eq_empty_of_size_eq_zero hempty, Bytes.splice_empty]
    exact Or.inl rfl
  · exact Or.inr ⟨h1, by lia⟩

/-- Putting bytes back keeps the length of the code. -/
theorem LiesIn.size_restore (h : guard.LiesIn region) (hsize : code.size = region.size) :
    (guard.restore region.base code).size = region.size := by
  rcases h.restore_eq hsize with h | ⟨-, h⟩
  · rw [h, hsize]
  · rw [restore, Bytes.size_splice h, hsize]

/-- Putting bytes back changes no byte outside the guard. -/
theorem LiesIn.getElem?_restore (h : guard.LiesIn region) (hsize : code.size = region.size) {i : Nat}
    (hi : ¬ guard.Covers (region.base + i)) : (guard.restore region.base code)[i]? = code[i]? := by
  rcases h.restore_eq hsize with h | ⟨h1, h2⟩
  · rw [h]
  · rw [restore, Bytes.getElem?_splice h2, if_neg]
    rintro ⟨h3, h4⟩
    exact hi ⟨by lia, by lia⟩

/-- The bytes of guards that do not overlap can be put back in either order. -/
theorem LiesIn.restore_comm (h : guard.LiesIn region) (h' : guard'.LiesIn region) (hsize : code.size = region.size)
    (hapart : ¬ guard.Overlaps guard') :
    guard.restore region.base (guard'.restore region.base code) =
      guard'.restore region.base (guard.restore region.base code) := by
  rcases Nat.eq_zero_or_pos guard.saved.size with hempty | hpos
  · simp only [restore, Array.eq_empty_of_size_eq_zero hempty, Bytes.splice_empty]
  rcases Nat.eq_zero_or_pos guard'.saved.size with hempty' | hpos'
  · simp only [restore, Array.eq_empty_of_size_eq_zero hempty', Bytes.splice_empty]
  obtain ⟨h1, h2⟩ := h.resolve_left (Nat.ne_of_gt hpos)
  obtain ⟨h1', h2'⟩ := h'.resolve_left (Nat.ne_of_gt hpos')
  have hdisjoint : guard.target + guard.saved.size ≤ guard'.target ∨ guard'.target + guard'.saved.size ≤ guard.target := by
    -- otherwise the guard that starts later starts inside the other one
    rcases Nat.lt_or_ge guard.target guard'.target with hlt | hge
    · refine Or.inl (Nat.le_of_not_lt fun hin => hapart ⟨guard'.target, ⟨Nat.le_of_lt hlt, hin⟩, Nat.le_refl _, ?_⟩)
      lia
    · refine Or.inr (Nat.le_of_not_lt fun hin => hapart ⟨guard.target, ⟨Nat.le_refl _, ?_⟩, hge, hin⟩)
      lia
  exact Bytes.splice_comm (by lia) (by lia) (by lia)

/-- Putting the bytes of other guards back keeps the length of the code. -/
theorem size_unwind (h : ∀ guard ∈ live, guard.LiesIn region) (hsize : code.size = region.size) :
    (unwind region.base live code).size = region.size := by
  induction live generalizing code with
  | nil => exact hsize
  | cons guard older ih =>
    rw [List.forall_mem_cons] at h
    exact ih h.2 (h.1.size_restore hsize)

/-- Putting back the bytes of all guards changes no byte that none of them covers. -/
theorem getElem?_unwind (h : ∀ guard ∈ live, guard.LiesIn region) (hsize : code.size = region.size) {i : Nat}
    (hi : ∀ guard ∈ live, ¬ guard.Covers (region.base + i)) : (unwind region.base live code)[i]? = code[i]? := by
  induction live generalizing code with
  | nil => rfl
  | cons guard older ih =>
    rw [List.forall_mem_cons] at h hi
    exact (ih h.2 (h.1.size_restore hsize) hi.2).trans (h.1.getElem?_restore hsize hi.1)

/-- A guard that no later one overlaps can put its bytes back first. -/
theorem unwind_restore (hguard : guard.LiesIn region) (h : ∀ guard' ∈ newer, guard'.LiesIn region)
    (hsize : code.size = region.size) (hapart : ∀ guard' ∈ newer, ¬ guard'.Overlaps guard) :
    unwind region.base newer (guard.restore region.base code) = guard.restore region.base (unwind region.base newer code) := by
  induction newer generalizing code with
  | nil => rfl
  | cons guard' older ih =>
    rw [List.forall_mem_cons] at h hapart
    have := ih h.2 (h.1.size_restore hsize) hapart.2
    rw [← h.1.restore_comm hguard hsize hapart.1] at this
    exact this

/-- Releasing a guard that no later one overlaps does not change what the code is without all guards. -/
theorem unwind_release (h : ∀ guard' ∈ newer ++ guard :: older, guard'.LiesIn region) (hsize : code.size = region.size)
    (hapart : ∀ guard' ∈ newer, ¬ guard'.Overlaps guard) :
    unwind region.base (newer ++ older) (guard.restore region.base code) =
      unwind region.base (newer ++ guard :: older) code := by
  have hguard := h guard (by simp)
  have hnewer : ∀ guard' ∈ newer, guard'.LiesIn region := fun guard' hg => h guard' (List.mem_append_left _ hg)
  have hfirst := unwind_restore hguard hnewer hsize hapart
  simp only [unwind, List.foldl_append, List.foldl_cons] at hfirst ⊢
  rw [hfirst]

end Guard

/-! ## Runs -/

/-- A run of guarded patches and releases, from a world without guards to one with these, the latest first. A guard is
released only if no later one that is still alive overlaps it. -/
inductive Image.Plays (image : Image) (start : World Testbed) : World Testbed → List Guard → Prop where
  | start : Plays image start start []
  | place {world after : World Testbed} {live : List Guard} {target : Address} {bytes : Bytes} {guard : Guard}
      (h : Plays image start world live)
      (hrun : (image.guardedPatch .other target bytes).run world = (.done guard, after)) :
      Plays image start after (guard :: live)
  | release {world after : World Testbed} {newer older : List Guard} {guard : Guard}
      (h : Plays image start world (newer ++ guard :: older)) (hapart : ∀ guard' ∈ newer, ¬ guard'.Overlaps guard)
      (hrun : (guard.release .other).run world = (.done (), after)) : Plays image start after (newer ++ older)

/-- What holds throughout a run that starts with these bytes of the code. -/
structure Testbed.Unwinds (bed : Testbed) (image : Image) (live : List Guard) (original : Bytes) (code : Mapping) : Prop where
  serves : bed.Serves image code
  liesIn : ∀ guard ∈ live, guard.LiesIn image.code
  image_eq : ∀ guard ∈ live, guard.image = image
  unwind_eq : Guard.unwind image.code.base live code.bytes = original

namespace Testbed.Unwinds

variable {bed bed' : Testbed} {image : Image} {live newer older : List Guard} {guard : Guard} {original : Bytes}
  {code : Mapping} {target : Address} {bytes : Bytes}

theorem size_eq (h : bed.Unwinds image live original code) : code.bytes.size = image.code.size := h.serves.size.symm

/-- Placing a guard keeps the invariant: the saved bytes undo its patch. -/
theorem place (h : bed.Unwinds image live original code) (haccepts : image.code.Accepts target bytes.size)
    (hfollows : bed.Follows bed') (hspace : bed'.machine.space = bed.machine.space.update (code.withBytes target bytes)) :
    bed'.Unwinds image ({ image, target, saved := code.bytesAt target bytes.size } :: live) original
      (code.withBytes target bytes) := by
  have hsize := h.size_eq
  have hundo : (code.bytes.splice (target - code.base) bytes).splice (target - code.base)
      (code.bytesAt target bytes.size) = code.bytes := by
    have hsaved := h.serves.size_bytesAt haccepts
    rcases haccepts with hempty | ⟨h1, h2⟩
    · replace hsaved := hsaved.trans hempty
      rw [Array.eq_empty_of_size_eq_zero hsaved, Array.eq_empty_of_size_eq_zero hempty, Bytes.splice_empty, Bytes.splice_empty]
    · have hbase := h.serves.base
      exact Bytes.splice_undo (by lia)
  refine ⟨h.serves.patched hfollows haccepts hspace, ?_, ?_, ?_⟩
  · rw [List.forall_mem_cons]
    refine ⟨?_, h.liesIn⟩
    rw [Guard.LiesIn, h.serves.size_bytesAt haccepts]
    exact haccepts
  · rw [List.forall_mem_cons]
    exact ⟨rfl, h.image_eq⟩
  · rw [← h.unwind_eq]
    simp only [Guard.unwind, List.foldl_cons, Guard.restore, Mapping.withBytes, h.serves.base, hundo]

/-- Releasing a guard that no later one overlaps keeps the invariant. -/
theorem release (h : bed.Unwinds image (newer ++ guard :: older) original code)
    (hapart : ∀ guard' ∈ newer, ¬ guard'.Overlaps guard) (hfollows : bed.Follows bed')
    (hspace : bed'.machine.space = bed.machine.space.update (code.withBytes guard.target guard.saved)) :
    bed'.Unwinds image (newer ++ older) original (code.withBytes guard.target guard.saved) := by
  have hkeep : ∀ guard' ∈ newer ++ older, guard' ∈ newer ++ guard :: older := by
    intro guard' hg
    rcases List.mem_append.1 hg with hg | hg
    · exact List.mem_append_left _ hg
    · exact List.mem_append_right _ (List.mem_cons_of_mem _ hg)
  have hrestore : (code.withBytes guard.target guard.saved).bytes = guard.restore image.code.base code.bytes := by
    rw [Guard.restore, h.serves.base, Mapping.withBytes]
  refine ⟨h.serves.patched hfollows (h.liesIn guard (by simp)) hspace, fun guard' hg => h.liesIn guard' (hkeep guard' hg),
    fun guard' hg => h.image_eq guard' (hkeep guard' hg), ?_⟩
  rw [hrestore, Guard.unwind_release h.liesIn h.size_eq hapart, h.unwind_eq]

end Testbed.Unwinds

/-- A run keeps the invariant. -/
theorem Image.Plays.unwinds {image : Image} {start world : World Testbed} {live : List Guard} {original : Bytes}
    {code : Mapping} (h : image.Plays start world live) (hstart : start.kernel.Unwinds image [] original code) :
    ∃ code, world.kernel.Unwinds image live original code := by
  induction h with
  | start => exact ⟨code, hstart⟩
  | @place world after live target bytes guard _ hrun ih =>
    obtain ⟨code, hcode⟩ := ih
    have hwp : (image.guardedPatch .other target bytes).wp
        (fun guard bed => ∃ code, bed.Unwinds image (guard :: live) original code) (fun _ _ => True) (fun _ => True)
        world.kernel :=
      hcode.serves.wp_guardedPatch (fun haccepts bed' h hspace => ⟨_, hcode.place haccepts h hspace⟩) fun _ => trivial
    exact Program.wp_run_done hwp hrun
  | @release world after newer older guard _ hapart hrun ih =>
    obtain ⟨code, hcode⟩ := ih
    have himage := hcode.image_eq guard (by simp)
    have hwp : (guard.release .other).wp (fun _ bed => ∃ code, bed.Unwinds image (newer ++ older) original code)
        (fun _ _ => True) (fun _ => True) world.kernel :=
      Testbed.Serves.wp_release (himage ▸ hcode.serves) (himage ▸ hcode.liesIn guard (by simp))
        fun bed' h hspace => ⟨_, hcode.release hapart h hspace⟩
    exact Program.wp_run_done hwp hrun

/-- After any run the code differs from what it was before in bytes under live guards alone; without live guards it is as it
was, and executable throughout. And no run gets stuck: any patch inside the code can be placed, with a guard of its range, and any
live guard released. -/
theorem Image.Plays.restores {image : Image} {before start now : World Testbed} {live : List Guard} {attempted : Bool}
    {imageBase : Address} {config : Config} (hwf : before.kernel.machine.space.WellFormed)
    (hs : before.kernel.machine.space.Addressable) (htolerant : config.strictThreads = false)
    (hprepared : (Image.prepare .other attempted imageBase pageBytes config).run before = (.done image, start))
    (hquiet : start.kernel.Quiet) (hplays : image.Plays start now live) :
    (∃ original current, start.kernel.machine.space.peek image.code.base image.code.size = some original ∧
      now.kernel.machine.space.peek image.code.base image.code.size = some current ∧ current.size = original.size ∧
      (∀ i : Nat, (∀ guard ∈ live, ¬ guard.Covers (image.code.base + i)) → current[i]? = original[i]?) ∧
      (live = [] → current = original ∧ ∀ a, image.code.base ≤ a → a < image.code.base + image.code.size →
        now.kernel.machine.space.protectionAt a = some .readExecute)) ∧
    (∀ target bytes, image.code.Accepts target bytes.size →
      ∃ guard after, (image.guardedPatch .other target bytes).run now = (.done guard, after) ∧ guard.target = target ∧
        guard.saved.size = bytes.size) ∧
    ∀ guard ∈ live, ∃ after, (guard.release .other).run now = (.done (), after) := by
  obtain ⟨code₀, hserves⟩ := Program.wp_run_done (Testbed.wp_prepare_serves hwf hs htolerant) hprepared hquiet
  have hstart : start.kernel.Unwinds image [] code₀.bytes code₀ := ⟨hserves, by simp, by simp, rfl⟩
  obtain ⟨code, hcode⟩ := hplays.unwinds hstart
  have hsize := hcode.size_eq
  refine ⟨⟨code₀.bytes, code.bytes, hserves.holds.peek_eq, hcode.serves.holds.peek_eq, ?_, fun i hi => ?_, ?_⟩, ?_, ?_⟩
  · rw [← hcode.unwind_eq, Guard.size_unwind hcode.liesIn hsize, hsize]
  · rw [← hcode.unwind_eq, Guard.getElem?_unwind hcode.liesIn hsize hi]
  · rintro rfl
    exact ⟨hcode.unwind_eq, fun a h1 h2 => hcode.serves.protectionAt_eq h1 h2⟩
  · intro target bytes haccepts
    have hwp : (image.guardedPatch .other target bytes).wp (fun guard _ => guard.target = target ∧ guard.saved.size = bytes.size)
        (fun _ _ => False) (fun _ => False) now.kernel :=
      hcode.serves.wp_guardedPatch (fun _ _ _ _ => ⟨rfl, hcode.serves.size_bytesAt haccepts⟩) fun h => h haccepts
    exact Program.exists_run_done hwp
  · intro guard hguard
    have himage := hcode.image_eq guard hguard
    have hwp : (guard.release .other).wp (fun _ _ => True) (fun _ _ => False) (fun _ => False) now.kernel :=
      Testbed.Serves.wp_release (himage ▸ hcode.serves) (himage ▸ hcode.liesIn guard hguard) fun _ _ _ => trivial
    obtain ⟨_, after, hrun, -⟩ := Program.exists_run_done hwp
    exact ⟨after, hrun⟩

/-- Of three guards in a small process the second one overlaps the first one, and the third one lies apart. The second one is
released first, then the first one, both before the third one, and then the code is as it was. -/
theorem Image.Plays.restores_overlapping : ∃ (image : Image) (start placed₁ placed₂ placed₃ released₂ released₁ now : World Testbed)
    (first second third : Guard) (original : Bytes),
    (image.guardedPatch .other Space.imageBase #[0xcc, 0xcc]).run start = (.done first, placed₁) ∧
    (image.guardedPatch .other (Space.imageBase + 1) #[0x90, 0x90]).run placed₁ = (.done second, placed₂) ∧
    (image.guardedPatch .other (Space.imageBase + 3) #[0xc3]).run placed₂ = (.done third, placed₃) ∧
    second.Overlaps first ∧
    (second.release .other).run placed₃ = (.done (), released₂) ∧
    (first.release .other).run released₂ = (.done (), released₁) ∧
    (third.release .other).run released₁ = (.done (), now) ∧
    start.kernel.machine.space.peek image.code.base image.code.size = some original ∧
    now.kernel.machine.space.peek image.code.base image.code.size = some original := by
  obtain ⟨image, start, hprepared, hquiet, -, hcode⟩ := Testbed.exists_prepared_threePages
  have hrestores {now live} (hplays : Image.Plays image start now live) :=
    hplays.restores Space.wellFormed_threePages Space.addressable_threePages rfl hprepared hquiet
  have hin₁ : image.code.Accepts Space.imageBase (#[0xcc, 0xcc] : Bytes).size := hcode ▸ by decide
  have hin₂ : image.code.Accepts (Space.imageBase + 1) (#[0x90, 0x90] : Bytes).size := hcode ▸ by decide
  have hin₃ : image.code.Accepts (Space.imageBase + 3) (#[0xc3] : Bytes).size := hcode ▸ by decide
  obtain ⟨first, placed₁, hplaced₁, htarget₁, hsize₁⟩ := (hrestores .start).2.1 _ _ hin₁
  have hplays₁ := Image.Plays.place .start hplaced₁
  obtain ⟨second, placed₂, hplaced₂, htarget₂, hsize₂⟩ := (hrestores hplays₁).2.1 _ _ hin₂
  have hplays₂ := hplays₁.place hplaced₂
  obtain ⟨third, placed₃, hplaced₃, htarget₃, hsize₃⟩ := (hrestores hplays₂).2.1 _ _ hin₃
  have hplays₃ : image.Plays start placed₃ ([third] ++ second :: [first]) := hplays₂.place hplaced₃
  have hoverlaps : second.Overlaps first := by
    refine ⟨Space.imageBase + 1, ?_, ?_⟩
    · rw [Guard.Covers, htarget₂, hsize₂]
      decide
    · rw [Guard.Covers, htarget₁, hsize₁]
      decide
  -- the third guard lies behind both of the others, so they can be released before it
  have hapart₂ : ¬ third.Overlaps second := Guard.not_overlaps_of_le (by rw [htarget₂, hsize₂, htarget₃]; decide)
  have hapart₁ : ¬ third.Overlaps first := Guard.not_overlaps_of_le (by rw [htarget₁, hsize₁, htarget₃]; decide)
  obtain ⟨released₂, hreleased₂⟩ := (hrestores hplays₃).2.2 second (by simp)
  have hplays₄ : image.Plays start released₂ ([third] ++ first :: []) :=
    hplays₃.release (List.forall_mem_singleton.2 hapart₂) hreleased₂
  obtain ⟨released₁, hreleased₁⟩ := (hrestores hplays₄).2.2 first (by simp)
  have hplays₅ : image.Plays start released₁ ([] ++ third :: []) :=
    hplays₄.release (List.forall_mem_singleton.2 hapart₁) hreleased₁
  obtain ⟨now, hreleased₃⟩ := (hrestores hplays₅).2.2 third (by simp)
  obtain ⟨⟨original, current, horiginal, hcurrent, -, -, hempty⟩, -⟩ :=
    hrestores (hplays₅.release (List.forall_mem_nil _) hreleased₃)
  exact ⟨image, start, placed₁, placed₂, placed₃, released₂, released₁, now, first, second, third, original, hplaced₁, hplaced₂,
    hplaced₃, hoverlaps, hreleased₂, hreleased₁, hreleased₃, horiginal, (hempty rfl).1 ▸ hcurrent⟩

end LivePatch
