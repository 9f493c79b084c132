import LivePatch.Engine.Guard
import LivePatch.Proofs.Engine.Preparation

/-!
# Patches without disturbance

On a quiet test bed, through an image that tolerates threads that refuse, a patch inside the code is made, and changes
nothing but the bytes in its range: the pages that it makes writable are executable again when it is over. A patch that does
not lie in the code is refused. A guard keeps what its patch replaced.
-/

namespace LivePatch

open Program (request)

/-! ## One write -/

namespace Mapping

variable {m : Mapping} {a : Address} {bytes : Bytes} {first stop : Nat} {p q : Protection}

/-- Pages that were opened for a write and closed again are as they were, if the mapping was closed all over. -/
theorem withProtection_withBytes_withProtection (h : ∀ r ∈ m.pages, r = q) :
    ((m.withProtection first stop p).withBytes a bytes).withProtection first stop q = m.withBytes a bytes := by
  have hpages : ((m.withProtection first stop p).withProtection first stop q).pages = m.pages := by
    apply Array.ext_getElem?
    intro i
    rw [getElem?_withProtection, getElem?_withProtection]
    cases hi : m.pages[i]? with
    | none => simp
    | some r =>
      cases h r (Array.mem_of_getElem? hi)
      split <;> simp
  simp only [withProtection, withBytes] at hpages ⊢
  rw [hpages]

end Mapping

namespace Space

variable {space : Space} {code : Mapping} {target : Address} {bytes : Bytes}

/-- Opening the pages of a range, writing the range and closing the pages again. -/
theorem WellFormed.overwrite (h : space.WellFormed) (hcode : code ∈ space) (hroom : code.stop + pageBytes < Word.count)
    (hsealed : ∀ p ∈ code.pages, p = .readExecute) (hpos : 0 < bytes.size) (htarget : code.base ≤ target)
    (hstop : target + bytes.size ≤ code.stop) :
    ∃ space₁ space₂, space.protect (pageFloor target) (target + bytes.size - pageFloor target) .readWrite = .done space₁ ∧
      space₁.store target bytes = .done space₂ ∧
      space₂.protect (pageFloor target) (target + bytes.size - pageFloor target) .readExecute =
        .done (space.update (code.withBytes target bytes)) := by
  have haligned := (h.mappings code hcode).aligned
  have hfloor : code.base ≤ pageFloor target ∧ pageFloor target ≤ target := by
    simp only [pageFloor, pageBytes] at *
    lia
  have hlimit : code.stop < Word.count := by lia
  have hfirst : code.pageOf (pageFloor target) = code.pageOf target := by
    simp only [Mapping.pageOf, pageFloor, pageBytes] at *
    lia
  generalize hn : target + bytes.size - pageFloor target = n
  have hspan : pageFloor target + n = target + bytes.size := by lia
  have hprotect : ∀ (space' : Space) (m : Mapping) (p : Protection), space'.WellFormed → m ∈ space' → code.SameShape m →
      space'.protect (pageFloor target) n p = .done (space'.update
        (m.withProtection (code.pageOf target) (code.pageOf (target + bytes.size - 1) + 1) p)) := by
    intro space' m p hwf hm hshape
    rw [hwf.protect_eq_done hm (hshape.stop ▸ hlimit) (by lia) (hshape.base ▸ hfloor.1) (by rw [hspan, hshape.stop]; exact hstop)
      (by lia), hspan]
    simp only [Mapping.pageOf, hshape.base] at hfirst ⊢
    rw [hfirst]
  have hunlocked := Mapping.sameShape_withProtection code (code.pageOf target) (code.pageOf (target + bytes.size - 1) + 1)
    .readWrite
  have hwritten := Mapping.sameShape_withBytes (m := code.withProtection (code.pageOf target)
    (code.pageOf (target + bytes.size - 1) + 1) .readWrite) htarget hstop
  have hstore := (h.update hcode hunlocked).store_eq_done (mem_update_self hcode rfl) hlimit hpos htarget hstop
    fun i h1 h2 p hp => by
      rw [Mapping.getElem?_withProtection, if_pos ⟨h1, Nat.lt_succ_of_le h2⟩] at hp
      obtain ⟨_, -, rfl⟩ := Option.map_eq_some_iff.1 hp
      rfl
  have hboth := hunlocked.trans hwritten
  have hseal := hprotect _ _ .readExecute (h.update hcode hboth) (mem_update_self hcode hboth.base) hboth
  have hbase : (code.withBytes target bytes).base = _ := hboth.base.symm
  rw [Mapping.withProtection_withBytes_withProtection hsealed, update_update hbase] at hseal
  rw [update_update hwritten.base] at hstore
  exact ⟨_, _, hprotect space code .readWrite h hcode (.refl code), hstore, hseal⟩

end Space

/-! ## Patches and guards -/

/-- A patch of so many bytes at the target is accepted: it has no bytes, or it lies in the region. -/
def Region.Accepts (region : Region) (target : Address) (len : Nat) : Prop :=
  len = 0 ∨ (region.base ≤ target ∧ target + len ≤ region.base + region.size)

instance (region : Region) (target : Address) (len : Nat) : Decidable (region.Accepts target len) :=
  inferInstanceAs (Decidable (_ ∨ _))

theorem Region.containsRange_eq {region : Region} {target : Address} {len : Nat}
    (hlimit : region.base + region.size < Word.count) (hpos : 0 < len) :
    region.containsRange target len = some (decide (region.Accepts target len)) := by
  have hregion : region.limit = some (region.base + region.size) := Word.add_eq_some_iff.2 ⟨rfl, hlimit⟩
  unfold Region.containsRange
  split
  · rename_i hnone
    have := Word.add_eq_none_iff.1 hnone
    rw [decide_eq_false]
    rintro (h | h)
    · lia
    · lia
  · rename_i stop hstop
    obtain ⟨rfl, -⟩ := Word.add_eq_some_iff.1 hstop
    rw [hregion, Option.map_some, Option.some.injEq, decide_eq_decide, Region.Accepts]
    constructor
    · rintro ⟨h1, -, h2⟩
      exact Or.inr ⟨h1, h2⟩
    · rintro (h | ⟨h1, h2⟩)
      · lia
      · exact ⟨h1, by lia, h2⟩

namespace Testbed

/-- The test bed serves patches through the image without disturbance; the code is this mapping. -/
structure Serves (bed : Testbed) (image : Image) (code : Mapping) : Prop where
  wellFormed : bed.machine.space.WellFormed
  mem : code ∈ bed.machine.space
  base : image.code.base = code.base
  size : image.code.size = code.size
  sealed : ∀ p ∈ code.pages, p = .readExecute
  room : code.stop + pageBytes < Word.count
  quiet : bed.Quiet
  pageSize : image.pageSize = pageBytes
  tolerant : image.config.strictThreads = false

variable {bed bed' : Testbed} {image : Image} {code : Mapping} {target : Address} {bytes : Bytes} {C : Testbed → Prop}
  {E : Error → Testbed → Prop}

theorem Serves.still (h : bed.Serves image code) (hstill : bed.Still bed') : bed'.Serves image code :=
  { h with
    wellFormed := hstill.space ▸ h.wellFormed
    mem := hstill.space ▸ h.mem
    quiet := h.quiet.follows hstill.toFollows }

theorem Serves.stop_eq (h : bed.Serves image code) : image.code.base + image.code.size = code.stop := by
  rw [h.base, h.size, Mapping.stop]

theorem Serves.stop_lt (h : bed.Serves image code) : code.stop < Word.count :=
  Nat.lt_of_le_of_lt (Nat.le_add_right _ _) h.room

theorem Serves.limit_eq (h : bed.Serves image code) : image.code.limit = some code.stop :=
  (Region.limit_eq_some_iff h.base h.size).2 ⟨rfl, h.stop_lt⟩

/-- What the code region holds while it serves patches. -/
theorem Serves.holds (h : bed.Serves image code) : bed.machine.space.Holds image.code code.bytes :=
  ⟨h.wellFormed, code, h.mem, h.base.symm, h.size.symm, rfl, h.stop_lt⟩

/-- Every page of the code can be read and executed. -/
theorem Serves.protectionAt_eq {a : Address} (h : bed.Serves image code) (h1 : image.code.base ≤ a)
    (h2 : a < image.code.base + image.code.size) : bed.machine.space.protectionAt a = some .readExecute := by
  have hcovers : code.Covers a := ⟨h.base ▸ h1, h.stop_eq ▸ h2⟩
  have hholding := h.wellFormed.holding_eq_done (n := 1) h.mem hcovers hcovers.2 h.stop_lt
  simp only [Space.protectionAt, hholding]
  exact Space.page_of_uniform (h.wellFormed.mappings code h.mem).size_eq h.sealed hcovers

/-- A process that was just prepared serves patches. -/
theorem serves_prepared {before : Space} {layout : Layout} {constants data x : Mapping} (hwf : before.WellFormed)
    (hmaps : layout.Maps before code constants data) (hx : x.Mirrors before code constants data)
    (hspace : bed.machine.space = before.update (code.painted .readExecute) ++ [x]) (hquiet : bed.Quiet)
    {config : Config} {pageSize : Nat} (hpageSize : pageSize = pageBytes) (htolerant : config.strictThreads = false) :
    bed.Serves { config, code := layout.code, shadow := ⟨x.base, x.size, layout.code⟩, pageSize }
      (code.painted .readExecute) := by
  have hshape := Mapping.sameShape_painted code .readExecute
  have hmem := List.mem_append_left [x] hmaps.code_mem
  rw [← hx.update_append (m := code.painted .readExecute) hwf hmaps.code_mem rfl] at hspace
  exact {
    wellFormed := hspace ▸ (hx.wellFormed_append hwf).update hmem hshape
    mem := hspace ▸ Space.mem_update_self hmem rfl
    base := hmaps.code_base
    size := hmaps.code_size.trans hshape.size.symm
    sealed := fun p => Mapping.mem_pages_painted
    room := by
      have h1 := hx.behind code hmaps.code_mem
      have h2 := hx.wellFormed.base_lt_stop
      have h3 := hx.room
      rw [hshape.stop]
      lia
    quiet := hquiet
    pageSize := hpageSize
    tolerant := htolerant }

/-- Preparing a process that tolerates threads that refuse, if nothing is left that can go wrong, lets it serve patches. -/
theorem wp_prepare_serves {attempted : Bool} {imageBase : Address} {config : Config} (hwf : bed.machine.space.WellFormed)
    (hs : bed.machine.space.Addressable) (htolerant : config.strictThreads = false) :
    (Image.prepare .other attempted imageBase pageBytes config).wp (fun image bed' => bed'.Quiet → ∃ code, bed'.Serves image code)
      (fun _ _ => True) (fun _ => True) bed :=
  wp_prepare (fun _ => trivial) <| wp_establish hwf hs
    (fun _ _ _ _ _ _ _ _ hmaps hx hspace hquiet => ⟨_, serves_prepared hwf hmaps hx hspace hquiet rfl htolerant⟩)
    (fun _ _ _ _ _ _ => trivial) (fun _ _ _ _ _ _ => trivial) (fun _ _ _ _ _ _ _ _ => trivial) fun _ _ => trivial

/-- A process is prepared if nothing keeps it from that. -/
theorem Unhindered.exists_prepared {world : World Testbed} {attempted : Bool} {imageBase : Address} {config : Config}
    {layout : Layout} (h : world.kernel.Unhindered .other (config.imageBase.getD imageBase) config)
    (hwf : world.kernel.machine.space.WellFormed) (hs : world.kernel.machine.space.Addressable)
    (hl : layout.LocatedIn world.kernel.machine.space (config.imageBase.getD imageBase)) : ∃ image after,
      (Image.prepare .other attempted imageBase pageBytes config).run world = (.done image, after) ∧ after.kernel.Quiet ∧
        image.config = config ∧ image.code = layout.code := by
  have hwp : (Image.prepare .other attempted imageBase pageBytes config).wp
      (fun image bed' => bed'.Quiet ∧ image.config = config ∧ image.code = layout.code) (fun _ _ => False) (fun _ => False)
      world.kernel := by
    refine wp_prepare (fun hhost => hhost rfl) (wp_establish hwf hs
      (fun layout' code constants data x bed' hfollows hl' hmaps hx hspace => ?_) (fun _ _ _ _ _ hu => hu h)
      (fun _ _ _ _ _ hu => hu h) (fun _ _ _ _ _ _ _ hu => hu h) fun hu => absurd h hu)
    exact ⟨h.quiet.follows hfollows, rfl, hl'.code_eq hl.code⟩
  exact Program.exists_run_done hwp

/-- An accepted patch keeps the shape of the code. -/
theorem Serves.sameShape_withBytes (h : bed.Serves image code) (haccepts : image.code.Accepts target bytes.size) :
    code.SameShape (code.withBytes target bytes) := by
  rcases haccepts with hempty | ⟨h1, h2⟩
  · rw [Array.eq_empty_of_size_eq_zero hempty, Mapping.withBytes_empty]
    exact .refl code
  · exact Mapping.sameShape_withBytes (h.base ▸ h1) (h.stop_eq ▸ h2)

/-- After a patch the test bed still serves, and the code is as it was with the patch in place. -/
theorem Serves.patched (h : bed.Serves image code) (hfollows : bed.Follows bed')
    (haccepts : image.code.Accepts target bytes.size)
    (hspace : bed'.machine.space = bed.machine.space.update (code.withBytes target bytes)) :
    bed'.Serves image (code.withBytes target bytes) := by
  have hshape := h.sameShape_withBytes haccepts
  exact {
    wellFormed := hspace ▸ h.wellFormed.update h.mem hshape
    mem := hspace ▸ Space.mem_update_self h.mem rfl
    base := h.base
    size := h.size.trans hshape.size.symm
    sealed := h.sealed
    room := hshape.stop ▸ h.room
    quiet := h.quiet.follows hfollows
    pageSize := h.pageSize
    tolerant := h.tolerant }

/-- On a quiet test bed, what is there is read. -/
theorem Quiet.wp_read {step : Step} {a : Address} {n : Nat} {Q : Bytes → Testbed → Prop} (h : bed.Quiet)
    (hload : bed.machine.space.load a n = .done bytes) (hdone : ∀ bed', bed.Still bed' → Q bytes bed') :
    ((request (.read a n)).during step).wp Q E C bed := by
  refine Testbed.wp_read ?_ ?_ ?_
  · intro actual read h' hread bed' hbed'
    rw [hload] at h'
    cases h'
    rw [hread h]
    exact hdone bed' hbed'
  · intro code _ _ hfail
    rw [hfail h] at hload
    cases hload
  · intro h'
    rw [hload] at h'
    cases h'

/-- The bytes under an accepted patch are as many as those of the patch. -/
theorem Serves.size_bytesAt {n : Nat} (h : bed.Serves image code) (haccepts : image.code.Accepts target n) :
    (code.bytesAt target n).size = n := by
  have hsize : code.bytes.size = image.code.size := h.size.symm
  have hbase := h.base
  rw [Mapping.bytesAt, Array.size_extract]
  rcases haccepts with hempty | ⟨h1, h2⟩
  · lia
  · lia

/-- Bytes of the code are read as they are. -/
theorem Serves.load_eq_done {n : Nat} (h : bed.Serves image code) (hpos : 0 < n) (htarget : code.base ≤ target)
    (hstop : target + n ≤ code.stop) : bed.machine.space.load target n = .done (code.bytesAt target n) := by
  refine h.wellFormed.load_eq_done h.mem h.stop_lt hpos htarget hstop fun p hp => ?_
  rw [h.sealed p hp]
  rfl

/-- Overwriting a range inside the code does that and nothing else. -/
theorem Serves.wp_overwrite {Q : Unit → Testbed → Prop} (h : bed.Serves image code) (hpos : 0 < bytes.size)
    (htarget : code.base ≤ target) (hstop : target + bytes.size ≤ code.stop)
    (hdone : ∀ bed', bed.Follows bed' → bed'.machine.space = bed.machine.space.update (code.withBytes target bytes) → Q () bed') :
    (image.overwrite .other target bytes).wp Q E C bed := by
  have hlimit : target + bytes.size < Word.count := by
    have := h.room
    lia
  have hspan : PageSpan.covering target bytes.size image.pageSize =
      some ⟨pageFloor target, target + bytes.size - pageFloor target⟩ := by
    rw [h.pageSize, PageSpan.covering, if_pos ⟨12, rfl⟩, Word.add_eq_some_iff.2 ⟨rfl, hlimit⟩]
    rfl
  have haccepts : image.code.Accepts target bytes.size := Or.inr ⟨h.base ▸ htarget, h.stop_eq ▸ hstop⟩
  rw [Image.overwrite, overwriteCode, hspan, Program.require_some, Program.done_bind, h.tolerant, Program.wp_bind]
  refine wp_runRoutine (fun error bed₁ h₁ _ hq => nomatch (hq rfl h.quiet).1.1) nofun fun _ bed₁ h₁ => ?_
  have hwritten := h.wellFormed.overwrite h.mem h.room h.sealed hpos htarget hstop
  rw [← h₁.space] at hwritten
  obtain ⟨space₁, space₂, hopen, hstore, hclose⟩ := hwritten
  have hq₁ := h.quiet.follows h₁.toFollows
  rw [writeCode, Program.wp_bind]
  refine wp_protect_done hopen (fun bed₂ h₂ hspace₂ => ?_) fun _ _ _ hq => absurd hq₁ hq
  have hq₂ := hq₁.follows h₂
  rw [Program.wp_bind, Program.wp_attempt]
  refine wp_write_done (hspace₂ ▸ hstore) (fun bed₃ h₃ hspace₃ => ?_) fun _ _ _ hq => absurd hq₂ hq
  have hq₃ := hq₂.follows h₃
  rw [Program.wp_bind, Program.wp_attempt]
  refine wp_protect_done (hspace₃ ▸ hclose)
    (fun bed₄ h₄ hspace₄ bed₅ h₅ => ⟨?_, fun code hq => absurd (hq₃.follows h₄) hq⟩) fun _ _ _ hq => absurd hq₃ hq
  have hfollows₅ := h₁.toFollows.trans (h₂.trans (h₃.trans (h₄.trans h₅.toFollows)))
  rw [Program.wp_bind]
  refine wp_flush fun bed₆ h₆ => ?_
  have hfollows₆ := hfollows₅.trans h₆.toFollows
  have hspace₆ : bed₆.machine.space = bed.machine.space.update (code.withBytes target bytes) := by
    rw [h₆.space, h₅.space, hspace₄, h₁.space]
  dsimp only
  split
  · have hload := (h.patched hfollows₆ haccepts hspace₆).load_eq_done hpos htarget
      (Nat.le_trans hstop (Nat.le_of_eq (Mapping.sameShape_withBytes htarget hstop).stop.symm))
    rw [Mapping.bytesAt_withBytes htarget hstop] at hload
    rw [Image.verify, Program.wp_bind, Program.wp_bind]
    refine (h.quiet.follows hfollows₆).wp_read hload fun bed₇ h₇ => ?_
    rw [if_pos rfl]
    exact hdone bed₇ (hfollows₆.trans h₇.toFollows) (h₇.space.trans hspace₆)
  · exact hdone bed₆ hfollows₆ hspace₆

/-- A patch inside the code is made, and any other one refused. -/
theorem Serves.wp_patch {Q : Unit → Testbed → Prop} (h : bed.Serves image code)
    (hdone : image.code.Accepts target bytes.size → ∀ bed', bed.Follows bed' →
      bed'.machine.space = bed.machine.space.update (code.withBytes target bytes) → Q () bed')
    (hrefused : ¬ image.code.Accepts target bytes.size →
      E (.outOfRange target bytes.size image.code.base code.stop) bed) :
    (image.patch .other target bytes).wp Q E C bed := by
  have hlimit : image.code.base + image.code.size < Word.count := h.stop_eq ▸ h.stop_lt
  rw [Image.patch]
  split
  · rename_i hempty
    cases Array.isEmpty_iff.1 hempty
    refine hdone (Or.inl rfl) bed (Follows.refl bed) ?_
    rw [Mapping.withBytes_empty, h.wellFormed.update_self h.mem]
  · rename_i hempty
    have hpos : 0 < bytes.size := Nat.pos_of_ne_zero (mt Array.isEmpty_iff_size_eq_zero.2 hempty)
    rw [Region.containsRange_eq hlimit hpos, Program.require_some, Program.done_bind]
    split
    · rename_i haccepts
      have haccepts := of_decide_eq_true haccepts
      rw [wp_reporting]
      rcases haccepts with hzero | ⟨h1, h2⟩
      · lia
      · exact h.wp_overwrite hpos (h.base ▸ h1) (h.stop_eq ▸ h2) (hdone (Or.inr ⟨h1, h2⟩))
    · rename_i haccepts
      rw [Image.rangeError, h.limit_eq, Option.map_some, Program.require_some, Program.done_bind, wp_reporting]
      exact hrefused (of_decide_eq_false (by simpa using haccepts))

/-- A guarded patch keeps what it replaces. -/
theorem Serves.wp_guardedPatch {Q : Guard → Testbed → Prop} (h : bed.Serves image code)
    (hdone : image.code.Accepts target bytes.size → ∀ bed', bed.Follows bed' →
      bed'.machine.space = bed.machine.space.update (code.withBytes target bytes) →
      Q { image, target, saved := code.bytesAt target bytes.size } bed')
    (hrefused : ¬ image.code.Accepts target bytes.size →
      E (.outOfRange target bytes.size image.code.base code.stop) bed) :
    (image.guardedPatch .other target bytes).wp Q E C bed := by
  have hlimit : image.code.base + image.code.size < Word.count := h.stop_eq ▸ h.stop_lt
  have hsaved : (image.save target bytes.size).wp (fun saved bed' => bed.Still bed' ∧
      image.code.Accepts target bytes.size ∧ saved = code.bytesAt target bytes.size) E C bed := by
    rw [Image.save]
    split
    · rename_i hzero
      exact ⟨Still.refl bed, Or.inl hzero, hzero ▸ (Mapping.bytesAt_zero code target).symm⟩
    · rename_i hpos
      have hpos := Nat.pos_of_ne_zero hpos
      rw [Region.containsRange_eq hlimit hpos, Program.require_some, Program.done_bind]
      split
      · rename_i haccepts
        have haccepts := of_decide_eq_true haccepts
        rcases haccepts with hzero | ⟨h1, h2⟩
        · lia
        · exact h.quiet.wp_read (h.load_eq_done hpos (h.base ▸ h1) (h.stop_eq ▸ h2)) fun bed' h' => ⟨h', Or.inr ⟨h1, h2⟩, rfl⟩
      · rename_i haccepts
        rw [Image.rangeError, h.limit_eq, Option.map_some, Program.require_some, Program.done_bind]
        exact hrefused (of_decide_eq_false (by simpa using haccepts))
  rw [Image.guardedPatch, Program.wp_bind]
  refine Program.wp_mono hsaved (fun saved bed₁ hs => ?_) (fun _ _ h => h) fun _ h => h
  obtain ⟨h₁, haccepts, rfl⟩ := hs
  rw [Program.wp_bind]
  refine (h.still h₁).wp_patch (fun _ bed₂ h₂ hspace₂ => ?_) fun hrefuses => absurd haccepts hrefuses
  exact hdone haccepts bed₂ (h₁.toFollows.trans h₂) (h₁.space ▸ hspace₂)

/-- Releasing a guard puts its bytes back. -/
theorem Serves.wp_release {guard : Guard} {Q : Unit → Testbed → Prop} (h : bed.Serves guard.image code)
    (haccepts : guard.image.code.Accepts guard.target guard.saved.size)
    (hdone : ∀ bed', bed.Follows bed' →
      bed'.machine.space = bed.machine.space.update (code.withBytes guard.target guard.saved) → Q () bed') :
    (guard.release .other).wp Q E C bed := by
  rw [Guard.release, Program.wp_bind, Program.wp_attempt]
  exact h.wp_patch (fun _ bed' h' hspace => hdone bed' h' hspace) fun hrefuses => absurd haccepts hrefuses

end Testbed

/-- A small process can be prepared. -/
theorem Testbed.exists_prepared_threePages : ∃ image after,
    (Image.prepare .other false Space.imageBase pageBytes {}).run { kernel := threePages } = (.done image, after) ∧
      after.kernel.Quiet ∧ image.config = {} ∧ image.code = Layout.threePages.code :=
  (unhindered_threePages {} rfl).exists_prepared Space.wellFormed_threePages Space.addressable_threePages
    Layout.locatedIn_threePages

/-! ## A small process after preparing -/

/-- The shadow image of the small process. -/
def Mapping.threePagesShadow : Mapping where
  base := Space.imageBase + 3 * pageBytes + Space.allocationGap
  bytes := Array.replicate (3 * pageBytes) 0
  pages := Array.replicate 3 .readExecute

/-- The memory of the small process once it is prepared. -/
def Space.preparedPages : Space :=
  Space.threePages.update ((Mapping.fresh Space.imageBase pageBytes).painted .readExecute) ++ [.threePagesShadow]

/-- The image that preparing the small process gives. -/
def Image.threePages (config : Config) : Image where
  config := config
  code := Layout.threePages.code
  shadow := ⟨Mapping.threePagesShadow.base, Mapping.threePagesShadow.size, Layout.threePages.code⟩
  pageSize := pageBytes

/-- There is but one shadow image of the small process. -/
theorem Mapping.Mirrors.eq_threePagesShadow {x code constants data : Mapping}
    (h : x.Mirrors Space.threePages code constants data)
    (hmem : code ∈ Space.threePages ∧ constants ∈ Space.threePages ∧ data ∈ Space.threePages) : x = .threePagesShadow := by
  have hempty : ∀ m ∈ Space.threePages, m.bytes = Array.replicate pageBytes 0 := by
    simp [Space.threePages, Mapping.fresh]
  have hbytes : x.bytes = Array.replicate (3 * pageBytes) 0 := by
    rw [h.bytes]
    simp only [Mapping.contents, hempty _ hmem.1, hempty _ hmem.2.1, hempty _ hmem.2.2, Array.append_empty,
      Array.replicate_append_replicate]
    rfl
  have hbase : x.base = Space.imageBase + 3 * pageBytes + Space.allocationGap := by
    obtain ⟨last, hlast, hnear⟩ := h.near
    have hle := (Space.mem_threePages hlast).2.2.2
    have hbehind := h.behind (.fresh (Space.imageBase + 2 * pageBytes) pageBytes) (by simp [Space.threePages])
    rw [Mapping.stop_fresh] at hbehind
    lia
  have hcount : x.pages.size = 3 := by
    have hsize := h.wellFormed.size_eq
    rw [Mapping.size, hbytes, Array.size_replicate] at hsize
    exact Nat.eq_of_mul_eq_mul_right Mapping.pageBytes_pos hsize.symm
  have hpages : x.pages = Array.replicate 3 .readExecute := Array.eq_replicate_iff.2 ⟨hcount, h.pages⟩
  obtain ⟨base, bytes, pages⟩ := x
  cases hbase
  cases hbytes
  cases hpages
  rfl

/-- Preparing the small process gives its image, and the memory that goes with it. -/
theorem Testbed.prepare_threePages {config : Config} (htolerant : config.strictThreads = false)
    (hbase : config.imageBase = none) : ∃ after,
      (Image.prepare .other false Space.imageBase pageBytes config).run { kernel := threePages } =
        (.done (.threePages config), after) ∧ after.kernel.machine.space = Space.preparedPages := by
  have hgetD : config.imageBase.getD Space.imageBase = Space.imageBase := by rw [hbase, Option.getD_none]
  have hu : threePages.Unhindered .other (config.imageBase.getD Space.imageBase) config := by
    rw [hgetD]
    exact unhindered_threePages config htolerant
  have hmem : Mapping.fresh Space.imageBase pageBytes ∈ Space.threePages := by simp [Space.threePages]
  have hwp : (Image.prepare .other false Space.imageBase pageBytes config).wp
      (fun image bed' => image = .threePages config ∧ bed'.machine.space = Space.preparedPages) (fun _ _ => False)
      (fun _ => False) threePages := by
    refine wp_prepare (fun hhost => hhost rfl) (wp_establish Space.wellFormed_threePages Space.addressable_threePages
      (fun layout code constants data x bed' _ hl hmaps hx hspace => ?_) (fun _ _ _ _ _ h => h hu)
      (fun _ _ _ _ _ h => h hu) (fun _ _ _ _ _ _ _ h => h hu) fun h => absurd hu h)
    cases hx.eq_threePagesShadow ⟨hmaps.code_mem, hmaps.constants_mem, hmaps.data_mem⟩
    rw [hgetD] at hl
    have hlayout := hl.code_eq Layout.locatedIn_threePages.code
    have hcode : code.base = Space.imageBase := by rw [← hmaps.code_base, hlayout]; rfl
    cases Space.wellFormed_threePages.eq_of_base_eq hmaps.code_mem hmem hcode
    exact ⟨by rw [hlayout]; rfl, hspace⟩
  obtain ⟨_, after, hrun, rfl, hspace⟩ := @Program.exists_run_done _ _ _ _ _ _ { kernel := threePages } hwp
  exact ⟨after, hrun, hspace⟩

end LivePatch
