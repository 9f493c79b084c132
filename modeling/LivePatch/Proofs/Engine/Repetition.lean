import LivePatch.Proofs.Engine.Serving

/-!
# Preparing again

Preparing a process leaves everything in place for preparing it again: the code is where it was, with its bytes, and so are
the data regions, and what was added lies behind all of it. So a process can be prepared as often as there is room for shadow
images, from every base from which the code was found at first, and patched in between.
-/

namespace LivePatch

/-- How much further the mappings reach after each preparation. -/
def Space.stride (code constants data : Mapping) : Nat :=
  Space.allocationGap + (code.size + constants.size + data.size)

/-- The process can be prepared so many more times: the regions that were there before are there still, the code perhaps with
other bytes and protections, and there is room. -/
structure Space.Grounds (space before : Space) (code constants data : Mapping) (left : Nat) (current : Mapping) : Prop where
  wellFormed : space.WellFormed
  room : ∀ m ∈ space, m.stop + left * Space.stride code constants data + pageBytes < Word.count
  lower : ∀ m ∈ space, m.base < code.base → m ∈ before
  mem : current ∈ space
  shape : code.SameShape current
  readable : current.Readable
  constants_mem : constants ∈ space
  constants_readable : constants.Readable
  data_mem : data ∈ space
  data_readable : data.Readable
  code_stop : code.stop = constants.base
  constants_stop : constants.stop = data.base

/-- Patches through the image go to this code, by its pages, and tolerate threads that refuse. -/
structure Image.Patches (image : Image) (code : Mapping) : Prop where
  base : image.code.base = code.base
  size : image.code.size = code.size
  pageSize : image.pageSize = pageBytes
  tolerant : image.config.strictThreads = false

/-- An image accepts what its code does. -/
theorem Image.Patches.accepts_iff {image : Image} {code : Mapping} {region : Region} (h : image.Patches code)
    (hbase : region.base = code.base) (hsize : region.size = code.size) (target : Address) (n : Nat) :
    image.code.Accepts target n ↔ region.Accepts target n := by
  rw [Region.Accepts, Region.Accepts, h.base, h.size, hbase, hsize]

namespace Space.Grounds

variable {space before : Space} {code constants data current x y : Mapping} {left : Nat} {base : Address}

theorem addressable (h : space.Grounds before code constants data left current) : space.Addressable := by
  intro m hm
  have := h.room m hm
  rw [Nat.add_assoc] at this
  exact Nat.lt_of_le_of_lt (Nat.le_add_right _ _) this

theorem code_lt_stop (h : space.Grounds before code constants data left current) : code.base < code.stop := by
  have := (h.wellFormed.mappings current h.mem).base_lt_stop
  rw [h.shape.base, h.shape.stop] at this
  exact this

/-- The data regions lie behind the code. -/
theorem data_base_ne (h : space.Grounds before code constants data left current) :
    constants.base ≠ code.base ∧ data.base ≠ code.base := by
  have h1 := h.code_lt_stop
  have h2 := (h.wellFormed.mappings constants h.constants_mem).base_lt_stop
  have h3 := h.code_stop
  have h4 := h.constants_stop
  constructor
  · lia
  · lia

/-- The code may be exchanged for a mapping of its shape that can be read. -/
theorem exchange (h : space.Grounds before code constants data left current) (hshape : current.SameShape y)
    (hreadable : y.Readable) : (space.update y).Grounds before code constants data left y := by
  have hbase : y.base = code.base := hshape.base.trans h.shape.base
  have hkeep : ∀ m ∈ space, m.base ≠ code.base → m ∈ space.update y :=
    fun m hm hne => mem_update_iff.2 (Or.inr ⟨hm, hbase ▸ hne⟩)
  exact {
    wellFormed := h.wellFormed.update h.mem hshape
    room := fun m hm => by
      rcases mem_update_iff.1 hm with ⟨rfl, -⟩ | ⟨hm, -⟩
      · rw [hshape.stop]
        exact h.room current h.mem
      · exact h.room m hm
    lower := fun m hm hlt => by
      rcases mem_update_iff.1 hm with ⟨rfl, -⟩ | ⟨hm, -⟩
      · lia
      · exact h.lower m hm hlt
    mem := mem_update_self h.mem hshape.base
    shape := h.shape.trans hshape
    readable := hreadable
    constants_mem := hkeep constants h.constants_mem h.data_base_ne.1
    constants_readable := h.constants_readable
    data_mem := hkeep data h.data_mem h.data_base_ne.2
    data_readable := h.data_readable
    code_stop := h.code_stop
    constants_stop := h.constants_stop }

/-- A shadow image behind everything takes up the room of one preparation. -/
theorem append (h : space.Grounds before code constants data (left + 1) current)
    (hx : x.Mirrors space current constants data) : (space ++ [x]).Grounds before code constants data left current := by
  have hsize : x.size = code.size + constants.size + data.size := by
    rw [Mapping.size, hx.bytes, Mapping.size_contents, h.shape.size]
  obtain ⟨last, hlast, hnear⟩ := hx.near
  have hbehind := hx.behind current h.mem
  have hroom := h.room
  rw [Nat.succ_mul] at hroom
  exact {
    wellFormed := hx.wellFormed_append h.wellFormed
    room := fun m hm => by
      rcases List.mem_append.1 hm with hm | hm
      · have := hroom m hm
        lia
      · have := hroom last hlast
        have hstride : Space.stride code constants data = allocationGap + (code.size + constants.size + data.size) := rfl
        rw [List.mem_singleton.1 hm, Mapping.stop, hsize, hnear]
        lia
    lower := fun m hm hlt => by
      rcases List.mem_append.1 hm with hm | hm
      · exact h.lower m hm hlt
      · have := h.code_lt_stop
        rw [h.shape.stop] at hbehind
        rw [List.mem_singleton.1 hm] at hlt
        lia
    mem := List.mem_append_left _ h.mem
    shape := h.shape
    readable := h.readable
    constants_mem := List.mem_append_left _ h.constants_mem
    constants_readable := h.constants_readable
    data_mem := List.mem_append_left _ h.data_mem
    data_readable := h.data_readable
    code_stop := h.code_stop
    constants_stop := h.constants_stop }

/-- From where the code was found at first, it is found still, with the same mappings behind it. -/
theorem adjoins (h : space.Grounds before code constants data left current) (hnext : before.Next base code) :
    space.Adjoins base current constants data := by
  refine ⟨⟨h.mem, h.shape.stop ▸ hnext.above, fun m hm hlt => ?_⟩, h.constants_mem, h.data_mem, h.shape.stop.trans h.code_stop,
    h.constants_stop⟩
  rw [h.shape.base]
  rcases Nat.lt_or_ge m.base code.base with hbelow | hge
  · exact hnext.lowest m (h.lower m hm hbelow) hlt
  · exact hge

end Space.Grounds

namespace Testbed

variable {bed : Testbed} {before : Space} {code constants data current : Mapping} {left : Nat} {base : Address}

/-- While there is room, nothing keeps the process from being prepared again. -/
theorem unhindered_of_grounds {config : Config} (hquiet : bed.Quiet) (hundiverted : bed.machine.diversion = none)
    (h : bed.machine.space.Grounds before code constants data (left + 1) current) (hnext : before.Next base code)
    (htolerant : config.strictThreads = false) : bed.Unhindered .other base config := by
  have hadjoins := h.adjoins hnext
  refine ⟨rfl, htolerant, hquiet, hundiverted, ?_, ?_⟩
  · obtain ⟨layout, hl, -⟩ := h.wellFormed.exists_locatedIn h.addressable hadjoins
    exact ⟨layout, hl⟩
  · intro layout code' constants' data' hl hmaps
    obtain ⟨rfl, rfl, rfl⟩ := hadjoins.unique h.wellFormed (h.wellFormed.adjoins_of_locatedIn h.addressable hl hmaps)
    refine ⟨⟨h.readable, h.constants_readable, h.data_readable⟩, fun m hm => ?_⟩
    have hroom := h.room m hm
    have hstride : Space.stride code constants' data' = Space.allocationGap + (code.size + constants'.size + data'.size) := rfl
    rw [Nat.succ_mul] at hroom
    rw [h.shape.size]
    lia

/-- While there is room, preparing the process succeeds, and leaves room for one time less. -/
theorem wp_prepare_again {attempted : Bool} {imageBase : Address} {config : Config} {Q : Image → Testbed → Prop}
    {E : Error → Testbed → Prop} {C : Testbed → Prop} (hquiet : bed.Quiet) (hundiverted : bed.machine.diversion = none)
    (h : bed.machine.space.Grounds before code constants data (left + 1) current)
    (hnext : before.Next (config.imageBase.getD imageBase) code) (htolerant : config.strictThreads = false)
    (hdone : ∀ image bed', bed.Follows bed' → image.Patches code →
      bed'.machine.space.Grounds before code constants data left (current.painted .readExecute) → Q image bed') :
    (Image.prepare .other attempted imageBase pageBytes config).wp Q E C bed := by
  have hu := unhindered_of_grounds hquiet hundiverted h hnext htolerant
  refine wp_prepare (fun hhost => absurd rfl hhost) (wp_establish h.wellFormed h.addressable
    (fun layout code' constants' data' x bed' hfollows hl hmaps hx hspace => ?_) (fun _ _ _ _ _ h => absurd hu h)
    (fun _ _ _ _ _ h => absurd hu h) (fun _ _ _ _ _ _ _ h => absurd hu h) fun h => absurd hu h)
  obtain ⟨rfl, rfl, rfl⟩ :=
    (h.adjoins hnext).unique h.wellFormed (h.wellFormed.adjoins_of_locatedIn h.addressable hl hmaps)
  refine hdone _ bed' hfollows ⟨hmaps.code_base.trans h.shape.base, hmaps.code_size.trans h.shape.size, rfl, htolerant⟩ ?_
  rw [hspace, ← hx.update_append (m := code'.painted .readExecute) h.wellFormed h.mem rfl]
  refine (h.append hx).exchange (Mapping.sameShape_painted code' .readExecute) fun p hp => ?_
  rw [Mapping.mem_pages_painted hp]
  rfl

/-- Once its code is sealed, the process serves patches through every image of it. -/
theorem serves_of_grounds {image : Image} (hquiet : bed.Quiet)
    (h : bed.machine.space.Grounds before code constants data left current) (himage : image.Patches code)
    (hsealed : ∀ p ∈ current.pages, p = .readExecute) : bed.Serves image current where
  wellFormed := h.wellFormed
  mem := h.mem
  base := himage.base.trans h.shape.base.symm
  size := himage.size.trans h.shape.size.symm
  sealed := hsealed
  room := by
    have := h.room current h.mem
    lia
  quiet := hquiet
  pageSize := himage.pageSize
  tolerant := himage.tolerant

end Testbed

end LivePatch
