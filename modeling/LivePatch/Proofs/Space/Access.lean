import LivePatch.Proofs.Space.Edit

/-!
# Protecting, reading and writing mapped memory

A call that succeeds on a range exchanges the one mapping that holds the range: protecting changes the pages that the range
meets, and writing the bytes of the range, in each case nothing else. On a range inside a mapping of a well-formed space that
grants what is needed the calls do succeed.
-/

namespace LivePatch

namespace Mapping

/-- The mapping with one protection on all its pages. -/
def painted (mapping : Mapping) (protection : Protection) : Mapping :=
  { mapping with pages := Array.replicate mapping.pages.size protection }

variable {m : Mapping} {a : Address} {n : Nat} {needed p q : Protection} {first last i : Nat}

theorem sameShape_painted (m : Mapping) (p : Protection) : m.SameShape (m.painted p) := ⟨rfl, rfl, by simp [painted]⟩

theorem mem_pages_painted (h : q ∈ (m.painted p).pages) : q = p := (Array.mem_replicate.1 h).2

/-- Protecting all pages paints the mapping. -/
theorem withProtection_all (m : Mapping) (p : Protection) : m.withProtection 0 m.pages.size p = m.painted p := by
  simp only [withProtection, painted, Mapping.mk.injEq, true_and]
  apply Array.ext
  · simp
  · intro i h1 h2
    have : i < m.pages.size := by simpa using h1
    simp [this]

/-- A page after protecting some pages. -/
theorem getElem?_withProtection (m : Mapping) (first stop i : Nat) (p : Protection) :
    (m.withProtection first stop p).pages[i]? = if first ≤ i ∧ i < stop then m.pages[i]?.map fun _ => p else m.pages[i]? := by
  simp only [withProtection, Array.getElem?_mapIdx]
  split <;> simp [*]

/-- A page after protecting some pages is protected as they are, or as it was. -/
theorem mem_pages_withProtection {stop : Nat} (h : q ∈ (m.withProtection first stop p).pages) : q = p ∨ q ∈ m.pages := by
  obtain ⟨i, hi⟩ := Array.mem_iff_getElem?.1 h
  rw [getElem?_withProtection] at hi
  split at hi
  · obtain ⟨_, -, rfl⟩ := Option.map_eq_some_iff.1 hi
    exact Or.inl rfl
  · exact Or.inr (Array.mem_of_getElem? hi)

theorem allows?_eq_true_iff :
    m.allows? first last needed = some true ↔
      last < m.pages.size ∧ ∀ i, first ≤ i → i ≤ last → ∀ p, m.pages[i]? = some p → p.allows needed := by
  unfold allows?
  split
  · rename_i hlast
    simp only [Option.some.injEq, Array.all_eq_true, hlast, true_and]
    constructor
    · intro h i h1 h2 p hp
      have hi : i - first < (m.pages.extract first (last + 1)).size := by
        rw [Array.size_extract]
        lia
      have := h (i - first) hi
      rw [Array.getElem_extract] at this
      obtain ⟨_, rfl⟩ := Array.getElem?_eq_some_iff.1 hp
      simpa [show first + (i - first) = i by lia] using this
    · intro h i hi
      have hsize := hi
      rw [Array.size_extract] at hsize
      rw [Array.getElem_extract]
      exact h (first + i) (by lia) (by lia) _ (Array.getElem?_eq_getElem _)
  · rename_i hlast
    simp [hlast]

/-- The pages that a range inside a well-formed mapping touches are pages of the mapping. -/
theorem WellFormed.pageOf_lt (h : m.WellFormed) (ha : m.Covers a) : m.pageOf a < m.pages.size := by
  have h1 := ha.1
  have h2 := ha.2
  rw [pageOf, Nat.div_lt_iff_lt_mul pageBytes_pos, ← h.size_eq]
  simp only [stop] at h2
  lia

end Mapping

namespace Space

variable {space space' : Space} {m : Mapping} {a : Address} {n : Nat} {needed p : Protection} {bytes : Bytes}

/-! ## Access to a range -/

/-- A range that may be accessed lies in one mapping, and all its pages grant the access. -/
theorem granted_of_granting_eq_done (h : space.granting a n needed = .done m) :
    (m ∈ space ∧ m.base ≤ a ∧ a + n ≤ m.stop) ∧
      ∀ i, m.pageOf a ≤ i → i ≤ m.pageOf (a + max n 1 - 1) → ∀ p, m.pages[i]? = some p → p.allows needed := by
  unfold granting at h
  simp only [Outcome.bind_eq_done_iff, Outcome.require_eq_done_iff, Word.add_eq_some_iff] at h
  obtain ⟨x, hx, _, ⟨rfl, -⟩, granted, hgranted, h⟩ := h
  split at h
  · rename_i hg
    cases h
    rw [hg, Mapping.allows?_eq_true_iff] at hgranted
    exact ⟨mem_of_holding_eq_done hx, hgranted.2⟩
  · cases h

/-- A range inside a mapping that grants the access on all its pages may be accessed. -/
theorem WellFormed.granting_eq_done (h : space.WellFormed) (hm : m ∈ space) (hs : m.stop < Word.count) (hn : 0 < n)
    (ha : m.base ≤ a) (han : a + n ≤ m.stop)
    (hp : ∀ i, m.pageOf a ≤ i → i ≤ m.pageOf (a + n - 1) → ∀ p, m.pages[i]? = some p → p.allows needed) :
    space.granting a n needed = .done m := by
  have hcovers : m.Covers a := ⟨ha, by lia⟩
  have hmax : max n 1 = n := Nat.max_eq_left hn
  have hadd : Word.add a n = some (a + n) := Word.add_eq_some_iff.2 ⟨rfl, by lia⟩
  have hlast : m.pageOf (a + n - 1) < m.pages.size := (h.mappings m hm).pageOf_lt ⟨by lia, by lia⟩
  have hallows := Mapping.allows?_eq_true_iff.2 ⟨hlast, hp⟩
  simp [granting, h.holding_eq_done hm hcovers han hs, hmax, hadd, hallows]

/-- If a page refuses the access, the protection is what is missing. -/
theorem WellFormed.granting_eq_failed (h : space.WellFormed) (hm : m ∈ space) (hs : m.stop < Word.count) (hn : 0 < n)
    (ha : m.base ≤ a) (han : a + n ≤ m.stop)
    (hp : ¬ ∀ i, m.pageOf a ≤ i → i ≤ m.pageOf (a + n - 1) → ∀ p, m.pages[i]? = some p → p.allows needed) :
    space.granting a n needed = .failed .protectionFailure := by
  have hcovers : m.Covers a := ⟨ha, by lia⟩
  have hmax : max n 1 = n := Nat.max_eq_left hn
  have hadd : Word.add a n = some (a + n) := Word.add_eq_some_iff.2 ⟨rfl, by lia⟩
  have hlast : m.pageOf (a + n - 1) < m.pages.size := (h.mappings m hm).pageOf_lt ⟨by lia, by lia⟩
  have hrefused : m.allows? (m.pageOf a) (m.pageOf (a + n - 1)) needed = some false := by
    have hne : m.allows? (m.pageOf a) (m.pageOf (a + n - 1)) needed ≠ some true := fun hallows =>
      hp (Mapping.allows?_eq_true_iff.1 hallows).2
    unfold Mapping.allows? at hne ⊢
    rw [if_pos hlast] at hne ⊢
    simpa using hne
  simp [granting, h.holding_eq_done hm hcovers han hs, hmax, hadd, hrefused]

/-- Writing exchanges the mapping that holds the range. -/
theorem update_of_store_eq_done (h : space.store a bytes = .done space') :
    ∃ m ∈ space, m.base ≤ a ∧ a + bytes.size ≤ m.stop ∧ space' = space.update (m.withBytes a bytes) := by
  obtain ⟨m, hm, h⟩ := Outcome.bind_eq_done_iff.1 h
  cases h
  obtain ⟨⟨hmem, ha, hn⟩, -⟩ := granted_of_granting_eq_done hm
  exact ⟨m, hmem, ha, hn, rfl⟩

/-- Copying writes what was read. -/
theorem store_of_copy_eq_done {d : Address} (h : space.copy a n d = .done space') :
    ∃ bytes, space.store d bytes = .done space' := by
  obtain ⟨bytes, -, hstore⟩ := Outcome.bind_eq_done_iff.1 h
  exact ⟨bytes, hstore⟩

theorem WellFormed.load_eq_done (h : space.WellFormed) (hm : m ∈ space) (hs : m.stop < Word.count) (hn : 0 < n)
    (ha : m.base ≤ a) (han : a + n ≤ m.stop) (hp : ∀ p ∈ m.pages, p.allows .readOnly) :
    space.load a n = .done (m.bytesAt a n) := by
  have := h.granting_eq_done hm hs hn ha han fun _ _ _ p hi => hp p (Array.mem_of_getElem? hi)
  simp [load, this]

theorem WellFormed.store_eq_done (h : space.WellFormed) (hm : m ∈ space) (hs : m.stop < Word.count) (hn : 0 < bytes.size)
    (ha : m.base ≤ a) (han : a + bytes.size ≤ m.stop)
    (hp : ∀ i, m.pageOf a ≤ i → i ≤ m.pageOf (a + bytes.size - 1) → ∀ p, m.pages[i]? = some p → p.allows .writeOnly) :
    space.store a bytes = .done (space.update (m.withBytes a bytes)) := by
  simp [store, h.granting_eq_done hm hs hn ha han hp]

/-! ## Protecting -/

theorem roundUp_eq_some_iff {k : Nat} :
    roundUp n = some k ↔ n + pageBytes < Word.count ∧ pageFloor (n + pageBytes - 1) = k := by
  rw [roundUp, Option.map_eq_some_iff]
  constructor
  · rintro ⟨top, htop, rfl⟩
    obtain ⟨rfl, htop⟩ := Word.add_eq_some_iff.1 htop
    exact ⟨htop, rfl⟩
  · rintro ⟨htop, rfl⟩
    exact ⟨_, Word.add_eq_some_iff.2 ⟨rfl, htop⟩, rfl⟩

/-- A number of whole pages is not rounded. -/
theorem roundUp_of_aligned (hn : n % pageBytes = 0) (htop : n + pageBytes < Word.count) : roundUp n = some n := by
  refine roundUp_eq_some_iff.2 ⟨htop, ?_⟩
  simp only [pageFloor, pageBytes] at *
  lia

/-- Some bytes take up some whole pages. -/
theorem whole_of_roundUp {k : Nat} (h : roundUp n = some k) (hn : 0 < n) : k % pageBytes = 0 ∧ 0 < k := by
  obtain ⟨-, rfl⟩ := roundUp_eq_some_iff.1 h
  simp only [pageFloor, pageBytes]
  lia

/-- Protecting exchanges one mapping, whatever the range. -/
theorem update_of_protect_eq_done (h : space.protect a n p = .done space') :
    ∃ m ∈ space, ∃ first stop, space' = space.update (m.withProtection first stop p) := by
  unfold protect at h
  simp only [Outcome.bind_eq_done_iff] at h
  obtain ⟨_, -, m, hm, h⟩ := h
  split at h
  · cases h
    exact ⟨m, (mem_of_holding_eq_done hm).1, _, _, rfl⟩
  · cases h

/-- Protecting a range inside a mapping protects the pages from that of its first byte to that of its last. -/
theorem WellFormed.protect_eq_done (h : space.WellFormed) (hm : m ∈ space) (hs : m.stop < Word.count) (hn : 0 < n)
    (ha : m.base ≤ a) (han : a + n ≤ m.stop) (htop : a + n + pageBytes < Word.count) :
    space.protect a n p = .done (space.update (m.withProtection (m.pageOf a) (m.pageOf (a + n - 1) + 1) p)) := by
  have hbase := (h.mappings m hm).aligned
  have hstop := (h.mappings m hm).stop_aligned
  have hlast : m.pageOf (a + n - 1) + 1 ≤ m.pages.size :=
    (h.mappings m hm).pageOf_lt ⟨by lia, by lia⟩
  have hadd : Word.add a n = some (a + n) := Word.add_eq_some_iff.2 ⟨rfl, by simp only [pageBytes] at htop; lia⟩
  have hround : roundUp (a + n) = some (pageFloor (a + n + pageBytes - 1)) := roundUp_eq_some_iff.2 ⟨htop, rfl⟩
  -- both ends of the rounded range stay inside the mapping, because it starts and ends on page boundaries
  have hfloor : m.base ≤ pageFloor a ∧ pageFloor a ≤ a := by
    simp only [pageFloor, pageBytes] at *
    lia
  have hceil : a + n ≤ pageFloor (a + n + pageBytes - 1) ∧ pageFloor (a + n + pageBytes - 1) ≤ m.stop := by
    simp only [pageFloor, pageBytes] at *
    lia
  have hfirst : m.pageOf (pageFloor a) = m.pageOf a := by
    simp only [Mapping.pageOf, pageFloor, pageBytes] at *
    lia
  have hend : m.pageOf (pageFloor (a + n + pageBytes - 1)) = m.pageOf (a + n - 1) + 1 := by
    simp only [Mapping.pageOf, pageFloor, pageBytes] at *
    lia
  have hholding : space.holding (pageFloor a) (pageFloor (a + n + pageBytes - 1) - pageFloor a) = .done m :=
    h.holding_eq_done hm ⟨hfloor.1, by lia⟩ (by lia) hs
  simp [protect, hadd, hround, hholding, hfirst, hend, hlast]

/-- Protecting a whole mapping paints it, unless rounding its end leaves the addresses. -/
theorem WellFormed.protect_whole (h : space.WellFormed) (hs : space.Addressable) (hm : m ∈ space) :
    space.protect m.base m.size p =
      if m.stop + pageBytes < Word.count then .done (space.update (m.painted p)) else .crashed := by
  have hwf := h.mappings m hm
  have hpos := hwf.size_pos
  split
  · rename_i htop
    have hfirst : m.pageOf m.base = 0 := by simp [Mapping.pageOf]
    have hlast : m.pageOf (m.base + m.size - 1) + 1 = m.pages.size := by
      have := hwf.size_eq
      simp only [Mapping.pageOf, pageBytes] at *
      lia
    rw [h.protect_eq_done hm (hs m hm) hpos (Nat.le_refl _) (Nat.le_refl _) htop, hfirst, hlast,
      Mapping.withProtection_all]
  · rename_i htop
    have hadd : Word.add m.base m.size = some m.stop := Mapping.limit_of_lt (hs m hm)
    have hround : roundUp m.stop = none := by
      rw [roundUp, Word.add_eq_none_iff.2 (Nat.le_of_not_lt htop)]
      rfl
    simp [protect, hadd, hround]

/-! ## Calls that succeeded -/

/-- Protecting a range with an address of a mapping in it protects pages of that mapping, among them the page of the address.
Which ones they are depends on the range and on where the mapping starts. -/
theorem WellFormed.update_of_protect_covered {b : Address} (h : space.WellFormed) (hm : m ∈ space) (hb : m.Covers b)
    (hab : a ≤ b) (hban : b < a + n) (hprotect : space.protect a n p = .done space') :
    space' = space.update
        (m.withProtection (m.pageOf (pageFloor a)) (m.pageOf (pageFloor (a + n + pageBytes - 1))) p) ∧
      m.pageOf (pageFloor a) ≤ m.pageOf b ∧ m.pageOf b < m.pageOf (pageFloor (a + n + pageBytes - 1)) := by
  unfold protect at hprotect
  simp only [Outcome.bind_eq_done_iff, Outcome.require_eq_done_iff, Option.bind_eq_some_iff, Word.add_eq_some_iff,
    roundUp_eq_some_iff] at hprotect
  obtain ⟨_, ⟨_, ⟨rfl, -⟩, -, rfl⟩, m', hholding, hprotect⟩ := hprotect
  split at hprotect
  · cases hprotect
    obtain ⟨hm', hbase, hstop⟩ := mem_of_holding_eq_done hholding
    have haligned := (h.mappings m hm).aligned
    have hfloor : pageFloor a ≤ a := Nat.sub_le _ _
    have hceil : a + n ≤ pageFloor (a + n + pageBytes - 1) := by
      simp only [pageFloor, pageBytes]
      lia
    cases h.eq_of_covers hm' hm ⟨by lia, by lia⟩ hb
    refine ⟨rfl, ?_, ?_⟩
    · exact Nat.div_le_div_right (Nat.sub_le_sub_right (Nat.le_trans hfloor hab) _)
    · simp only [Mapping.pageOf, pageFloor, pageBytes] at *
      lia
  · cases hprotect

/-- Writing from an address of a mapping on writes into that mapping. -/
theorem WellFormed.update_of_store_covered (h : space.WellFormed) (hm : m ∈ space) (ha : m.Covers a) (hpos : 0 < bytes.size)
    (hstore : space.store a bytes = .done space') :
    space' = space.update (m.withBytes a bytes) ∧ a + bytes.size ≤ m.stop := by
  obtain ⟨m', hm', hbase, hstop, rfl⟩ := update_of_store_eq_done hstore
  cases h.eq_of_covers hm' hm ⟨hbase, by lia⟩ ha
  exact ⟨rfl, hstop⟩

/-! ## Calls that return -/

/-- Whether a mapping holds a range of addresses can always be told. -/
theorem holding_ne_crashed (hs : space.Addressable) (hn : a + n < Word.count) : space.holding a n ≠ .crashed := by
  have hadd : Word.add a n = some (a + n) := Word.add_eq_some_iff.2 ⟨rfl, hn⟩
  unfold holding
  split
  · nofun
  · rename_i m hm
    rw [hadd, Outcome.require_some, Outcome.done_bind, Mapping.limit_of_lt (hs m (mem_of_atOrBelow?_eq_some hm).1),
      Outcome.require_some, Outcome.done_bind]
    split <;> nofun

/-- So can whether a range with a byte in it may be accessed. -/
theorem WellFormed.granting_ne_crashed (h : space.WellFormed) (hs : space.Addressable) (hpos : 0 < n)
    (hn : a + n < Word.count) : space.granting a n needed ≠ .crashed := by
  have hmax : max n 1 = n := Nat.max_eq_left hpos
  have hadd : Word.add a n = some (a + n) := Word.add_eq_some_iff.2 ⟨rfl, hn⟩
  rw [granting, hmax, hadd]
  rcases hholding : space.holding a n with m | _ | _
  · obtain ⟨hm, hbase, hstop⟩ := mem_of_holding_eq_done hholding
    have hlast : m.pageOf (a + n - 1) < m.pages.size := (h.mappings m hm).pageOf_lt ⟨by lia, by lia⟩
    rw [Outcome.done_bind, Outcome.require_some, Outcome.done_bind, Mapping.allows?, if_pos hlast, Outcome.require_some,
      Outcome.done_bind]
    split <;> nofun
  · nofun
  · exact absurd hholding (holding_ne_crashed hs hn)

theorem WellFormed.load_ne_crashed (h : space.WellFormed) (hs : space.Addressable) (hpos : 0 < n) (hn : a + n < Word.count) :
    space.load a n ≠ .crashed := by
  have hgranting : space.granting a n .readOnly ≠ .crashed := h.granting_ne_crashed hs hpos hn
  rw [load]
  cases hgranted : space.granting a n .readOnly with
  | done | failed => nofun
  | crashed => exact absurd hgranted hgranting

theorem WellFormed.store_ne_crashed (h : space.WellFormed) (hs : space.Addressable) (hpos : 0 < bytes.size)
    (hn : a + bytes.size < Word.count) : space.store a bytes ≠ .crashed := by
  have hgranting : space.granting a bytes.size .writeOnly ≠ .crashed := h.granting_ne_crashed hs hpos hn
  rw [store]
  cases hgranted : space.granting a bytes.size .writeOnly with
  | done | failed => nofun
  | crashed => exact absurd hgranted hgranting

/-- Protecting does not crash if the end of the range can be rounded. -/
theorem WellFormed.protect_ne_crashed (h : space.WellFormed) (hs : space.Addressable) (hn : a + n + pageBytes < Word.count) :
    space.protect a n p ≠ .crashed := by
  have hadd : Word.add a n = some (a + n) := Word.add_eq_some_iff.2 ⟨rfl, by lia⟩
  have hround : roundUp (a + n) = some (pageFloor (a + n + pageBytes - 1)) := roundUp_eq_some_iff.2 ⟨hn, rfl⟩
  have hends : pageFloor a ≤ pageFloor (a + n + pageBytes - 1) ∧ pageFloor (a + n + pageBytes - 1) < Word.count := by
    simp only [pageFloor, pageBytes] at *
    lia
  rw [protect, hadd, Option.bind_some, hround, Outcome.require_some, Outcome.done_bind]
  rcases hholding : space.holding (pageFloor a) (pageFloor (a + n + pageBytes - 1) - pageFloor a) with m | _ | _
  · obtain ⟨hm, hbase, hstop⟩ := mem_of_holding_eq_done hholding
    have hlast : m.pageOf (pageFloor (a + n + pageBytes - 1)) ≤ m.pages.size := by
      have hsize := (h.mappings m hm).size_eq
      have hpages : pageFloor (a + n + pageBytes - 1) - m.base ≤ m.pages.size * pageBytes := by
        simp only [Mapping.stop] at hstop
        lia
      have hquotient := Nat.div_le_div_right hpages (c := pageBytes)
      rw [Nat.mul_div_cancel _ Mapping.pageBytes_pos] at hquotient
      exact hquotient
    rw [Outcome.done_bind, if_pos hlast]
    rintro ⟨⟩
  · rintro ⟨⟩
  · exact absurd hholding (holding_ne_crashed hs (by lia))

end Space

end LivePatch
