import LivePatch.Proofs.Engine.Preparation
import LivePatch.Proofs.Simulation.Replay
import LivePatch.Proofs.Space.Upkeep

/-!
# New memory beside what is mapped

An allocation that is done adds one mapping of zeros, in whole pages, apart from all that were there, and one that fails adds nothing.
What is added takes the place of a mapping that has its base. Some bytes never get there, because they would meet that mapping. No bytes
meet nothing at the start of a mapping, and so it is gone behind an allocation that asks for none there.
-/

namespace LivePatch

/-- The size in whole pages, as few as hold it. -/
structure Rounds (size rounded : Nat) : Prop where
  whole : rounded % pageBytes = 0
  le : size ≤ rounded
  lt : rounded < size + pageBytes

/-- What an allocation of so many bytes at `base` makes of the memory `before`. -/
structure Space.Gains (before after : Space) (base : Address) (size rounded : Nat) : Prop where
  rounds : Rounds size rounded
  /-- The new mapping holds zeros and can be read and written. -/
  fresh : ∃ m ∈ after, m.base = base ∧ m.size = rounded ∧ (∀ i < rounded, m.bytes[i]? = some 0) ∧
    m.pages.size * pageBytes = rounded ∧ ∀ p ∈ m.pages, p = .readWrite
  apart : ∀ m ∈ before, base + rounded ≤ m.base ∨ m.stop ≤ base
  mem_iff : ∀ m, m ∈ after ↔ m = .fresh base rounded ∨ (m ∈ before ∧ m.base ≠ base)
  /-- No mapping is lost, unless no bytes were asked for at the base of one. -/
  kept_iff : (∀ m ∈ before, m ∈ after) ↔ ¬ (size = 0 ∧ ∃ m ∈ before, m.base = base)

namespace Space

variable {space after : Space} {base : Address} {size rounded : Nat}

/-- A size is rounded up to whole pages. -/
theorem rounds_of_roundUp (h : roundUp size = some rounded) : Rounds size rounded := by
  obtain ⟨-, rfl⟩ := roundUp_eq_some_iff.1 h
  constructor
  all_goals
    simp only [pageFloor, pageBytes]
    omega

/-- New memory holds zeros, and its pages are as many as its bytes fill. -/
theorem fresh_zeroed (base : Address) (h : rounded % pageBytes = 0) :
    (∀ i < rounded, (Mapping.fresh base rounded).bytes[i]? = some 0) ∧
      (Mapping.fresh base rounded).pages.size * pageBytes = rounded := by
  constructor
  · intro i hi
    simp [Mapping.fresh, hi]
  · simp only [Mapping.fresh, Array.size_replicate]
    exact Nat.div_mul_cancel (Nat.dvd_of_mod_eq_zero h)

/-- New memory in a well-formed space stands apart from all that was mapped, and takes away only what had its base. -/
theorem WellFormed.gains {placement : Placement} (h : space.WellFormed) (hround : roundUp size = some rounded)
    (hallocate : space.allocate placement rounded = .done (base, after)) : space.Gains after base size rounded := by
  obtain ⟨-, hmeets, -, rfl⟩ := allocate_eq_done_iff.1 hallocate
  have hrounds := rounds_of_roundUp hround
  have hmem : ∀ m, m ∈ space.insert (.fresh base rounded) ↔ m = .fresh base rounded ∨ (m ∈ space ∧ m.base ≠ base) :=
    fun m => mem_insert_iff h.bases
  have hapart := apart_of_overlaps hmeets
  obtain ⟨hzeros, hpages⟩ := fresh_zeroed base hrounds.whole
  refine ⟨hrounds, ?_, hapart, hmem, ?_⟩
  · exact ⟨.fresh base rounded, (hmem _).2 (Or.inl rfl), rfl, Mapping.size_fresh, hzeros, hpages, fun p => Mapping.mem_pages_fresh⟩
  · constructor
    · rintro hkept ⟨rfl, m, hm, rfl⟩
      -- the mapping at the base would be the new one, which is empty
      have hempty : rounded = 0 := by
        have hle := hrounds.lt
        have hwhole := hrounds.whole
        simp only [pageBytes] at hle hwhole
        omega
      rcases (hmem m).1 (hkept m hm) with hfresh | ⟨-, hne⟩
      · have hsize := (h.mappings m hm).size_pos
        rw [hfresh, Mapping.size_fresh, hempty] at hsize
        exact Nat.lt_irrefl 0 hsize
      · exact hne rfl
    · intro hnone m hm
      refine (hmem m).2 (Or.inr ⟨hm, fun hbase => hnone ⟨?_, m, hm, hbase⟩⟩)
      have hlong := (h.mappings m hm).base_lt_stop
      have hle := hrounds.le
      rcases hapart m hm with hahead | hbehind
      · lia
      · lia

end Space

/-- How an allocation ends, and what it makes of the memory. -/
structure Machine.Allocates (machine : Machine) (placement : Placement) (size : Nat) : Prop where
  /-- One that fails, or does not return, leaves the memory as it was. -/
  kept : (∀ base, (machine.allocate placement size).1 ≠ .done base) → (machine.allocate placement size).2.space = machine.space
  /-- One at a fixed address is done there, or where it was diverted to. -/
  base_eq : ∀ address base, placement = .fixed address → (machine.allocate placement size).1 = .done base →
    base = machine.diversion.getD address
  gains : ∀ base, (machine.allocate placement size).1 = .done base →
    ∃ rounded, machine.space.Gains (machine.allocate placement size).2.space base size rounded
  /-- If some bytes are asked for, all that was mapped is there as it was, and apart from the new mapping. -/
  undisturbed : ∀ base, (machine.allocate placement size).1 = .done base → 0 < size →
    ∀ m ∈ machine.space, m ∈ (machine.allocate placement size).2.space ∧ (base + size ≤ m.base ∨ m.stop ≤ base)

namespace Machine

variable {machine : Machine} {placement : Placement} {size : Nat}

/-- An allocation that is done is one of the memory, at the address to which it was diverted. -/
theorem allocate_of_done {base : Address} (hdone : (machine.allocate placement size).1 = .done base) :
    ∃ rounded, Space.roundUp size = some rounded ∧ machine.space.allocate (machine.divert placement).1 rounded =
      .done (base, (machine.allocate placement size).2.space) :=
  (answers_allocate machine placement size).1 (.ok base) (Outcome.toExcept?_eq_some_ok_iff.2 hdone)

/-- From a well-formed memory it adds a mapping of its own. -/
theorem gains_of_allocate {base : Address} (h : machine.space.WellFormed)
    (hdone : (machine.allocate placement size).1 = .done base) :
    ∃ rounded, machine.space.Gains (machine.allocate placement size).2.space base size rounded := by
  obtain ⟨rounded, hround, hallocate⟩ := allocate_of_done hdone
  exact ⟨rounded, h.gains hround hallocate⟩

/-- Whatever is asked of a well-formed memory, an allocation that is done adds a mapping of its own, and takes away another one only if
no bytes were asked for at its base. -/
theorem allocate_allocates (h : machine.space.WellFormed) : machine.Allocates placement size := by
  obtain ⟨hanswer, hcrash⟩ := answers_allocate machine placement size
  refine ⟨fun hne => ?_, ?_, fun base hdone => gains_of_allocate h hdone, ?_⟩
  · cases houtcome : (machine.allocate placement size).1 with
    | done base => exact absurd houtcome (hne base)
    | failed code => exact hanswer (.error code) (by simp [reply, houtcome, Outcome.toExcept?])
    | crashed => exact hcrash (by simp [reply, houtcome, Outcome.toExcept?])
  · rintro address base rfl hdone
    obtain ⟨rounded, -, hallocate⟩ := allocate_of_done hdone
    exact (Outcome.done.inj (Space.allocate_eq_done_iff.1 hallocate).1).symm
  · intro base hdone hpos m hm
    obtain ⟨rounded, hgains⟩ := gains_of_allocate h hdone
    have hkept := hgains.kept_iff.2 (by rintro ⟨rfl, -⟩; exact Nat.lt_irrefl 0 hpos)
    have hle := hgains.rounds.le
    exact ⟨hkept m hm, (hgains.apart m hm).imp_left (by lia)⟩

/-- The small process, with a diversion to the first address behind its data. -/
def threePagesDiverted : Machine := { space := Space.threePages, diversion := some (Space.imageBase + 3 * pageBytes) }

/-- One byte that is diverted there makes a page, next to the data, and everything else stays. -/
theorem allocate_allocates_diverted : Space.WellFormed threePagesDiverted.space ∧
    (threePagesDiverted.allocate (.fixed 0x200000000) 1).1 = .done (Space.imageBase + 3 * pageBytes) ∧
    .fresh (Space.imageBase + 3 * pageBytes) pageBytes ∈ (threePagesDiverted.allocate (.fixed 0x200000000) 1).2.space ∧
    ∀ m ∈ Space.threePages, m ∈ (threePagesDiverted.allocate (.fixed 0x200000000) 1).2.space := by
  have hwf : Space.WellFormed threePagesDiverted.space := Space.wellFormed_threePages
  have hdone : (threePagesDiverted.allocate (.fixed 0x200000000) 1).1 = .done (Space.imageBase + 3 * pageBytes) := by
    decide +kernel
  have hallocates := @allocate_allocates _ (.fixed 0x200000000) 1 hwf
  obtain ⟨rounded, hgains⟩ := hallocates.gains _ hdone
  have hrounded : rounded = pageBytes := by
    obtain ⟨hwhole, hle, hlt⟩ := hgains.rounds
    simp only [pageBytes] at *
    omega
  refine ⟨hwf, hdone, (hgains.mem_iff _).2 (Or.inl (by rw [hrounded])), fun m hm => ?_⟩
  exact (hallocates.undisturbed _ hdone Nat.one_pos m hm).1

/-- No bytes at the start of the code of the small process meet no mapping, and behind that the code is gone. -/
theorem allocate_replaces_threePages : Space.WellFormed Testbed.threePages.machine.space ∧
    (Testbed.threePages.machine.allocate (.fixed Space.imageBase) 0).1 = .done Space.imageBase ∧
    .fresh Space.imageBase pageBytes ∈ Testbed.threePages.machine.space ∧
    .fresh Space.imageBase pageBytes ∉ (Testbed.threePages.machine.allocate (.fixed Space.imageBase) 0).2.space := by
  have hdone : (Testbed.threePages.machine.allocate (.fixed Space.imageBase) 0).1 = .done Space.imageBase := by
    decide +kernel
  refine ⟨Space.wellFormed_threePages, hdone, List.mem_cons_self, fun hkept => ?_⟩
  obtain ⟨rounded, hgains⟩ := gains_of_allocate Space.wellFormed_threePages hdone
  rcases (hgains.mem_iff _).1 hkept with hfresh | ⟨-, hne⟩
  · -- the new mapping has no bytes
    have hsize := congrArg Mapping.size hfresh
    rw [Mapping.size_fresh, Mapping.size_fresh] at hsize
    have hlt := hgains.rounds.lt
    omega
  · exact hne rfl

end Machine

end LivePatch
