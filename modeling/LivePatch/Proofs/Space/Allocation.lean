import LivePatch.Proofs.Space.Access

/-!
# Mapping and unmapping memory

An allocation that may go anywhere goes behind all mappings, and one at a fixed address succeeds only where it meets none. So
neither disturbs what is mapped. Unmapping a whole mapping removes it and nothing else.
-/

namespace LivePatch

namespace Mapping

variable {base : Address} {n : Nat}

@[simp] theorem size_fresh : (fresh base n).size = n := by simp [Mapping.size, fresh]

@[simp] theorem base_fresh : (fresh base n).base = base := rfl

theorem stop_fresh : (fresh base n).stop = base + n := by simp [stop]

theorem mem_pages_fresh {p : Protection} (h : p ∈ (fresh base n).pages) : p = .readWrite := (Array.mem_replicate.1 h).2

/-- New memory of some whole pages on a page boundary is a well-formed mapping. -/
theorem wellFormed_fresh (hb : base % pageBytes = 0) (hn : n % pageBytes = 0) (hpos : 0 < n) : (fresh base n).WellFormed := by
  refine ⟨hb, ?_, ?_⟩
  · rw [size_fresh]
    simp only [fresh, Array.size_replicate, pageBytes] at *
    lia
  · simp only [fresh, Array.size_replicate, pageBytes] at *
    lia

@[simp] theorem size_filled {p : Protection} {fill : Nat → UInt8} : (filled base n p fill).size = n := by
  simp [Mapping.size, filled]

theorem stop_filled {p : Protection} {fill : Nat → UInt8} : (filled base n p fill).stop = base + n := by
  rw [stop, size_filled]
  rfl

/-- So is memory that is mapped with its bytes. -/
theorem wellFormed_filled {p : Protection} {fill : Nat → UInt8} (hb : base % pageBytes = 0) (hn : n % pageBytes = 0)
    (hpos : 0 < n) : (filled base n p fill).WellFormed := by
  refine ⟨hb, ?_, ?_⟩
  · rw [size_filled]
    simp only [filled, Array.size_replicate]
    exact (Nat.div_mul_cancel (Nat.dvd_of_mod_eq_zero hn)).symm
  · simp only [filled, Array.size_replicate, pageBytes] at *
    omega

end Mapping

namespace Space

variable {space space' : Space} {m : Mapping} {a base : Address} {n : Nat}

/-- The limits of all mappings are there exactly when all of them end at addresses. -/
theorem mapM_limit_eq_some_iff {limits : List Address} :
    space.mapM Mapping.limit = some limits ↔ space.Addressable ∧ space.map Mapping.stop = limits := by
  induction space generalizing limits with
  | nil => simp [Addressable, eq_comm]
  | cons y rest ih =>
    simp only [List.mapM_cons, Option.bind_eq_bind, Option.pure_def, Option.bind_eq_some_iff, ih,
      Mapping.limit_eq_some_iff, Option.some.injEq, List.map_cons, Addressable, List.forall_mem_cons]
    constructor
    · rintro ⟨_, ⟨rfl, hy⟩, _, ⟨hrest, rfl⟩, rfl⟩
      exact ⟨⟨hy, hrest⟩, rfl⟩
    · rintro ⟨⟨hy, hrest⟩, rfl⟩
      exact ⟨_, ⟨rfl, hy⟩, _, ⟨hrest, rfl⟩, rfl⟩

/-- The place of an allocation that may go anywhere is a fixed distance behind the mapping that ends last. -/
theorem place_anywhere_eq_done_iff (hne : space ≠ []) :
    space.place .anywhere = .done base ↔
      space.Addressable ∧ base < Word.count ∧ (∃ m ∈ space, base = m.stop + allocationGap) ∧
        ∀ m ∈ space, m.stop + allocationGap ≤ base := by
  have hmax : ∀ top, (space.map Mapping.stop).max? = some top ↔
      (∃ m ∈ space, m.stop = top) ∧ ∀ m ∈ space, m.stop ≤ top := by
    intro top
    rw [List.max?_eq_some_iff]
    simp
  simp only [place, Outcome.bind_eq_done_iff, Outcome.require_eq_done_iff, mapM_limit_eq_some_iff]
  constructor
  · rintro ⟨_, ⟨hs, rfl⟩, h⟩
    split at h
    · rename_i hnone
      simp [List.max?_eq_none_iff, hne] at hnone
    · rename_i top htop
      obtain ⟨⟨m, hm, rfl⟩, hle⟩ := (hmax top).1 htop
      obtain ⟨rfl, hlt⟩ := Word.add_eq_some_iff.1 (Outcome.require_eq_done_iff.1 h)
      exact ⟨hs, hlt, ⟨m, hm, rfl⟩, fun x hx => Nat.add_le_add_right (hle x hx) _⟩
  · rintro ⟨hs, hlt, ⟨m, hm, rfl⟩, hle⟩
    refine ⟨_, ⟨hs, rfl⟩, ?_⟩
    have htop := (hmax m.stop).2 ⟨⟨m, hm, rfl⟩, fun x hx => Nat.le_of_add_le_add_right (hle x hx)⟩
    simp only [htop]
    exact Outcome.require_eq_done_iff.2 (Word.add_eq_some_iff.2 ⟨rfl, hlt⟩)

/-- Memory can go behind all mappings only if all of them end at addresses. -/
theorem addressable_of_place (h : space.place .anywhere = .done base) : space.Addressable := by
  simp only [place, Outcome.bind_eq_done_iff, Outcome.require_eq_done_iff, mapM_limit_eq_some_iff] at h
  obtain ⟨_, ⟨hs, -⟩, -⟩ := h
  exact hs

theorem lt_count_of_overlaps_eq_done {meets : Bool} (hne : space ≠ []) (h : space.overlaps a n = .done meets) :
    a + n < Word.count := by
  cases space with
  | nil => exact absurd rfl hne
  | cons y rest =>
    simp only [overlaps, Outcome.bind_eq_done_iff, Outcome.require_eq_done_iff, Word.add_eq_some_iff] at h
    obtain ⟨_, ⟨rfl, hlt⟩, -⟩ := h
    exact hlt

/-- A range of addresses that lies apart from all mappings is found to meet none. -/
theorem overlaps_eq_false (hs : space.Addressable) (hn : a + n < Word.count)
    (h : ∀ m ∈ space, a + n ≤ m.base ∨ m.stop ≤ a) : space.overlaps a n = .done false := by
  have hadd : Word.add a n = some (a + n) := Word.add_eq_some_iff.2 ⟨rfl, hn⟩
  induction space with
  | nil => rfl
  | cons y rest ih =>
    rw [Addressable, List.forall_mem_cons] at hs
    rw [List.forall_mem_cons] at h
    have hrest := ih hs.2 h.2
    have hlimit := Mapping.limit_of_lt hs.1
    rcases h.1 with hy | hy
    · simp [overlaps, hadd, show ¬ y.base < a + n by lia, hrest]
    · simp [overlaps, hadd, hlimit, show ¬ a < y.stop by lia, hrest]

/-- An allocation that is done lies apart from all mappings, and adds new memory to them. -/
theorem allocate_eq_done_iff {placement : Placement} :
    space.allocate placement n = .done (base, space') ↔
      space.place placement = .done base ∧ space.overlaps base n = .done false ∧ n ≤ Bytes.maxSize ∧
        space' = space.insert (.fresh base n) := by
  simp only [allocate, Outcome.bind_eq_done_iff]
  constructor
  · rintro ⟨b, hb, meets, hmeets, h⟩
    cases meets with
    | true => cases h
    | false =>
      simp only [Bool.false_eq_true, if_false] at h
      split at h
      · rename_i hn
        cases h
        exact ⟨hb, hmeets, hn, rfl⟩
      · cases h
  · rintro ⟨hb, hmeets, hn, rfl⟩
    refine ⟨base, hb, false, hmeets, ?_⟩
    simp [hn]

/-- Memory that is mapped anywhere lies behind all mappings, at a distance. -/
theorem WellFormed.allocate_anywhere (h : space.WellFormed) (hne : space ≠ [])
    (ha : space.allocate .anywhere n = .done (base, space')) :
    base % pageBytes = 0 ∧ base + n < Word.count ∧ n ≤ Bytes.maxSize ∧ (∃ m ∈ space, base = m.stop + allocationGap) ∧
      (∀ m ∈ space, m.stop + allocationGap ≤ base) ∧ space' = space ++ [.fresh base n] := by
  obtain ⟨hplace, hapart, hsize, rfl⟩ := allocate_eq_done_iff.1 ha
  obtain ⟨-, -, ⟨m, hm, rfl⟩, hbehind⟩ := (place_anywhere_eq_done_iff hne).1 hplace
  refine ⟨?_, lt_count_of_overlaps_eq_done hne hapart, hsize, ⟨m, hm, rfl⟩, hbehind, insert_eq_append fun y hy => ?_⟩
  · have := (h.mappings m hm).stop_aligned
    simp only [allocationGap, pageBytes] at *
    lia
  · rw [Mapping.base_fresh]
    exact Nat.lt_of_lt_of_le (h.mappings y hy).base_lt_stop (Nat.le_trans (Nat.le_add_right _ _) (hbehind y hy))

/-- Memory can be mapped anywhere if there is room for it behind all mappings. -/
theorem exists_allocate_anywhere (hne : space ≠ []) (hsize : n ≤ Bytes.maxSize)
    (hroom : ∀ m ∈ space, m.stop + allocationGap + n < Word.count) :
    ∃ base space', space.allocate .anywhere n = .done (base, space') := by
  have hs : space.Addressable := fun m hm => by have := hroom m hm; lia
  obtain ⟨top, htop⟩ : ∃ top, (space.map Mapping.stop).max? = some top := by
    cases hmax : (space.map Mapping.stop).max? with
    | none => simp [List.max?_eq_none_iff, hne] at hmax
    | some top => exact ⟨top, rfl⟩
  rw [List.max?_eq_some_iff] at htop
  obtain ⟨m, hm, rfl⟩ := List.mem_map.1 htop.1
  have hbehind : ∀ x ∈ space, x.stop ≤ m.stop := fun x hx => htop.2 _ (List.mem_map_of_mem hx)
  have hlt := hroom m hm
  have hgap : ∀ x ∈ space, x.stop + allocationGap ≤ m.stop + allocationGap := fun x hx => by
    have := hbehind x hx
    lia
  refine ⟨m.stop + allocationGap, _, allocate_eq_done_iff.2 ⟨?_, ?_, hsize, rfl⟩⟩
  · refine (place_anywhere_eq_done_iff hne).2 ⟨hs, by lia, ⟨m, hm, rfl⟩, hgap⟩
  · refine overlaps_eq_false hs hlt fun x hx => Or.inr ?_
    have := hgap x hx
    lia

/-- A range behind all mappings is never found to meet one, and the question cannot fail. -/
theorem overlaps_behind (h : ∀ m ∈ space, m.stop ≤ a) : space.overlaps a n = .done false ∨ space.overlaps a n = .crashed := by
  induction space with
  | nil => exact Or.inl rfl
  | cons y rest ih =>
    rw [List.forall_mem_cons] at h
    have hrest := ih h.2
    rw [overlaps]
    cases Word.add a n with
    | none => exact Or.inr rfl
    | some stop =>
      simp only [Outcome.require_some, Outcome.done_bind]
      split
      · cases hlimit : y.limit with
        | none => exact Or.inr rfl
        | some limit =>
          obtain ⟨rfl, -⟩ := Mapping.limit_eq_some_iff.1 hlimit
          simpa [Nat.not_lt_of_le h.1] using hrest
      · exact hrest

/-- An allocation that may go anywhere never fails. -/
theorem allocate_anywhere_ne_failed {code : KernelCode} : space.allocate .anywhere n ≠ .failed code := by
  intro h
  have hmeets : ∀ base, (∀ m ∈ space, m.stop ≤ base) → space.place .anywhere = .done base → False := by
    intro base hbehind hplace
    rw [allocate, hplace, Outcome.done_bind] at h
    rcases overlaps_behind (n := n) hbehind with hmeets | hmeets
    · rw [hmeets, Outcome.done_bind] at h
      simp only [Bool.false_eq_true, if_false] at h
      split at h <;> cases h
    · rw [hmeets] at h
      cases h
  rcases hplace : space.place .anywhere with base | _ | _
  · by_cases hne : space = []
    · exact hmeets base (by simp [hne]) hplace
    · have hbehind := ((place_anywhere_eq_done_iff hne).1 hplace).2.2.2
      exact hmeets base (fun m hm => Nat.le_trans (Nat.le_add_right _ _) (hbehind m hm)) hplace
  · -- only sums are asked for on the way to a place
    simp only [place] at hplace
    cases hlimits : space.mapM Mapping.limit with
    | none =>
      rw [hlimits] at hplace
      cases hplace
    | some limits =>
      simp only [hlimits, Outcome.require_some, Outcome.done_bind] at hplace
      split at hplace
      · cases hplace
      · unfold Outcome.require at hplace
        split at hplace <;> cases hplace
  · rw [allocate, hplace] at h
    cases h

/-- Whether a range of addresses meets a mapping can always be told. -/
theorem overlaps_ne_crashed (hs : space.Addressable) (hn : a + n < Word.count) : space.overlaps a n ≠ .crashed := by
  have hadd : Word.add a n = some (a + n) := Word.add_eq_some_iff.2 ⟨rfl, hn⟩
  induction space with
  | nil => nofun
  | cons y rest ih =>
    rw [Addressable, List.forall_mem_cons] at hs
    have hrest := ih hs.2
    have hlimit := Mapping.limit_of_lt hs.1
    rw [overlaps, hadd, Outcome.require_some, Outcome.done_bind]
    split
    · rw [hlimit, Outcome.require_some, Outcome.done_bind]
      split
      · nofun
      · exact hrest
    · exact hrest

/-- An allocation at an address does not crash if its range is one of addresses. -/
theorem allocate_fixed_ne_crashed (hs : space.Addressable) (hn : a + n < Word.count) (hsize : n ≤ Bytes.maxSize) :
    space.allocate (.fixed a) n ≠ .crashed := by
  rw [allocate, place, Outcome.pure_eq, Outcome.done_bind]
  rcases hmeets : space.overlaps a n with meets | _ | _
  · rw [Outcome.done_bind, if_pos hsize]
    split <;> nofun
  · nofun
  · exact absurd hmeets (overlaps_ne_crashed hs hn)

/-- Memory that is unmapped is removed. -/
theorem remove_of_deallocate_eq_done (h : space.deallocate a n = .done space') : space' = space.remove a := by
  unfold deallocate at h
  split at h
  · cases h
  · split at h
    · exact (Outcome.done.inj h).symm
    · cases h

/-- Unmapping succeeds exactly on a whole mapping, and removes it. -/
theorem WellFormed.deallocate_eq_done (h : space.WellFormed) (hm : m ∈ space) :
    space.deallocate m.base m.size = .done (space.remove m.base) := by
  simp [deallocate, h.at?_base hm]

/-- In the hole that a mapping leaves there is room for a mapping of its size. -/
theorem WellFormed.allocate_hole (h : space.WellFormed) (hs : space.Addressable) (hm : m ∈ space) :
    (space.remove m.base).allocate (.fixed m.base) m.size =
      if m.size ≤ Bytes.maxSize then .done (m.base, space.update (.fresh m.base m.size)) else .crashed := by
  have hs' : (space.remove m.base).Addressable := fun x hx => hs x (mem_remove_iff.1 hx).1
  have hmeets : (space.remove m.base).overlaps m.base m.size = .done false := by
    refine overlaps_eq_false hs' (hs m hm) fun x hx => ?_
    obtain ⟨hx, hne⟩ := mem_remove_iff.1 hx
    rcases h.apart hm hx with rfl | h' | h'
    · exact absurd rfl hne
    · exact Or.inl h'
    · exact Or.inr h'
  simp only [allocate, place, Outcome.pure_eq, Outcome.done_bind, hmeets, Bool.false_eq_true, if_false,
    h.insert_remove hm Mapping.base_fresh]

end Space

end LivePatch
