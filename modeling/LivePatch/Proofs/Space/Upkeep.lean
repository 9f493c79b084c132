import LivePatch.Proofs.Space.Allocation

/-!
# Memory that stays in order

Every change that the address space makes keeps it well-formed and within the addresses: memory is mapped where there was none, it is
unmapped by whole mappings, and else a mapping keeps its shape. What has to be asked of an allocation is that its address stands
on a page boundary and its size is some pages.
-/

namespace LivePatch.Space

variable {space next : Space} {m : Mapping} {a base d : Address} {n : Nat} {p : Protection} {bytes : Bytes}

/-! ## Mapping memory -/

/-- A range that is found to meet no mapping lies apart from each of them. -/
theorem apart_of_overlaps (h : space.overlaps a n = .done false) : ∀ x ∈ space, a + n ≤ x.base ∨ x.stop ≤ a := by
  induction space with
  | nil => exact nofun
  | cons y rest ih =>
    simp only [overlaps, Outcome.bind_eq_done_iff, Outcome.require_eq_done_iff, Word.add_eq_some_iff] at h
    obtain ⟨_, ⟨rfl, -⟩, h⟩ := h
    rw [List.forall_mem_cons]
    split at h
    · simp only [Outcome.bind_eq_done_iff, Outcome.require_eq_done_iff] at h
      obtain ⟨_, hlimit, h⟩ := h
      obtain ⟨rfl, -⟩ := Mapping.limit_eq_some_iff.1 hlimit
      split at h
      · cases h
      · rename_i hbehind
        exact ⟨Or.inr (Nat.le_of_not_lt hbehind), ih h⟩
    · rename_i hahead
      exact ⟨Or.inl (Nat.le_of_not_lt hahead), ih h⟩

/-- A well-formed mapping apart from all others can be added. -/
theorem WellFormed.insert (h : space.WellFormed) (hm : m.WellFormed) (hapart : ∀ x ∈ space, m.stop ≤ x.base ∨ x.stop ≤ m.base) :
    WellFormed (space.insert m) := by
  refine ⟨fun x hx => ?_, ?_⟩
  · rcases mem_of_mem_insert hx with rfl | hx
    · exact hm
    · exact h.mappings x hx
  · have hlt := hm.base_lt_stop
    have hordered := h.ordered
    have hmappings := h.mappings
    clear h
    induction space with
    | nil => exact List.pairwise_singleton _ _
    | cons y rest ih =>
      rw [List.forall_mem_cons] at hapart hmappings
      have hy := hmappings.1.base_lt_stop
      have hrest := List.pairwise_cons.1 hordered
      unfold Space.insert
      split
      · refine List.pairwise_cons.2 ⟨fun x hx => ?_, hordered⟩
        have hahead : m.stop ≤ y.base := hapart.1.resolve_right (by lia)
        rcases List.mem_cons.1 hx with rfl | hx
        · exact hahead
        · exact Nat.le_trans hahead (Nat.le_trans (Nat.le_of_lt hy) (hrest.1 x hx))
      · rw [if_neg (by rcases hapart.1 with h | h <;> lia)]
        refine List.pairwise_cons.2 ⟨fun x hx => ?_, ih hapart.2 hrest.2 hmappings.2⟩
        rcases mem_of_mem_insert hx with rfl | hx
        · exact hapart.1.resolve_left (by lia)
        · exact hrest.1 x hx

/-- New memory on a page boundary leaves the space well-formed. -/
theorem WellFormed.allocated {placement : Placement} (h : space.WellFormed) (ha : space.allocate placement n = .done (base, next))
    (hbase : base % pageBytes = 0) (hn : n % pageBytes = 0) (hpos : 0 < n) : next.WellFormed := by
  obtain ⟨-, hmeets, -, rfl⟩ := allocate_eq_done_iff.1 ha
  refine h.insert (Mapping.wellFormed_fresh hbase hn hpos) fun x hx => ?_
  rw [Mapping.stop_fresh, Mapping.base_fresh]
  exact apart_of_overlaps hmeets x hx

theorem Addressable.allocated {placement : Placement} (hs : space.Addressable)
    (ha : space.allocate placement n = .done (base, next)) (hend : base + n < Word.count) : next.Addressable := by
  obtain ⟨-, -, -, rfl⟩ := allocate_eq_done_iff.1 ha
  intro x hx
  rcases mem_of_mem_insert hx with rfl | hx
  · rw [Mapping.stop_fresh]
    exact hend
  · exact hs x hx

/-- Memory that is mapped anywhere starts on a page boundary and ends at an address. -/
theorem WellFormed.bounds_of_anywhere (h : space.WellFormed) (ha : space.allocate .anywhere n = .done (base, next)) :
    base % pageBytes = 0 ∧ base + n < Word.count := by
  by_cases hne : space = []
  · subst hne
    obtain ⟨hplace, -, hsize, -⟩ := allocate_eq_done_iff.1 ha
    cases hplace
    refine ⟨by decide, ?_⟩
    have hmax : Bytes.maxSize + imageBase < Word.count := by decide
    lia
  · obtain ⟨hbase, hend, -⟩ := h.allocate_anywhere hne ha
    exact ⟨hbase, hend⟩

/-! ## The other changes -/

theorem WellFormed.deallocated (h : space.WellFormed) (hd : space.deallocate a n = .done next) : next.WellFormed :=
  remove_of_deallocate_eq_done hd ▸ h.remove a

theorem WellFormed.protected (h : space.WellFormed) (hp : space.protect a n p = .done next) : next.WellFormed := by
  obtain ⟨m, hm, first, stop, rfl⟩ := update_of_protect_eq_done hp
  exact h.update hm (m.sameShape_withProtection first stop p)

theorem WellFormed.stored (h : space.WellFormed) (hw : space.store a bytes = .done next) : next.WellFormed := by
  obtain ⟨m, hm, hbase, hstop, rfl⟩ := update_of_store_eq_done hw
  exact h.update hm (Mapping.sameShape_withBytes hbase hstop)

theorem Addressable.deallocated (hs : space.Addressable) (hd : space.deallocate a n = .done next) : next.Addressable :=
  fun x hx => hs x (mem_remove_iff.1 (remove_of_deallocate_eq_done hd ▸ hx)).1

theorem Addressable.protected (hs : space.Addressable) (hp : space.protect a n p = .done next) : next.Addressable := by
  obtain ⟨m, hm, first, stop, rfl⟩ := update_of_protect_eq_done hp
  exact hs.update hm (m.sameShape_withProtection first stop p)

theorem Addressable.stored (hs : space.Addressable) (hw : space.store a bytes = .done next) : next.Addressable := by
  obtain ⟨m, hm, hbase, hstop, rfl⟩ := update_of_store_eq_done hw
  exact hs.update hm (Mapping.sameShape_withBytes hbase hstop)

end LivePatch.Space
