import LivePatch.Proofs.Engine.Preparation
import LivePatch.Proofs.Space.Admission

/-!
# What a query reports

A query looks at two mappings only, the one that starts last at or below the address and the one that starts first at or above it. In
a well-formed memory that is enough: of all mappings that end above the address it reports the lowest one, with its full size and the
protection of the page that holds the address, and if the mapping starts above the address that of its first page. It fails exactly if
no mapping ends above the address.
-/

namespace LivePatch

namespace Mapping

variable {m : Mapping} {a : Address} {i : Nat}

/-- The number of a page goes by where the page lies. -/
theorem pageOf_eq_iff (ha : m.base ≤ a) : m.pageOf a = i ↔ m.base + i * pageBytes ≤ a ∧ a < m.base + (i + 1) * pageBytes := by
  simp only [pageOf, pageBytes]
  lia

end Mapping

namespace Space

variable {space : Space} {a : Address} {region : Region}

/-- What is to be reported for an address: the lowest mapping that ends above it, with the protection of the page that holds the address,
or of its first page if it starts above the address. -/
inductive Reports (space : Space) (a : Address) : Region → Prop where
  | holding {m : Mapping} {i : Nat} {p : Protection} (hnext : space.Next a m) (hfirst : m.base + i * pageBytes ≤ a)
      (hlast : a < m.base + (i + 1) * pageBytes) (hpage : m.pages[i]? = some p) : Reports space a ⟨m.base, m.size, p⟩
  | above {m : Mapping} {p : Protection} (hnext : space.Next a m) (habove : a < m.base) (hpage : m.pages[0]? = some p) :
      Reports space a ⟨m.base, m.size, p⟩

/-- What is to be reported is a mapping with the protection of one of its pages, and which page that is depends on the address. -/
theorem Reports.exists_page (h : space.Reports a region) : ∃ m, space.Next a m ∧ region.base = m.base ∧ region.size = m.size ∧
    m.pages[m.pageOf (max a m.base)]? = some region.protection := by
  cases h with
  | @holding m i p hnext hfirst hlast hpage =>
    have hbase : m.base ≤ a := Nat.le_trans (Nat.le_add_right _ _) hfirst
    have hindex : m.pageOf a = i := (Mapping.pageOf_eq_iff hbase).2 ⟨hfirst, hlast⟩
    refine ⟨m, hnext, rfl, rfl, ?_⟩
    rw [Nat.max_eq_left hbase, hindex, hpage]
  | @above m p hnext habove hpage =>
    have hindex : m.pageOf m.base = 0 := by simp [Mapping.pageOf]
    refine ⟨m, hnext, rfl, rfl, ?_⟩
    rw [Nat.max_eq_right (Nat.le_of_lt habove), hindex, hpage]

theorem reports_of_next {m : Mapping} {p : Protection} (h : space.Next a m)
    (hpage : m.pages[m.pageOf (max a m.base)]? = some p) : space.Reports a ⟨m.base, m.size, p⟩ := by
  rcases Nat.lt_or_ge a m.base with ha | ha
  · rw [Nat.max_eq_right (Nat.le_of_lt ha)] at hpage
    refine .above h ha ?_
    simpa [Mapping.pageOf] using hpage
  · rw [Nat.max_eq_left ha] at hpage
    obtain ⟨hfirst, hlast⟩ := (Mapping.pageOf_eq_iff ha).1 rfl
    exact .holding h hfirst hlast hpage

/-- A well-formed space reports what is to be reported, and nothing else. -/
theorem WellFormed.region_eq_done_iff (h : space.WellFormed) (hs : space.Addressable) :
    space.region a = .done region ↔ space.Reports a region := by
  constructor
  · intro hregion
    obtain ⟨m, hnext, -⟩ := h.next_of_region hs hregion
    obtain ⟨p, hpage, hreported⟩ := h.region_of_next hs hnext
    cases hregion.symm.trans hreported
    exact reports_of_next hnext hpage
  · intro hreports
    obtain ⟨m, hnext, hbase, hsize, hpage⟩ := hreports.exists_page
    obtain ⟨p, hpage', hreported⟩ := h.region_of_next hs hnext
    cases hpage.symm.trans hpage'
    rw [hreported, ← hbase, ← hsize]

/-- Whether anything is reported depends on whether a mapping ends above the address. -/
theorem WellFormed.region_decides (h : space.WellFormed) (hs : space.Addressable) (a : Address) :
    (space.region a).Decides (∃ m ∈ space, a < m.stop) fun code => code = .invalidAddress ∧ ∀ m ∈ space, m.stop ≤ a := by
  rcases h.region_cases hs a with ⟨m, p, hnext, hregion⟩ | ⟨hnone, hregion⟩
  · rw [hregion]
    refine .done ⟨m, hnext.mem, hnext.above⟩ ?_ _
    rintro code ⟨-, hnone⟩
    exact Nat.not_lt_of_le (hnone m hnext.mem) hnext.above
  · rw [hregion]
    refine .failed ?_ fun code => and_iff_left hnone
    rintro ⟨m, hm, habove⟩
    exact Nat.not_lt_of_le (hnone m hm) habove

end Space

namespace Machine

/-- How a query ends, what it reports, and that it does nothing else. -/
structure RegionLaw (machine : Machine) (a : Address) : Prop where
  ends : (machine.region a).1.Decides (∃ m ∈ machine.space, a < m.stop) fun code =>
    code = .invalidAddress ∧ ∀ m ∈ machine.space, m.stop ≤ a
  reports : ∀ region, (machine.region a).1 = .done region ↔ machine.space.Reports a region
  after : (machine.region a).2 = machine.recorded (.region a)

/-- A query that is not made to fail reports the lowest mapping that ends above the address. -/
theorem region_reports_lowest {machine : Machine} (h : machine.space.WellFormed) (hs : machine.space.Addressable)
    (hinjected : machine.injected? .region = none) (a : Address) : machine.RegionLaw a := by
  have hregion : machine.region a = (machine.space.region a, machine.recorded (.region a)) := receive_of_not_injected hinjected
  constructor
  · rw [hregion]
    exact h.region_decides hs a
  · intro region
    rw [hregion]
    exact h.region_eq_done_iff hs
  · rw [hregion]

/-- The small process without its constants. -/
def gapped : Machine := { space := Space.threePages.remove (Space.imageBase + pageBytes) }

/-- Where the constants were, the data are reported, and behind the data nothing is. -/
theorem region_reports_lowest_gapped : gapped.space.WellFormed ∧ gapped.space.Addressable ∧ gapped.injected? .region = none ∧
    (gapped.region (Space.imageBase + pageBytes)).1 = .done ⟨Space.imageBase + 2 * pageBytes, pageBytes, .readWrite⟩ ∧
    (gapped.region (Space.imageBase + 3 * pageBytes)).1 = .failed .invalidAddress := by
  have hwf : gapped.space.WellFormed := Space.wellFormed_threePages.remove (Space.imageBase + pageBytes)
  have hmem : ∀ m ∈ gapped.space, m ∈ Space.threePages ∧ m.base ≠ Space.imageBase + pageBytes := fun m => Space.mem_remove_iff.1
  have hs : gapped.space.Addressable := fun m hm => Space.addressable_threePages m (hmem m hm).1
  have hnext : gapped.space.Next (Space.imageBase + pageBytes) (.fresh (Space.imageBase + 2 * pageBytes) pageBytes) := by
    refine ⟨Space.mem_remove_iff.2 ⟨by simp [Space.threePages], by decide⟩, ?_, fun m hm habove => ?_⟩
    · rw [Mapping.stop_fresh]
      decide
    · obtain ⟨hm, hne⟩ := hmem m hm
      simp only [Space.threePages, List.mem_cons, List.not_mem_nil, or_false] at hm
      rcases hm with rfl | rfl | rfl
      · rw [Mapping.stop_fresh] at habove
        exact absurd habove (Nat.lt_irrefl _)
      · exact absurd rfl hne
      · exact Nat.le_refl _
  have hreports : gapped.space.Reports (Space.imageBase + pageBytes) ⟨Space.imageBase + 2 * pageBytes, pageBytes, .readWrite⟩ := by
    have habove := Space.Reports.above (p := .readWrite) hnext (by decide) (by decide +kernel)
    rwa [Mapping.size_fresh] at habove
  refine ⟨hwf, hs, rfl, ((region_reports_lowest hwf hs rfl _).reports _).2 hreports, ?_⟩
  refine ((region_reports_lowest hwf hs rfl _).ends.failed_iff _).2 ⟨rfl, fun m hm => ?_⟩
  exact (Space.mem_threePages (hmem m hm).1).2.2.2

end Machine

end LivePatch
