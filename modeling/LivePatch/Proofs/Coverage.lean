import LivePatch.Proofs.Memory.Span
import LivePatch.Proofs.Simulation.Service
import LivePatch.Proofs.Space.Allocation
import LivePatch.Proofs.Space.Protections

/-!
# Pages that a patch reprotects

Two roundings meet where a patch changes protections. The span of the patched range is cut down to a boundary of the page size
that the patch was told, and keeps the end of the range; the machine then rounds both ends of the span to pages of its own size.
The two sizes need not be the same. Together they change every page of the machine that the span meets and no other one, so no
byte of the patch is left on a page with the old protection. With the larger page size pages in front of the range are changed as
well, up to the boundary; if the mapping starts at such a boundary they all belong to it, and the change goes through.
-/

namespace LivePatch

variable {start stop target a b : Address} {len n pageSize : Nat} {p : Protection}

/-! ## Pages that a range meets -/

/-- The page that holds the address has an address in common with the range from `start` up to, but without, `stop`. -/
def PageMeets (start stop b : Address) : Prop := ∃ c, start ≤ c ∧ c < stop ∧ pageFloor c = pageFloor b

/-- The pages that a range with bytes meets lie one behind the other, from the page of its first byte to that of its last. -/
theorem pageMeets_iff (hlt : start < stop) :
    PageMeets start stop b ↔ pageFloor start ≤ b ∧ b < pageFloor (stop + pageBytes - 1) := by
  constructor
  · rintro ⟨c, hstart, hstop, hpage⟩
    simp only [pageFloor, pageBytes] at *
    lia
  · rintro ⟨hfloor, hceil⟩
    -- the address itself, or the end of the range on the same page if the address lies outside
    refine ⟨max start (min b (stop - 1)), Nat.le_max_left _ _, ?_, ?_⟩
    · lia
    · simp only [pageFloor, pageBytes] at *
      lia

/-- Starting the range at the boundary of its first page adds no page. -/
theorem pageMeets_floor_iff (hlt : start < stop) : PageMeets (pageFloor start) stop b ↔ PageMeets start stop b := by
  have hfloor : pageFloor start ≤ start := Nat.sub_le _ _
  have hidem : pageFloor (pageFloor start) = pageFloor start := by
    simp only [pageFloor, pageBytes]
    lia
  rw [pageMeets_iff hlt, pageMeets_iff (Nat.lt_of_le_of_lt hfloor hlt), hidem]

/-- A mapping that holds the range holds every page that the range meets. -/
theorem Mapping.WellFormed.bounds_of_pageMeets {m : Mapping} (h : m.WellFormed) (hstart : m.base ≤ start) (hstop : stop ≤ m.stop)
    (hmeets : PageMeets start stop b) : m.base ≤ pageFloor b ∧ pageFloor b + pageBytes ≤ m.stop := by
  obtain ⟨c, hc, hlt, hpage⟩ := hmeets
  have haligned := h.aligned
  have hlimit := h.stop_aligned
  rw [← hpage]
  simp only [pageFloor, pageBytes] at *
  lia

/-- With the page size of the machine, the span starts at the boundary of the page of the first byte. -/
theorem PageSpan.Spans.start_eq_pageFloor {span : PageSpan} (h : span.Spans target len pageBytes) :
    span.start = pageFloor target := by
  have hfloor : pageFloor target ≤ target := Nat.sub_le _ _
  have hle : pageFloor target ≤ span.start := h.greatest _ (Nat.dvd_sub_mod target) hfloor
  have hstart := h.start_le
  obtain ⟨k, hk⟩ := h.dvd
  simp only [pageFloor, pageBytes] at *
  lia

/-! ## Protecting a range -/

/-- The pages that the range meets have the protection afterwards, and all others the one that they had; the mappings lie where they
lay and hold what they held. -/
structure Space.Reprotects (before after : Space) (start stop : Address) (p : Protection) : Prop where
  met : ∀ b, PageMeets start stop b → after.protectionAt b = some p
  others : ∀ b, ¬ PageMeets start stop b → after.protectionAt b = before.protectionAt b
  contents : after.map (fun m => (m.base, m.bytes)) = before.map fun m => (m.base, m.bytes)

/-- Exchanging a mapping for one with other protections moves nothing and changes no byte. -/
theorem Space.WellFormed.contents_update {space : Space} {m m' : Mapping} (h : space.WellFormed) (hm : m ∈ space)
    (hbase : m'.base = m.base) (hbytes : m'.bytes = m.bytes) :
    (space.update m').map (fun m => (m.base, m.bytes)) = space.map fun m => (m.base, m.bytes) :=
  h.map_update hm hbase (by rw [hbase, hbytes])

/-- Protecting a range with bytes reprotects it. -/
theorem Space.WellFormed.reprotects {space next : Space} (h : space.WellFormed) (hs : space.Addressable) (hn : 0 < n)
    (hdone : space.protect a n p = .done next) : space.Reprotects next a (a + n) p := by
  obtain ⟨m, hm, first, stop, hnext⟩ := update_of_protect_eq_done hdone
  have hshape := m.sameShape_withProtection first stop p
  constructor
  · rintro b ⟨c, hstart, hstop, hpage⟩
    have hwf : next.WellFormed := hnext ▸ h.update hm hshape
    have haddressable : next.Addressable := hnext ▸ hs.update hm hshape
    rw [← hwf.protectionAt_congr haddressable hpage]
    exact h.protectionAt_of_protect hdone hstart hstop
  · intro b hb
    rw [pageMeets_iff (Nat.lt_add_of_pos_right hn)] at hb
    exact h.protectionAt_of_protect_outside hs hn hdone (by lia)
  · rw [hnext]
    exact h.contents_update hm rfl rfl

/-- A machine that protects a range with bytes reprotects it, or fails and leaves the memory as it was. -/
theorem Machine.protect_cases (machine : Machine) (h : machine.space.WellFormed) (hs : machine.space.Addressable) (hn : 0 < n)
    (hend : a + n + pageBytes < Word.count) :
    (∃ code, (machine.protect a n p).1 = .failed code ∧ (machine.protect a n p).2.space = machine.space) ∨
      ((machine.protect a n p).1 = .done () ∧ machine.space.Reprotects (machine.protect a n p).2.space a (a + n) p) := by
  rcases machine.receive_eq (.protect a n p) (alter (·.protect a n p)) with ⟨code, -, hreceive⟩ | ⟨-, hreceive⟩
  · left
    rw [protect, hreceive]
    exact ⟨code, rfl, rfl⟩
  · rw [protect, hreceive, alter]
    rcases hprotect : (machine.recorded (.protect a n p)).space.protect a n p with next | code | _
    · right
      exact ⟨rfl, h.reprotects hs hn hprotect⟩
    · left
      exact ⟨code, rfl, rfl⟩
    · exact absurd hprotect (h.protect_ne_crashed hs hend)

/-- A machine that was not told to fail protects every range inside a mapping. -/
theorem Machine.protect_done (machine : Machine) {m : Mapping} (h : machine.space.WellFormed) (hs : machine.space.Addressable)
    (hm : m ∈ machine.space) (hn : 0 < n) (hbase : m.base ≤ a) (hstop : a + n ≤ m.stop) (hend : a + n + pageBytes < Word.count)
    (hinjected : machine.injected? .protect = none) : (machine.protect a n p).1 = .done () := by
  have hdone : (machine.recorded (.protect a n p)).space.protect a n p = _ :=
    h.protect_eq_done hm (hs m hm) hn hbase hstop hend
  have hserved : machine.protect a n p = alter (·.protect a n p) (machine.recorded (.protect a n p)) :=
    receive_of_not_injected hinjected
  rw [hserved, alter, hdone]

/-! ## Protecting the span of a range -/

/-- What protecting a span does to the pages of the machine, as seen from the range that it is the span of. -/
structure Machine.ReprotectsSpan (machine : Machine) (target : Address) (len pageSize : Nat) (p : Protection) (span : PageSpan) :
    Prop where
  /-- The span is the one from the last boundary on. -/
  spans : span.Spans target len pageSize
  /-- Exactly the pages that the span meets are changed, or none at all. -/
  exact : (∃ code, (machine.protect span.start span.size p).1 = .failed code ∧
      (machine.protect span.start span.size p).2.space = machine.space) ∨
    ((machine.protect span.start span.size p).1 = .done () ∧
      machine.space.Reprotects (machine.protect span.start span.size p).2.space span.start (target + len) p)
  /-- No address that shares a page with a byte of the range is left with another protection. -/
  patched : (machine.protect span.start span.size p).1 = .done () →
    ∀ a b, target ≤ b → b < target + len → pageFloor a = pageFloor b →
      (machine.protect span.start span.size p).2.space.protectionAt a = some p
  /-- With the page size of the machine, no page is changed that the range itself does not meet. -/
  tight : pageSize = pageBytes → ∀ b, PageMeets span.start (target + len) b ↔ PageMeets target (target + len) b
  /-- A mapping that holds the range and starts at a boundary holds all these pages. -/
  inside : ∀ m ∈ machine.space, pageSize ∣ m.base → m.base ≤ target → target + len ≤ m.stop →
    ∀ b, PageMeets span.start (target + len) b → m.base ≤ pageFloor b ∧ pageFloor b + pageBytes ≤ m.stop
  /-- In such a mapping only an ordered failure keeps the pages from being changed. -/
  succeeds : ∀ m ∈ machine.space, pageSize ∣ m.base → m.base ≤ target → target + len ≤ m.stop →
    machine.injected? .protect = none → (machine.protect span.start span.size p).1 = .done ()

/-- Every range with bytes that does not end right below the last address has a span, and protecting it changes exactly the pages
that it has to. -/
theorem Machine.reprotectsSpan_covering (machine : Machine) (target : Address) (len pageSize : Nat) (p : Protection)
    (hpageSize : pageSize.isPowerOfTwo) (hlen : 0 < len) (hend : target + len + pageBytes < Word.count)
    (h : machine.space.WellFormed) (hs : machine.space.Addressable) :
    ∃ span, PageSpan.covering target len pageSize = some span ∧ machine.ReprotectsSpan target len pageSize p span := by
  obtain ⟨span, hcovering⟩ := PageSpan.exists_covering hpageSize (Nat.lt_of_le_of_lt (Nat.le_add_right _ _) hend)
  have hspans := PageSpan.spans_of_covering hcovering
  have hpos := hspans.size_pos hlen
  have hstop := hspans.stop_eq
  have hexact := hstop ▸ machine.protect_cases (p := p) h hs hpos (hstop ▸ hend)
  refine ⟨span, hcovering, {
    spans := hspans
    exact := hexact
    patched := ?_
    tight := ?_
    inside := fun m hm hdvd hbase hlimit b => (h.mappings m hm).bounds_of_pageMeets (hspans.greatest _ hdvd hbase) hlimit
    succeeds := ?_ }⟩
  · intro hdone a b hb hlt hpage
    rcases hexact with ⟨code, hfailed, -⟩ | ⟨-, hreprotects⟩
    · cases hfailed.symm.trans hdone
    · exact hreprotects.met a ⟨b, Nat.le_trans hspans.start_le hb, hlt, hpage.symm⟩
  · rintro rfl b
    rw [hspans.start_eq_pageFloor]
    exact pageMeets_floor_iff (Nat.lt_add_of_pos_right hlen)
  · intro m hm hdvd hbase hlimit hinjected
    exact machine.protect_done h hs hm hpos (hspans.greatest _ hdvd hbase) (hstop ▸ hlimit) (hstop ▸ hend) hinjected

/-- A patch across a page boundary in a mapping of four pages, on a system whose pages are twice as large: the third and the fourth
page are changed. -/
theorem Machine.reprotectsSpan_two_pages : ∃ (machine : Machine) (span : PageSpan),
    machine.space.WellFormed ∧ machine.space.Addressable ∧
      PageSpan.covering (Space.imageBase + 0x2ffc) 8 0x2000 = some span ∧
      machine.ReprotectsSpan (Space.imageBase + 0x2ffc) 8 0x2000 .readWriteExecute span ∧
      (machine.protect span.start span.size .readWriteExecute).1 = .done () := by
  have hmapping : (Mapping.fresh Space.imageBase (4 * pageBytes)).WellFormed := Mapping.wellFormed_fresh rfl rfl (by decide)
  have hwellFormed : Space.WellFormed [.fresh Space.imageBase (4 * pageBytes)] :=
    ⟨List.forall_mem_singleton.2 hmapping, List.pairwise_singleton _ _⟩
  have hstop : (Mapping.fresh Space.imageBase (4 * pageBytes)).stop = Space.imageBase + 4 * pageBytes := Mapping.stop_fresh
  have haddressable : Space.Addressable [.fresh Space.imageBase (4 * pageBytes)] :=
    List.forall_mem_singleton.2 (hstop ▸ by decide)
  obtain ⟨span, hcovering, hspan⟩ := Machine.reprotectsSpan_covering { space := [.fresh Space.imageBase (4 * pageBytes)] }
    (Space.imageBase + 0x2ffc) 8 0x2000 .readWriteExecute ⟨13, rfl⟩ (by decide) (by decide) hwellFormed haddressable
  refine ⟨_, span, hwellFormed, haddressable, hcovering, hspan, ?_⟩
  exact hspan.succeeds _ (List.mem_singleton.2 rfl) ⟨0x80000, rfl⟩ (Nat.le_add_right _ _) (hstop ▸ by decide) rfl

end LivePatch
