import LivePatch.Proofs.Engine.Preparation

/-!
# What locating finds

Locating asks for one mapping after the other, each time from where the last one ended, and takes whatever comes back for the first.
Whether that ends with a layout depends on the whole map and on the failures that were ordered, and on nothing else: three mappings
have to lie back to back from the one that holds the base, or else from the lowest one above it, and three queries have to be
answered. If they do, the layout is these mappings, and what is computed of it measures them; if not, the error is that of the first
query that failed or did not find what it was for. In the end at most three queries were made, and nothing else was done.
-/

namespace LivePatch

variable {space : Space} {base a : Address} {code constants data m : Mapping}

/-- The lowest mapping that ends above an address is the one that holds it, and if none does the lowest one above it. -/
theorem Space.WellFormed.next_iff (h : space.WellFormed) : space.Next a m ↔
    m ∈ space ∧ (m.Covers a ∨ (∀ x ∈ space, ¬ x.Covers a) ∧ a < m.base ∧ ∀ x ∈ space, a < x.base → m.base ≤ x.base) := by
  constructor
  · intro hnext
    refine ⟨hnext.mem, ?_⟩
    by_cases hbase : m.base ≤ a
    · exact Or.inl ⟨hbase, hnext.above⟩
    · refine Or.inr ⟨fun x hx hcovers => ?_, Nat.lt_of_not_le hbase, fun x hx hlt => ?_⟩
      · exact hbase (Nat.le_trans (hnext.lowest x hx hcovers.2) hcovers.1)
      · exact hnext.lowest x hx (Nat.lt_trans hlt (h.mappings x hx).base_lt_stop)
  · rintro ⟨hm, hcovers | ⟨hnone, hlt, hlowest⟩⟩
    · refine ⟨hm, hcovers.2, fun x hx habove => ?_⟩
      rcases h.apart hm hx with rfl | happart | happart
      · exact Nat.le_refl _
      · exact Nat.le_trans (Nat.le_of_lt (h.mappings m hm).base_lt_stop) happart
      · exact absurd habove (Nat.not_lt_of_le (Nat.le_trans happart hcovers.1))
    · refine ⟨hm, Nat.lt_trans hlt (h.mappings m hm).base_lt_stop, fun x hx habove => hlowest x hx ?_⟩
      exact Nat.lt_of_not_le fun hbase => hnone x hx ⟨hbase, habove⟩

/-- Every region of the layout lies where its offset says, counted from the start of the code, and the regions together reach to the
end of the data. -/
structure Layout.Measured (layout : Layout) : Prop where
  parts : ∃ parts, layout.parts = some parts ∧
    parts.map (fun placed => (placed.part, placed.region)) =
      [(.code, layout.code), (.constants, layout.constants), (.data, layout.data)] ∧
    ∀ placed ∈ parts, layout.code.base + placed.offset = placed.region.base
  size : ∃ size, layout.size = some size ∧ layout.data.limit = some (layout.code.base + size)

/-- What is computed of a layout of mappings that lie back to back measures it. -/
theorem Layout.Maps.measured {layout : Layout} (h : layout.Maps space code constants data) : layout.Measured := by
  have hcode := h.code_stop
  have hconstants := h.constants_stop
  have hdata := h.data_stop
  simp only [Mapping.stop] at hcode hconstants hdata
  have hcodeBase := h.code_base
  have hconstantsBase := h.constants_base
  have hdataBase := h.data_base
  refine ⟨⟨_, h.parts_eq, rfl, ?_⟩, _, h.size_eq, ?_⟩
  · intro placed hplaced
    simp only [List.mem_cons, List.not_mem_nil, or_false] at hplaced
    rcases hplaced with rfl | rfl | rfl
    · exact Nat.add_zero _
    · dsimp only
      lia
    · dsimp only
      lia
  · refine (Region.limit_eq_some_iff h.data_base h.data_size).2 ⟨?_, ?_⟩
    · simp only [Mapping.stop]
      lia
    · lia

/-- How locating from a base ends, and the test bed that it leaves. -/
structure Testbed.Discovers (bed after : Testbed) (base : Address) (outcome : Outcome Error Layout) : Prop where
  returns : outcome ≠ .crashed
  /-- There is a layout exactly if the three queries are answered and three mappings lie back to back. -/
  found_iff : (∃ layout, outcome = .done layout) ↔
    (∀ n < 3, bed.machine.ordered? .region n = none) ∧ ∃ code constants data, bed.machine.space.Adjoins base code constants data
  /-- They lie back to back from the mapping on that holds the base, or else from the lowest one above it. -/
  first : ∀ code constants data, bed.machine.space.Adjoins base code constants data → code.Covers base ∨
    (∀ x ∈ bed.machine.space, ¬ x.Covers base) ∧ base < code.base ∧ ∀ x ∈ bed.machine.space, base < x.base → code.base ≤ x.base
  /-- The layout is these mappings, and its offsets and its size are theirs. -/
  layout : ∀ layout code constants data, outcome = .done layout → bed.machine.space.Adjoins base code constants data →
    layout.Maps bed.machine.space code constants data ∧ layout.Measured
  /-- An error is that of the first query that failed or did not find what it was for. -/
  failed_iff : ∀ error, outcome = .failed error ↔ bed.machine.Misses base error
  /-- Nothing but queries is asked, whatever comes back. -/
  asks : (locate base).Asks fun request => ∃ a, request = .region a
  /-- At most three of them were made. -/
  queries : ∃ addresses : List Address, addresses.length ≤ 3 ∧
    after.machine.calls.toList = bed.machine.calls.toList ++ addresses.map .region
  space : after.machine.space = bed.machine.space
  threads : after.machine.threads = bed.machine.threads
  script : after.script = bed.script

namespace Testbed

/-- Locating makes at most three queries and ends with a layout of mappings that lie back to back, or with what it misses. -/
theorem locate_cases {world after : World Testbed} {outcome : Outcome Error Layout} (hwf : world.kernel.machine.space.WellFormed)
    (hs : world.kernel.machine.space.Addressable) (hrun : (locate base).run world = (outcome, after)) :
    ∃ addresses, addresses.length ≤ 3 ∧ after.kernel = world.kernel.queried addresses ∧
      ((∃ layout code constants data, outcome = .done layout ∧ (∀ n < 3, world.kernel.machine.ordered? .region n = none) ∧
          layout.Maps world.kernel.machine.space code constants data ∧
          world.kernel.machine.space.Adjoins base code constants data) ∨
        ∃ error, outcome = .failed error ∧ world.kernel.machine.Misses base error) := by
  have hwp : (locate base).wp
      (fun layout bed => ∃ addresses, addresses.length ≤ 3 ∧ bed = world.kernel.queried addresses ∧ ∃ code constants data,
        (∀ n < 3, world.kernel.machine.ordered? .region n = none) ∧
          layout.Maps world.kernel.machine.space code constants data ∧
          world.kernel.machine.space.Adjoins base code constants data)
      (fun error bed => ∃ addresses, addresses.length ≤ 3 ∧ bed = world.kernel.queried addresses ∧
        world.kernel.machine.Misses base error) (fun _ => False) world.kernel :=
    wp_locate_queried hwf hs
      (fun _ code constants data addresses hlength hanswered _ hmaps hadjoins =>
        ⟨addresses, hlength, rfl, code, constants, data, hanswered, hmaps, hadjoins⟩)
      fun _ addresses hlength hmisses => ⟨addresses, hlength, rfl, hmisses⟩
  rw [Program.wp_iff_run, hrun] at hwp
  cases outcome with
  | done layout =>
    obtain ⟨addresses, hlength, hafter, code, constants, data, hfound⟩ := hwp
    exact ⟨addresses, hlength, hafter, Or.inl ⟨layout, code, constants, data, rfl, hfound⟩⟩
  | failed error =>
    obtain ⟨addresses, hlength, hafter, hmisses⟩ := hwp
    exact ⟨addresses, hlength, hafter, Or.inr ⟨error, rfl, hmisses⟩⟩
  | crashed => exact hwp.elim

/-- Locating finds exactly the mappings that lie back to back, whatever the map is and whichever calls are to fail. -/
theorem discovers_locate {world after : World Testbed} {outcome : Outcome Error Layout}
    (hwf : world.kernel.machine.space.WellFormed) (hs : world.kernel.machine.space.Addressable)
    (hrun : (locate base).run world = (outcome, after)) : world.kernel.Discovers after.kernel base outcome := by
  obtain ⟨addresses, hlength, hafter, hends⟩ := locate_cases hwf hs hrun
  rw [hafter]
  refine {
    returns := ?returns
    found_iff := ?found
    first := fun _ _ _ hadjoins => (hwf.next_iff.1 hadjoins.next).2
    layout := ?layout
    failed_iff := ?failed
    asks := asks_locate_of fun a => ⟨a, rfl⟩
    queries := ⟨addresses, hlength, calls_queried addresses⟩
    space := (still_queried addresses).space
    threads := threads_queried addresses
    script := rfl }
  -- what is missed and what lies back to back exclude each other, and either of them is one thing only
  case returns =>
    rcases hends with ⟨layout, _, _, _, rfl, -⟩ | ⟨error, rfl, -⟩
    · nofun
    · nofun
  case found =>
    rcases hends with ⟨layout, code, constants, data, rfl, hanswered, -, hadjoins⟩ | ⟨error, rfl, hmisses⟩
    · exact ⟨fun _ => ⟨hanswered, code, constants, data, hadjoins⟩, fun _ => ⟨layout, rfl⟩⟩
    · constructor
      · rintro ⟨layout, heq⟩
        cases heq
      · rintro ⟨hanswered, code, constants, data, hadjoins⟩
        exact absurd hadjoins (hmisses.not_adjoins hwf hanswered)
  case layout =>
    intro layout code constants data hdone hadjoins
    rcases hends with ⟨layout', _, _, _, heq, -, hmaps, hadjoins'⟩ | ⟨error, rfl, -⟩
    · cases hdone.symm.trans heq
      obtain ⟨rfl, rfl, rfl⟩ := hadjoins'.unique hwf hadjoins
      exact ⟨hmaps, hmaps.measured⟩
    · cases hdone
  case failed =>
    intro error
    rcases hends with ⟨layout, _, _, _, rfl, hanswered, -, hadjoins⟩ | ⟨error', rfl, hmisses⟩
    · exact ⟨nofun, fun hmisses => absurd hadjoins (hmisses.not_adjoins hwf hanswered)⟩
    · constructor
      · rintro ⟨⟩
        exact hmisses
      · intro hmisses'
        rw [hmisses.unique hwf hmisses']

/-- The small process is found from an address in its code, although the fourth query would fail. -/
theorem discovers_threePages : ∃ (bed : Testbed) (layout : Layout) (after : World Testbed),
    bed.machine.space.WellFormed ∧ bed.machine.space.Addressable ∧ bed.machine.ordered? .region 3 = some .failure ∧
      (locate (Space.imageBase + 0x20)).run { kernel := bed } = (.done layout, after) ∧
      bed.Discovers after.kernel (Space.imageBase + 0x20) (.done layout) := by
  let bed : Testbed := { machine := Testbed.threePages.machine.inject ⟨.region, 3, .failure⟩ }
  obtain ⟨after, hrun⟩ : ∃ after, (locate (Space.imageBase + 0x20)).run { kernel := bed } = (.done Layout.threePages, after) :=
    Program.exists_run_eq (by decide +kernel)
  exact ⟨bed, _, after, Space.wellFormed_threePages, Space.addressable_threePages, rfl, hrun,
    discovers_locate Space.wellFormed_threePages Space.addressable_threePages hrun⟩

end Testbed

end LivePatch
