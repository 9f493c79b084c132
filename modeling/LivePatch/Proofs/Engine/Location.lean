import LivePatch.Engine.Layout
import LivePatch.Proofs.Simulation.Schedule

/-!
# Locating an image

A layout is located from a base if the three queries report its regions back to back and the last one ends at an address.
Locating only looks: it finds this layout, or it fails with a query or with a layout that is violated. Which of the three queries
comes to nothing, and why, follows from the memory and from the failures that were ordered; on a quiet test bed it follows from the
memory alone.
-/

namespace LivePatch

open Program (request)

/-- The queries from `base` on report the regions of the layout, back to back. -/
structure Layout.LocatedIn (layout : Layout) (space : Space) (base : Address) : Prop where
  code : space.region base = .done layout.code
  constants : space.region layout.constants.base = .done layout.constants
  data : space.region layout.data.base = .done layout.data
  constants_base : layout.code.limit = some layout.constants.base
  data_base : layout.constants.limit = some layout.data.base
  data_limit : ∃ stop, layout.data.limit = some stop

/-- The regions of the layout are these mappings, which lie back to back. -/
structure Layout.Maps (layout : Layout) (space : Space) (code constants data : Mapping) : Prop where
  code_mem : code ∈ space
  constants_mem : constants ∈ space
  data_mem : data ∈ space
  code_base : layout.code.base = code.base
  code_size : layout.code.size = code.size
  constants_base : layout.constants.base = constants.base
  constants_size : layout.constants.size = constants.size
  data_base : layout.data.base = data.base
  data_size : layout.data.size = data.size
  code_stop : code.stop = constants.base
  constants_stop : constants.stop = data.base
  data_stop : data.stop < Word.count

/-- A region that a space reports is a mapping, and its limit is where the mapping ends. -/
theorem Region.limit_eq_some_iff {region : Region} {m : Mapping} {a : Address} (hb : region.base = m.base)
    (hn : region.size = m.size) : region.limit = some a ↔ m.stop = a ∧ a < Word.count := by
  rw [Region.limit, Word.add_eq_some_iff, hb, hn, Mapping.stop]

namespace Layout

variable {layout : Layout} {space : Space} {base : Address} {code constants data : Mapping}

/-- The regions of a located layout are mappings. -/
theorem LocatedIn.exists_maps (h : layout.LocatedIn space base) :
    ∃ code constants data, layout.Maps space code constants data := by
  obtain ⟨code, hcode, hcb, hcs⟩ := Space.mem_of_region_eq_done h.code
  obtain ⟨constants, hconstants, hkb, hks⟩ := Space.mem_of_region_eq_done h.constants
  obtain ⟨data, hdata, hdb, hds⟩ := Space.mem_of_region_eq_done h.data
  obtain ⟨stop, hstop⟩ := h.data_limit
  have h1 := (Region.limit_eq_some_iff hcb hcs).1 h.constants_base
  have h2 := (Region.limit_eq_some_iff hkb hks).1 h.data_base
  have h3 := (Region.limit_eq_some_iff hdb hds).1 hstop
  exact ⟨code, constants, data, hcode, hconstants, hdata, hcb, hcs, hkb, hks, hdb, hds, h1.1.trans hkb, h2.1.trans hdb,
    by lia⟩

/-- The mappings of a layout have room in the addresses together, so its sizes and offsets are there. -/
theorem Maps.size_eq (h : layout.Maps space code constants data) :
    layout.size = some (code.size + constants.size + data.size) := by
  have h1 := h.code_stop
  have h2 := h.constants_stop
  have h3 := h.data_stop
  simp only [Mapping.stop] at h1 h2 h3
  have hfirst : Word.add code.size constants.size = some (code.size + constants.size) :=
    Word.add_eq_some_iff.2 ⟨rfl, by lia⟩
  rw [Layout.size, h.code_size, h.constants_size, h.data_size, hfirst]
  exact Word.add_eq_some_iff.2 ⟨rfl, by lia⟩

/-- The offsets of parts that lie back to back are there. -/
theorem parts_of_limits {code constants : Region} (data : Region) {a b : Address} (ha : code.limit = some a)
    (hbase : constants.base = a) (hb : constants.limit = some b) :
    Layout.parts ⟨code, constants, data⟩ = some [⟨.code, code, 0⟩, ⟨.constants, constants, code.size⟩,
      ⟨.data, data, code.size + constants.size⟩] := by
  obtain ⟨h1, -⟩ := Word.add_eq_some_iff.1 ha
  obtain ⟨h2, h3⟩ := Word.add_eq_some_iff.1 hb
  have hadd : Word.add code.size constants.size = some (code.size + constants.size) :=
    Word.add_eq_some_iff.2 ⟨rfl, by lia⟩
  rw [Layout.parts, hadd]
  rfl

theorem Maps.parts_eq (h : layout.Maps space code constants data) :
    layout.parts = some [⟨.code, layout.code, 0⟩, ⟨.constants, layout.constants, code.size⟩,
      ⟨.data, layout.data, code.size + constants.size⟩] := by
  have h1 := h.code_stop
  have h2 := h.constants_stop
  have h3 := h.data_stop
  simp only [Mapping.stop] at h1 h2 h3
  have hfirst := (Region.limit_eq_some_iff h.code_base h.code_size).2 ⟨h.code_stop.trans h.constants_base.symm, by
    rw [h.constants_base]; lia⟩
  have hsecond := (Region.limit_eq_some_iff h.constants_base h.constants_size).2
    ⟨h.constants_stop.trans h.data_base.symm, by rw [h.data_base]; lia⟩
  have := parts_of_limits layout.data hfirst rfl hsecond
  rw [h.code_size, h.constants_size] at this
  exact this

/-- What the first query reports settles the code. -/
theorem LocatedIn.code_eq {region : Region} (h : layout.LocatedIn space base) (hcode : space.region base = .done region) :
    layout.code = region := Outcome.done.inj (h.code.symm.trans hcode)

end Layout

/-! ## Three mappings back to back -/

namespace Space

/-- Three mappings lie back to back, and the first of them is the lowest that ends above the base. -/
structure Adjoins (space : Space) (base : Address) (code constants data : Mapping) : Prop where
  next : space.Next base code
  constants_mem : constants ∈ space
  data_mem : data ∈ space
  code_stop : code.stop = constants.base
  constants_stop : constants.stop = data.base

/-- Why no mapping is found that starts at an address, as an error: no mapping ends above the address, or the lowest that does starts
somewhere else. -/
inductive Lacks (space : Space) (expected : Address) (part : Part) (step : Step) : Error → Prop where
  | missing (h : ∀ m ∈ space, m.stop ≤ expected) : Lacks space expected part step (.ofKernel step .invalidAddress)
  | elsewhere {found : Mapping} (hfound : space.Next expected found) (hne : found.base ≠ expected) :
      Lacks space expected part step (.layoutViolated part expected found.base)

/-- Why three mappings back to back are not found, as an error: no mapping ends above the base, or none starts where the one before
it ends. -/
inductive Misplaces (space : Space) (base : Address) : Error → Prop where
  | code (h : ∀ m ∈ space, m.stop ≤ base) : Misplaces space base (.ofKernel .queryCode .invalidAddress)
  | constants {code : Mapping} {error : Error} (hcode : space.Next base code)
      (h : space.Lacks code.stop .constants .queryConstants error) : Misplaces space base error
  | data {code constants : Mapping} {error : Error} (hcode : space.Next base code) (hconstants : constants ∈ space)
      (hbase : code.stop = constants.base) (h : space.Lacks constants.stop .data .queryData error) : Misplaces space base error

variable {space : Space} {base expected : Address} {code constants data m : Mapping} {layout : Layout} {part : Part} {step : Step}
  {error error' : Error}

/-- The mappings of a located layout lie back to back from the base on. -/
theorem WellFormed.adjoins_of_locatedIn (hwf : space.WellFormed) (hs : space.Addressable) (hl : layout.LocatedIn space base)
    (hmaps : layout.Maps space code constants data) : space.Adjoins base code constants data := by
  obtain ⟨m, hnext, hbase⟩ := hwf.next_of_region hs hl.code
  cases hwf.eq_of_base_eq hmaps.code_mem hnext.mem (hmaps.code_base.symm.trans hbase)
  exact ⟨hnext, hmaps.constants_mem, hmaps.data_mem, hmaps.code_stop, hmaps.constants_stop⟩

/-- Three mappings back to back are located. -/
theorem WellFormed.exists_locatedIn (hwf : space.WellFormed) (hs : space.Addressable)
    (h : space.Adjoins base code constants data) :
    ∃ layout : Layout, layout.LocatedIn space base ∧ layout.Maps space code constants data := by
  have hcode := h.next.mem
  obtain ⟨p, hp⟩ := hwf.region_eq_done hs h.next
  obtain ⟨q, hq⟩ := hwf.region_eq_done hs (hwf.next_base h.constants_mem)
  obtain ⟨r, hr⟩ := hwf.region_eq_done hs (hwf.next_base h.data_mem)
  have hcodeLimit : Region.limit ⟨code.base, code.size, p⟩ = some constants.base :=
    (Region.limit_eq_some_iff rfl rfl).2 ⟨h.code_stop, h.code_stop ▸ hs code hcode⟩
  have hconstantsLimit : Region.limit ⟨constants.base, constants.size, q⟩ = some data.base :=
    (Region.limit_eq_some_iff rfl rfl).2 ⟨h.constants_stop, h.constants_stop ▸ hs constants h.constants_mem⟩
  have hdataStop := hs data h.data_mem
  refine ⟨⟨⟨code.base, code.size, p⟩, ⟨constants.base, constants.size, q⟩, ⟨data.base, data.size, r⟩⟩, ?_, ?_⟩
  · exact ⟨hp, hq, hr, hcodeLimit, hconstantsLimit, data.stop, (Region.limit_eq_some_iff rfl rfl).2 ⟨rfl, hdataStop⟩⟩
  · exact ⟨hcode, h.constants_mem, h.data_mem, rfl, rfl, rfl, rfl, rfl, rfl, h.code_stop, h.constants_stop, hdataStop⟩

/-- There is at most one choice of such mappings. -/
theorem Adjoins.unique {code' constants' data' : Mapping} (h : space.Adjoins base code constants data) (hwf : space.WellFormed)
    (h' : space.Adjoins base code' constants' data') : code' = code ∧ constants' = constants ∧ data' = data := by
  cases hwf.next_unique h.next h'.next
  cases hwf.eq_of_base_eq h'.constants_mem h.constants_mem (h'.code_stop.symm.trans h.code_stop)
  cases hwf.eq_of_base_eq h'.data_mem h.data_mem (h'.constants_stop.symm.trans h.constants_stop)
  exact ⟨rfl, rfl, rfl⟩

/-- A mapping that starts at the address is found. -/
theorem Lacks.base_ne (h : space.Lacks expected part step error) (hwf : space.WellFormed) (hm : m ∈ space) : m.base ≠ expected := by
  rintro rfl
  have hnext := hwf.next_base hm
  cases h with
  | missing h => exact absurd hnext.above (Nat.not_lt_of_le (h m hm))
  | elsewhere hfound hne =>
    cases hwf.next_unique hnext hfound
    exact hne rfl

theorem Lacks.unique (h : space.Lacks expected part step error) (hwf : space.WellFormed)
    (h' : space.Lacks expected part step error') : error = error' := by
  cases h with
  | missing h =>
    cases h' with
    | missing => rfl
    | elsewhere hfound => exact absurd hfound.above (Nat.not_lt_of_le (h _ hfound.mem))
  | elsewhere hfound =>
    cases h' with
    | missing h' => exact absurd hfound.above (Nat.not_lt_of_le (h' _ hfound.mem))
    | elsewhere hfound' => rw [hwf.next_unique hfound hfound']

end Space

/-! ## Queries in a row -/

namespace Machine

/-- The `n`-th query from now on is not made to fail, and it is for an address for which this mapping is reported. -/
structure Finds (machine : Machine) (n : Nat) (a : Address) (m : Mapping) : Prop where
  unordered : machine.ordered? .region n = none
  next : machine.space.Next a m

/-- Why the `n`-th query from now on does not find a mapping that starts at an address, as an error: it is made to fail, or there is
no such mapping. -/
inductive Lacks (machine : Machine) (n : Nat) (expected : Address) (part : Part) (step : Step) : Error → Prop where
  | ordered {code : KernelCode} (h : machine.ordered? .region n = some code) :
      Lacks machine n expected part step (.ofKernel step code)
  | absent {error : Error} (h : machine.ordered? .region n = none) (hlacks : machine.space.Lacks expected part step error) :
      Lacks machine n expected part step error

/-- Why three queries in a row do not find three mappings back to back, as an error: the first of them that fails, or that does not
find what it is for, decides. -/
inductive Misses (machine : Machine) (base : Address) : Error → Prop where
  | ordered {code : KernelCode} (h : machine.ordered? .region 0 = some code) : Misses machine base (.ofKernel .queryCode code)
  | missing (h : machine.ordered? .region 0 = none) (hnone : ∀ m ∈ machine.space, m.stop ≤ base) :
      Misses machine base (.ofKernel .queryCode .invalidAddress)
  | constants {code : Mapping} {error : Error} (hcode : machine.Finds 0 base code)
      (h : machine.Lacks 1 code.stop .constants .queryConstants error) : Misses machine base error
  | data {code constants : Mapping} {error : Error} (hcode : machine.Finds 0 base code)
      (hconstants : machine.Finds 1 code.stop constants) (hbase : constants.base = code.stop)
      (h : machine.Lacks 2 constants.stop .data .queryData error) : Misses machine base error

variable {machine : Machine} {n : Nat} {a base expected : Address} {m m' code constants data : Mapping} {part : Part} {step : Step}
  {error error' : Error}

theorem Finds.unique (h : machine.Finds n a m) (hwf : machine.space.WellFormed) (h' : machine.Finds n a m') : m = m' :=
  hwf.next_unique h.next h'.next

/-- A query that finds a mapping that starts at the address lacks nothing. -/
theorem Lacks.base_ne (h : machine.Lacks n expected part step error) (hwf : machine.space.WellFormed)
    (hfinds : machine.Finds n expected m) : m.base ≠ expected := by
  cases h with
  | ordered h => cases h.symm.trans hfinds.unordered
  | absent _ hlacks => exact hlacks.base_ne hwf hfinds.next.mem

theorem Lacks.unique (h : machine.Lacks n expected part step error) (hwf : machine.space.WellFormed)
    (h' : machine.Lacks n expected part step error') : error = error' := by
  cases h with
  | ordered h =>
    cases h' with
    | ordered h' =>
      cases h.symm.trans h'
      rfl
    | absent h' => cases h.symm.trans h'
  | absent h hlacks =>
    cases h' with
    | ordered h' => cases h.symm.trans h'
    | absent _ hlacks' => exact hlacks.unique hwf hlacks'

/-- Nothing is missed if all three queries are answered and the mappings lie back to back. -/
theorem Misses.not_adjoins (h : machine.Misses base error) (hwf : machine.space.WellFormed)
    (hanswered : ∀ n < 3, machine.ordered? .region n = none) : ¬ machine.space.Adjoins base code constants data := by
  intro hadjoins
  have hcode : machine.Finds 0 base code := ⟨hanswered 0 (by decide), hadjoins.next⟩
  have hconstants : machine.Finds 1 code.stop constants :=
    ⟨hanswered 1 (by decide), hadjoins.code_stop ▸ hwf.next_base hadjoins.constants_mem⟩
  have hdata : machine.Finds 2 constants.stop data :=
    ⟨hanswered 2 (by decide), hadjoins.constants_stop ▸ hwf.next_base hadjoins.data_mem⟩
  cases h with
  | ordered h => cases h.symm.trans hcode.unordered
  | missing _ hnone => exact absurd hadjoins.next.above (Nat.not_lt_of_le (hnone code hadjoins.next.mem))
  | constants hcode' h =>
    cases hcode.unique hwf hcode'
    exact h.base_ne hwf hconstants hadjoins.code_stop.symm
  | data hcode' hconstants' _ h =>
    cases hcode.unique hwf hcode'
    cases hconstants.unique hwf hconstants'
    exact h.base_ne hwf hdata hadjoins.constants_stop.symm

/-- The first query that does not find what it is for is the only reason. -/
theorem Misses.unique (h : machine.Misses base error) (hwf : machine.space.WellFormed) (h' : machine.Misses base error') :
    error = error' := by
  have hmissing : ∀ {m}, machine.Finds 0 base m → ¬ ∀ x ∈ machine.space, x.stop ≤ base :=
    fun hm hnone => absurd hm.next.above (Nat.not_lt_of_le (hnone _ hm.next.mem))
  cases h with
  | ordered h =>
    cases h' with
    | ordered h' =>
      cases h.symm.trans h'
      rfl
    | missing h' => cases h.symm.trans h'
    | constants hcode' | data hcode' => cases h.symm.trans hcode'.unordered
  | missing h hnone =>
    cases h' with
    | ordered h' => cases h.symm.trans h'
    | missing => rfl
    | constants hcode' | data hcode' => exact absurd hnone (hmissing hcode')
  | constants hcode h =>
    cases h' with
    | ordered h' => cases h'.symm.trans hcode.unordered
    | missing _ hnone => exact absurd hnone (hmissing hcode)
    | constants hcode' h' =>
      cases hcode.unique hwf hcode'
      exact h.unique hwf h'
    | data hcode' hconstants' hbase' =>
      cases hcode.unique hwf hcode'
      exact absurd hbase' (h.base_ne hwf hconstants')
  | data hcode hconstants hbase h =>
    cases h' with
    | ordered h' => cases h'.symm.trans hcode.unordered
    | missing _ hnone => exact absurd hnone (hmissing hcode)
    | constants hcode' h' =>
      cases hcode.unique hwf hcode'
      exact absurd hbase (h'.base_ne hwf hconstants)
    | data hcode' hconstants' _ h' =>
      cases hcode.unique hwf hcode'
      cases hconstants.unique hwf hconstants'
      exact h.unique hwf h'

/-- If no query is made to fail, what is missed is misplaced. -/
theorem misses_iff_misplaces (hwf : machine.space.WellFormed)
    (hanswered : ∀ n, machine.ordered? .region n = none) : machine.Misses base error ↔ machine.space.Misplaces base error := by
  constructor
  · intro h
    cases h with
    | ordered h => cases h.symm.trans (hanswered 0)
    | missing _ hnone => exact .code hnone
    | constants hcode h =>
      cases h with
      | ordered h => cases h.symm.trans (hanswered 1)
      | absent _ hlacks => exact .constants hcode.next hlacks
    | data hcode hconstants hbase h =>
      cases h with
      | ordered h => cases h.symm.trans (hanswered 2)
      | absent _ hlacks => exact .data hcode.next hconstants.next.mem hbase.symm hlacks
  · intro h
    cases h with
    | code hnone => exact .missing (hanswered 0) hnone
    | constants hcode hlacks => exact .constants ⟨hanswered 0, hcode⟩ (.absent (hanswered 1) hlacks)
    | data hcode hconstants hbase hlacks =>
      exact .data ⟨hanswered 0, hcode⟩ ⟨hanswered 1, hbase ▸ hwf.next_base hconstants⟩ hbase.symm (.absent (hanswered 2) hlacks)

end Machine

namespace Space

variable {space : Space} {base : Address} {code constants data : Mapping} {error error' : Error}

/-- Mappings that are misplaced are missed by a machine that is not made to fail. -/
theorem Misplaces.misses (h : space.Misplaces base error) (hwf : space.WellFormed) : Machine.Misses { space := space } base error :=
  (Machine.misses_iff_misplaces hwf fun _ => rfl).2 h

/-- Mappings that are misplaced do not lie back to back. -/
theorem Misplaces.not_adjoins (h : space.Misplaces base error) (hwf : space.WellFormed) :
    ¬ space.Adjoins base code constants data :=
  (h.misses hwf).not_adjoins hwf fun _ _ => rfl

/-- There is one reason why the mappings are not found, the first one. -/
theorem Misplaces.unique (h : space.Misplaces base error) (hwf : space.WellFormed) (h' : space.Misplaces base error') :
    error = error' :=
  (h.misses hwf).unique hwf (h'.misses hwf)

end Space

/-! ## The program -/

/-- The errors of locating: a query that failed, or a part that is not where it is expected. -/
inductive Error.OfLocating : Error → Prop where
  | query (step : Step) (code : KernelCode) (h : step.isFatal = false) : OfLocating (.ofKernel step code)
  | layout (part : Part) (expected found : Address) : OfLocating (.layoutViolated part expected found)

theorem Machine.Lacks.ofLocating {machine : Machine} {n : Nat} {expected : Address} {part : Part} {step : Step} {error : Error}
    (h : machine.Lacks n expected part step error) (hstep : step.isFatal = false) : error.OfLocating := by
  cases h with
  | ordered => exact .query step _ hstep
  | absent _ hlacks =>
    cases hlacks with
    | missing => exact .query step _ hstep
    | elsewhere => exact .layout part expected _

theorem Machine.Misses.ofLocating {machine : Machine} {base : Address} {error : Error} (h : machine.Misses base error) :
    error.OfLocating := by
  cases h with
  | ordered | missing => exact .query _ _ rfl
  | constants _ h | data _ _ _ h => exact h.ofLocating rfl

namespace Testbed

open Layout (parts_of_limits)

variable {bed : Testbed} {E : Error → Testbed → Prop} {C : Testbed → Prop}

/-- The rule for a query behind others: it fails if that was ordered or if no mapping ends above the address, and otherwise finds the
lowest that does. -/
theorem wp_query {a : Address} {step : Step} {Q : Region → Testbed → Prop} (addresses : List Address)
    (hwf : bed.machine.space.WellFormed) (hs : bed.machine.space.Addressable)
    (hdone : ∀ m protection, bed.machine.Finds addresses.length a m →
      bed.machine.space.region a = .done ⟨m.base, m.size, protection⟩ →
      Q ⟨m.base, m.size, protection⟩ (bed.queried (addresses ++ [a])))
    (hordered : ∀ code, bed.machine.ordered? .region addresses.length = some code →
      E (.ofKernel step code) (bed.queried (addresses ++ [a])))
    (hnone : bed.machine.ordered? .region addresses.length = none → (∀ m ∈ bed.machine.space, m.stop ≤ a) →
      E (.ofKernel step .invalidAddress) (bed.queried (addresses ++ [a]))) :
    ((request (.region a)).during step).wp Q E C (bed.queried addresses) := by
  have hspace : (bed.queried addresses).machine.space = bed.machine.space := (still_queried addresses).space
  rw [queried_concat] at hdone hordered hnone
  rw [Program.wp_during, Program.wp_request]
  have hserve : Kernel.serve (.region a) (bed.queried addresses) =
      (bed.queried addresses).following (Machine.reply ((bed.queried addresses).machine.receive (.region a)
        (Machine.observe (·.region a)))) := rfl
  rw [hserve]
  rcases Machine.receive_eq (bed.queried addresses).machine (.region a) (Machine.observe (·.region a)) with
    ⟨code, hcode, h⟩ | ⟨hcode, h⟩
  · have hinjected : (bed.queried addresses).machine.injected? .region = some code := hcode
    rw [injected?_queried] at hinjected
    rw [h]
    exact hordered code hinjected
  · have hinjected : (bed.queried addresses).machine.injected? .region = none := hcode
    rw [injected?_queried] at hinjected
    have hlook : Machine.observe (·.region a) ((bed.queried addresses).machine.recorded (.region a)) =
        (bed.machine.space.region a, (bed.queried addresses).machine.recorded (.region a)) := by
      rw [← hspace]
      rfl
    rw [h, hlook]
    rcases hwf.region_cases hs a with ⟨m, protection, hnext, hregion⟩ | ⟨hmissing, hregion⟩
    · rw [hregion]
      exact hdone m protection ⟨hinjected, hnext⟩ hregion
    · rw [hregion]
      exact hnone hinjected hmissing

/-- The rule for the query of a part: it finds a mapping that starts where the part has to, or lacks one. -/
theorem wp_queryAt {expected : Address} {part : Part} {step : Step} {Q : Region → Testbed → Prop} (addresses : List Address)
    (hwf : bed.machine.space.WellFormed) (hs : bed.machine.space.Addressable)
    (hdone : ∀ m protection, bed.machine.Finds addresses.length expected m → m.base = expected →
      bed.machine.space.region expected = .done ⟨m.base, m.size, protection⟩ →
      Q ⟨m.base, m.size, protection⟩ (bed.queried (addresses ++ [expected])))
    (hfail : ∀ error, bed.machine.Lacks addresses.length expected part step error →
      E error (bed.queried (addresses ++ [expected]))) :
    (queryAt expected part step).wp Q E C (bed.queried addresses) := by
  rw [queryAt, Program.wp_bind]
  refine wp_query addresses hwf hs (fun m protection hfinds hregion => ?_) (fun code hcode => hfail _ (.ordered hcode))
    fun hcode hnone => hfail _ (.absent hcode (.missing hnone))
  dsimp only
  split
  · rename_i hbase
    exact hdone m protection hfinds hbase hregion
  · rename_i hne
    exact hfail _ (.absent hfinds.unordered (.elsewhere hfinds.next hne))

theorem wp_noteParts {parts : List PlacedRegion} {Q : Unit → Testbed → Prop}
    (hlimits : ∀ placed ∈ parts, ∃ limit, placed.region.limit = some limit) (hdone : Q () bed) : (noteParts parts).wp Q E C bed := by
  induction parts with
  | nil => exact hdone
  | cons placed rest ih =>
    obtain ⟨limit, hlimit⟩ := hlimits placed List.mem_cons_self
    rw [noteParts, hlimit, Program.require_some, Program.done_bind, Program.wp_bind, Program.wp_note]
    exact ih fun x hx => hlimits x (List.mem_cons_of_mem _ hx)

/-- The rule for locating what lies behind the code: two mappings back to back are found, or one of them is missed. -/
theorem wp_locateBehind {base : Address} {protection : Protection} {code : Mapping} {Q : Layout → Testbed → Prop}
    (hwf : bed.machine.space.WellFormed) (hs : bed.machine.space.Addressable) (hcode : bed.machine.Finds 0 base code)
    (hregion : bed.machine.space.region base = .done ⟨code.base, code.size, protection⟩)
    (hdone : ∀ (layout : Layout) constants data, (∀ n < 3, bed.machine.ordered? .region n = none) →
      layout.LocatedIn bed.machine.space base → layout.Maps bed.machine.space code constants data →
      bed.machine.space.Adjoins base code constants data → Q layout (bed.queried [base, code.stop, constants.stop]))
    (hfail : ∀ error addresses, addresses.length ≤ 3 → bed.machine.Misses base error → E error (bed.queried addresses)) :
    (locateBehind ⟨code.base, code.size, protection⟩).wp Q E C (bed.queried [base]) := by
  have hcodeLimit : Region.limit ⟨code.base, code.size, protection⟩ = some code.stop :=
    (Region.limit_eq_some_iff rfl rfl).2 ⟨rfl, hs code hcode.next.mem⟩
  rw [locateBehind, hcodeLimit, Program.require_some, Program.done_bind, Program.wp_bind]
  refine wp_queryAt [base] hwf hs (fun constants protection' hconstants hbase hregion' => ?_)
    fun error h => hfail error _ (by simp) (.constants hcode h)
  have hconstantsStop := hs constants hconstants.next.mem
  have hconstantsLimit : Region.limit ⟨constants.base, constants.size, protection'⟩ = some constants.stop :=
    (Region.limit_eq_some_iff rfl rfl).2 ⟨rfl, hconstantsStop⟩
  rw [hconstantsLimit, Program.require_some, Program.done_bind, Program.wp_bind]
  refine wp_queryAt [base, code.stop] hwf hs (fun data protection'' hdata hbase' hregion'' => ?_)
    fun error h => hfail error _ (by simp) (.data hcode hconstants hbase h)
  have hdataLimit : Region.limit ⟨data.base, data.size, protection''⟩ = some data.stop :=
    (Region.limit_eq_some_iff rfl rfl).2 ⟨rfl, hs data hdata.next.mem⟩
  dsimp only
  rw [parts_of_limits _ hcodeLimit hbase hconstantsLimit, Program.require_some, Program.done_bind, Program.wp_bind]
  refine wp_noteParts (by simp [hcodeLimit, hconstantsLimit, hdataLimit]) ?_
  refine hdone _ constants data ?_ ⟨hregion, hbase.symm ▸ hregion', hbase'.symm ▸ hregion'', hbase.symm ▸ hcodeLimit,
    hbase'.symm ▸ hconstantsLimit, _, hdataLimit⟩ ?_ ⟨hcode.next, hconstants.next.mem, hdata.next.mem, hbase.symm, hbase'.symm⟩
  · intro n hn
    match n, hn with
    | 0, _ => exact hcode.unordered
    | 1, _ => exact hconstants.unordered
    | 2, _ => exact hdata.unordered
  · exact ⟨hcode.next.mem, hconstants.next.mem, hdata.next.mem, rfl, rfl, rfl, rfl, rfl, rfl, hbase.symm, hbase'.symm,
      hs data hdata.next.mem⟩

/-- Locating makes at most three queries. It finds the three mappings that lie back to back from the base on, or misses them. -/
theorem wp_locate_queried {base : Address} {Q : Layout → Testbed → Prop} (hwf : bed.machine.space.WellFormed)
    (hs : bed.machine.space.Addressable)
    (hdone : ∀ (layout : Layout) code constants data addresses, addresses.length ≤ 3 →
      (∀ n < 3, bed.machine.ordered? .region n = none) → layout.LocatedIn bed.machine.space base →
      layout.Maps bed.machine.space code constants data → bed.machine.space.Adjoins base code constants data →
      Q layout (bed.queried addresses))
    (hfail : ∀ error addresses, addresses.length ≤ 3 → bed.machine.Misses base error → E error (bed.queried addresses)) :
    (locate base).wp Q E C bed := by
  rw [locate, Program.wp_bind]
  refine wp_query [] hwf hs (fun code protection hcode hregion => ?_) (fun code h => hfail _ _ (by simp) (.ordered h))
    fun h hnone => hfail _ _ (by simp) (.missing h hnone)
  have hrest : (locateBehind ⟨code.base, code.size, protection⟩).wp Q E C (bed.queried [base]) :=
    wp_locateBehind hwf hs hcode hregion
      (fun layout constants data hanswered hl hmaps hadjoins =>
        hdone layout code constants data _ (Nat.le_refl 3) hanswered hl hmaps hadjoins) hfail
  -- whether it was noted that the code lies elsewhere makes no difference
  dsimp only
  split
  · exact hrest
  · exact hrest

/-- Locating finds the three mappings that lie back to back from the base on, and leaves the memory alone. On a quiet test bed it
fails only if there are none. -/
theorem wp_locate {base : Address} {Q : Layout → Testbed → Prop} (hwf : bed.machine.space.WellFormed)
    (hs : bed.machine.space.Addressable)
    (hdone : ∀ (layout : Layout) code constants data bed', layout.LocatedIn bed.machine.space base →
      layout.Maps bed.machine.space code constants data → bed.machine.space.Adjoins base code constants data →
      bed.Still bed' → Q layout bed')
    (hfail : ∀ error bed', bed.Still bed' → error.OfLocating → (bed.Quiet → bed.machine.space.Misplaces base error) →
      E error bed') : (locate base).wp Q E C bed :=
  wp_locate_queried hwf hs
    (fun layout code constants data _ _ _ hl hmaps hadjoins =>
      hdone layout code constants data _ hl hmaps hadjoins (still_queried _))
    fun error _ _ h => hfail error _ (still_queried _) h.ofLocating fun hquiet =>
      (Machine.misses_iff_misplaces hwf hquiet.ordered?_eq_none).1 h

end Testbed

end LivePatch
