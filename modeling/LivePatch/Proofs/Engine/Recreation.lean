import LivePatch.Proofs.Engine.Bracket
import LivePatch.Proofs.Engine.Shadowing

/-!
# Recreating code

The code region is replaced by a private copy of itself: the mapping is removed, a new one takes its place, and the code comes
back from the shadow image. From the moment that the old mapping is gone until the new one is complete, no address of the
region can be executed: the code is lost. An error in between is fatal, and only there is an error fatal.
-/

namespace LivePatch

open Program (request)

namespace Mapping

variable {m y : Mapping}

/-- The pages of new memory are as many as those of a mapping of its size. -/
theorem WellFormed.pages_fresh (h : m.WellFormed) (base : Address) : (fresh base m.size).pages.size = m.pages.size := by
  have := h.size_eq
  simp only [fresh, Array.size_replicate, pageBytes] at *
  lia

/-- New memory in the place of a mapping has its shape. -/
theorem WellFormed.sameShape_fresh (h : m.WellFormed) : m.SameShape (fresh m.base m.size) :=
  ⟨rfl, size_fresh, h.pages_fresh m.base⟩

/-- Filling a mapping with the bytes of another one of its shape keeps the shape. -/
theorem SameShape.withBytes_bytes (h : m.SameShape y) : m.SameShape (y.withBytes m.base m.bytes) := by
  refine h.trans (sameShape_withBytes (Nat.le_of_eq h.base) ?_)
  rw [h.stop]
  exact Nat.le_refl _

/-- A mapping that was filled with the bytes of another one differs from it in its pages alone. -/
theorem SameShape.painted_withBytes_bytes {p : Protection} (h : m.SameShape y) :
    (y.withBytes m.base m.bytes).painted p = m.painted p := by
  have hbytes : y.bytes.splice 0 m.bytes = m.bytes := Bytes.splice_all h.size.symm
  simp only [painted, withBytes, h.base, h.pages, Nat.sub_self, hbytes]

end Mapping

/-- Every page that is mapped at an address of the code can be read and written, and not executed. -/
def Space.Lost (space : Space) (code : Mapping) : Prop :=
  ∀ a, code.Covers a → ∀ m ∈ space, m.Covers a → m.pages[m.pageOf a]? = some .readWrite

namespace Space

variable {space : Space} {code m : Mapping}

/-- An address of a mapping of whole pages with one protection is protected in this way. -/
theorem page_of_uniform {a : Address} {p : Protection} (hsize : m.size = m.pages.size * pageBytes)
    (hpages : ∀ q ∈ m.pages, q = p) (ha : m.Covers a) : m.pages[m.pageOf a]? = some p := by
  have h1 := ha.1
  have h2 := ha.2
  have hlt : m.pageOf a < m.pages.size := by
    rw [Mapping.pageOf, Nat.div_lt_iff_lt_mul Mapping.pageBytes_pos, ← hsize]
    simp only [Mapping.stop] at h2
    lia
  rw [Array.getElem?_eq_getElem hlt, hpages _ (Array.getElem_mem hlt)]

/-- Code that was unmapped is lost. -/
theorem WellFormed.lost_remove (h : space.WellFormed) (hcode : code ∈ space) : Lost (space.remove code.base) code := by
  intro a ha m hm hma
  obtain ⟨hm, hne⟩ := mem_remove_iff.1 hm
  exact absurd (congrArg Mapping.base (h.eq_of_covers hm hcode hma ha)) hne

/-- Code stays lost when memory is mapped that cannot be executed. -/
theorem Lost.insert (h : space.Lost code) (hsize : m.size = m.pages.size * pageBytes)
    (hpages : ∀ p ∈ m.pages, p = .readWrite) : Lost (space.insert m) code := by
  intro a ha m' hm' hma
  rcases mem_of_mem_insert hm' with rfl | hm'
  · exact page_of_uniform hsize hpages hma
  · exact h a ha m' hm' hma

/-- Code is lost when it was exchanged for memory that cannot be executed. -/
theorem WellFormed.lost_update (h : space.WellFormed) (hcode : code ∈ space) (hm : code.SameShape m)
    (hpages : ∀ p ∈ m.pages, p = .readWrite) : Lost (space.update m) code := by
  intro a ha m' hm' hma
  rcases mem_update_iff.1 hm' with ⟨rfl, -⟩ | ⟨hm', hne⟩
  · exact page_of_uniform (hm.wellFormed (h.mappings code hcode)).size_eq hpages hma
  · refine absurd ?_ hne
    rw [h.eq_of_covers hm' hcode hma ha, hm.base]

/-- Code that can be executed on every page is not lost. -/
theorem not_lost_of_executable {code' : Mapping} (hcode' : code' ∈ space) (hshape : code.SameShape code') (hwf : code.WellFormed)
    (hpages : ∀ p ∈ code'.pages, p.execute = true) : ¬ space.Lost code := by
  intro hlost
  have hcovers : code.Covers code.base := ⟨Nat.le_refl _, hwf.base_lt_stop⟩
  have hcovers' : code'.Covers code.base := by
    rw [Mapping.Covers, hshape.base, hshape.stop]
    exact hcovers
  have := hpages _ (Array.mem_of_getElem? (hlost _ hcovers code' hcode' hcovers'))
  cases this

/-- Copying the code back from a shadow image into the memory in its place. -/
theorem WellFormed.copy_back {x y : Mapping} (h : space.WellFormed) (hs : space.Addressable) (hcode : code ∈ space)
    (hx : x ∈ space) (hne : x.base ≠ code.base) (hle : code.size ≤ x.size) (hbytes : x.bytesAt x.base code.size = code.bytes)
    (hpages : ∀ p ∈ x.pages, p = .readExecute) (hy : code.SameShape y) (hypages : ∀ p ∈ y.pages, p = .readWrite) :
    (space.update y).copy x.base code.size code.base = .done (space.update (y.withBytes code.base code.bytes)) := by
  have hpos := (h.mappings code hcode).size_pos
  have hwf := h.update hcode hy
  have hy' := mem_update_self hcode hy.base
  have hx' : x ∈ space.update y := mem_update_iff.2 (Or.inr ⟨hx, hy.base ▸ hne⟩)
  have hload : (space.update y).load x.base code.size = .done code.bytes := by
    rw [hwf.load_eq_done hx' (hs x hx) hpos (Nat.le_refl _) (Nat.add_le_add_left hle _) fun p hp => ?_, hbytes]
    rw [hpages p hp]
    rfl
  have hfits : code.base + code.bytes.size ≤ y.stop := by
    rw [hy.stop]
    exact Nat.le_refl _
  have hstore := hwf.store_eq_done hy' (hs.update hcode hy y hy') hpos (Nat.le_of_eq hy.base) hfits fun i _ _ p hi => by
    rw [hypages p (Array.mem_of_getElem? hi)]
    rfl
  have hagain : (space.update y).update (y.withBytes code.base code.bytes) =
      space.update (y.withBytes code.base code.bytes) := update_update rfl
  rw [copy_eq_done hload hstore, hagain]

end Space

/-- The error is that of a layout that is not as it has to be. -/
def Error.ViolatesLayout (error : Error) : Prop := ∃ part expected found, error = .layoutViolated part expected found

/-- The error is fatal, and not because of the layout. -/
def Error.LosesCode (error : Error) : Prop := error.isFatal = true ∧ ¬ error.ViolatesLayout

namespace Testbed

variable {bed : Testbed} {Q : Unit → Testbed → Prop} {E : Error → Testbed → Prop} {C : Testbed → Prop}
  {space : Space} {region : Region} {code x y : Mapping}

/-- Refilling new memory in the place of the code brings the code back. -/
theorem wp_refillCode (hwf : space.WellFormed) (hs : space.Addressable) (hcode : code ∈ space) (hx : x ∈ space)
    (hne : x.base ≠ code.base) (hbase : region.base = code.base) (hsize : region.size = code.size)
    (hle : code.size ≤ x.size) (hbytes : x.bytesAt x.base code.size = code.bytes) (hpages : ∀ p ∈ x.pages, p = .readExecute)
    (hspace : bed.machine.space = space.update y) (hy : code.SameShape y) (hypages : ∀ p ∈ y.pages, p = .readWrite)
    (hdone : ∀ bed', bed.Follows bed' → bed'.machine.space = space.update (code.painted .readExecute) → Q () bed')
    (hfail : ∀ error bed', bed.Follows bed' → error.LosesCode → bed'.machine.space.Lost code → ¬ bed.Quiet → E error bed')
    (hcrash : ¬ code.stop + pageBytes < Word.count → ∀ bed', C bed') : (refillCode region x.base).wp Q E C bed := by
  have hunlocked := hy.trans (Mapping.sameShape_painted y .readWrite)
  have hrestored := hunlocked.withBytes_bytes
  have hcopy := hwf.copy_back hs hcode hx hne hle hbytes hpages hunlocked fun p => Mapping.mem_pages_painted
  have hlost : ∀ {z : Mapping}, code.SameShape z → (∀ p ∈ z.pages, p = .readWrite) → (space.update z).Lost code :=
    fun hz hzpages => hwf.lost_update hcode hz hzpages
  rw [refillCode, hbase, hsize, Program.wp_bind]
  refine wp_protect_exchanged hwf hs hcode hy hspace ?_ ?_ hcrash
  · intro _ bed₁ h₁ hspace₁
    rw [← hspace₁] at hcopy
    rw [Program.wp_bind]
    refine wp_copy_done hcopy ?_ ?_
    · intro bed₂ h₂ hspace₂
      refine wp_protect_exchanged hwf hs hcode hrestored hspace₂ ?_ ?_ hcrash
      · intro _ bed₃ h₃ hspace₃
        rw [hunlocked.painted_withBytes_bytes] at hspace₃
        exact hdone bed₃ (h₁.trans (h₂.trans h₃)) hspace₃
      · intro code' bed₃ h₃ hq
        refine hfail _ bed₃ (h₁.trans (h₂.trans h₃.toFollows)) ⟨rfl, nofun⟩ ?_ fun hquiet => hq (hquiet.follows (h₁.trans h₂))
        rw [h₃.space, hspace₂]
        exact hlost hrestored fun p => Mapping.mem_pages_painted
    · intro code' bed₂ h₂ hq
      refine hfail _ bed₂ (h₁.trans h₂.toFollows) ⟨rfl, nofun⟩ ?_ fun hquiet => hq (hquiet.follows h₁)
      rw [h₂.space, hspace₁]
      exact hlost hunlocked fun p => Mapping.mem_pages_painted
  · intro code' bed₁ h₁ hq
    refine hfail _ bed₁ h₁.toFollows ⟨rfl, nofun⟩ ?_ hq
    rw [h₁.space, hspace]
    exact hlost hy hypages

/-- The new code region can be mapped and protected without leaving the addresses, in the place of the old one and wherever it is
diverted to. -/
structure FitsHole (bed : Testbed) (code : Mapping) : Prop where
  size_le : code.size ≤ Bytes.maxSize
  room : code.stop + pageBytes < Word.count
  diversion : ∀ base ∈ bed.machine.diversion, base + code.size < Word.count

theorem FitsHole.follows {bed' : Testbed} (h : bed.FitsHole code) (h' : bed.Follows bed') : bed'.FitsHole code := by
  refine ⟨h.size_le, h.room, fun base hbase => ?_⟩
  rcases h'.machine.diversion with hd | hd
  · exact h.diversion base (hd ▸ hbase)
  · rw [hd] at hbase
    cases hbase

/-- Mapping memory where the code was puts it there, unless it is diverted. -/
theorem wp_allocate_hole {step : Step} {Q : Address → Testbed → Prop} (hwf : space.WellFormed) (hs : space.Addressable)
    (hcode : code ∈ space) (hspace : bed.machine.space = space.remove code.base)
    (hdone : ∀ bed', bed.Follows bed' → bed'.machine.space = space.update (.fresh code.base code.size) → Q code.base bed')
    (hdiverted : ∀ base bed', bed.Follows bed' → base ≠ code.base → bed'.machine.space.Lost code →
      bed.machine.diversion ≠ none → Q base bed')
    (hfail : ∀ code' bed', bed.Still bed' → (bed.Quiet → bed.machine.diversion ≠ none) → E (.ofKernel step code') bed')
    (hcrash : ¬ bed.FitsHole code → ∀ bed', C bed') :
    ((request (.allocate (.fixed code.base) code.size)).during step).wp Q E C bed := by
  have hcodeWf := hwf.mappings code hcode
  have hhole := hwf.allocate_hole hs hcode
  have hplace : bed.machine.diversion = none → (bed.machine.divert (.fixed code.base)).1 = .fixed code.base := by
    intro hd
    simp only [Machine.divert, hd, Option.getD_none]
  have haligned : code.size % pageBytes = 0 := by
    rw [hcodeWf.size_eq]
    exact Nat.mul_mod_left _ _
  have hrounded : ∀ {size}, Space.roundUp code.size = some size → size = code.size := by
    intro size h
    rw [Space.roundUp_of_aligned haligned (Space.roundUp_eq_some_iff.1 h).1] at h
    exact (Option.some.inj h).symm
  refine wp_allocate ?_ ?_ ?_
  · intro size base space' hround halloc bed' h hspace'
    cases hrounded hround
    rw [hspace] at halloc
    obtain ⟨hbase, -, -, rfl⟩ := Space.allocate_eq_done_iff.1 halloc
    by_cases hactual : base = code.base
    · subst hactual
      rw [hwf.insert_remove hcode Mapping.base_fresh] at hspace'
      exact hdone bed' h hspace'
    · refine hdiverted base bed' h hactual ?_ fun hd => ?_
      · rw [hspace']
        refine (hwf.lost_remove hcode).insert ?_ fun p => Mapping.mem_pages_fresh
        rw [Mapping.size_fresh, hcodeWf.pages_fresh, hcodeWf.size_eq]
      · rw [hplace hd] at hbase
        exact hactual (Outcome.done.inj hbase).symm
  · intro code' bed' h hq
    refine hfail code' bed' h fun hquiet hd => ?_
    obtain ⟨size, hround, hfailed⟩ := hq hquiet
    cases hrounded hround
    rw [hspace, hplace hd, hhole] at hfailed
    split at hfailed
    · cases hfailed
    · cases hfailed
  · intro h
    refine hcrash fun hfits => ?_
    have hroom := hfits.room
    have hround := Space.roundUp_of_aligned haligned (Nat.lt_of_le_of_lt (Nat.add_le_add_right (Nat.le_add_left _ _) _) hroom)
    rcases h with h | ⟨size, hround', hcrashed⟩
    · rw [hround] at h
      cases h
    · cases hrounded hround'
      have hs' : bed.machine.space.Addressable := fun x hx => hs x (Space.mem_remove_iff.1 (hspace ▸ hx)).1
      refine Space.allocate_fixed_ne_crashed hs' ?_ hfits.size_le hcrashed
      cases hd : bed.machine.diversion with
      | none => exact hs code hcode
      | some base => exact hfits.diversion base hd

/-- Replacing the code region ends with the code in place and executable, with the old mapping untouched, or with the code
lost; which of the three, the error says. -/
theorem wp_replaceCode (hwf : bed.machine.space.WellFormed) (hs : bed.machine.space.Addressable)
    (hcode : code ∈ bed.machine.space) (hx : x ∈ bed.machine.space) (hne : x.base ≠ code.base)
    (hbase : region.base = code.base) (hsize : region.size = code.size) (hle : code.size ≤ x.size)
    (hbytes : x.bytesAt x.base code.size = code.bytes) (hpages : ∀ p ∈ x.pages, p = .readExecute)
    (hdone : ∀ bed', bed.Follows bed' → bed'.machine.space = bed.machine.space.update (code.painted .readExecute) → Q () bed')
    (hkept : ∀ code' bed', bed.Still bed' → ¬ bed.Quiet → E (.ofKernel .unmapCode code') bed')
    (hlost : ∀ error bed', bed.Follows bed' → error.LosesCode → bed'.machine.space.Lost code →
      (bed.Quiet → bed.machine.diversion ≠ none) → E error bed')
    (hcrash : ¬ bed.FitsHole code → ∀ bed', C bed') :
    (replaceCode region x.base).wp Q E C bed := by
  rw [replaceCode, hbase, hsize, Program.wp_bind]
  refine wp_deallocate_done (hwf.deallocate_eq_done hcode) (fun bed₁ h₁ hspace₁ => ?_) hkept
  rw [Program.wp_bind]
  refine wp_allocate_hole hwf hs hcode hspace₁ ?_ ?_ ?_ fun h => hcrash fun hfits => h (hfits.follows h₁)
  · intro bed₂ h₂ hspace₂
    rw [if_neg (by simp)]
    refine wp_refillCode hwf hs hcode hx hne hbase hsize hle hbytes hpages hspace₂ (hwf.mappings code hcode).sameShape_fresh
      (fun p => Mapping.mem_pages_fresh) (fun bed₃ h₃ => hdone bed₃ (h₁.trans (h₂.trans h₃)))
      (fun error bed₃ h₃ herror hlost' hq => ?_) fun htop => hcrash fun hfits => htop hfits.room
    refine hlost error bed₃ (h₁.trans (h₂.trans h₃)) herror hlost' fun hquiet => ?_
    exact absurd (hquiet.follows (h₁.trans h₂)) hq
  · intro base bed₂ h₂ hne' hlost' hd
    rw [if_pos hne']
    exact hlost _ bed₂ (h₁.trans h₂) ⟨rfl, nofun⟩ hlost' fun _ hnone => hd (h₁.undiverted hnone)
  · intro code' bed₂ h₂ hq
    refine hlost _ bed₂ (h₁.trans h₂.toFollows) ⟨rfl, nofun⟩ ?_ fun hquiet hnone => ?_
    · rw [h₂.space, hspace₁]
      exact hwf.lost_remove hcode
    · exact hq (hquiet.follows h₁) (h₁.undiverted hnone)

end Testbed

end LivePatch
