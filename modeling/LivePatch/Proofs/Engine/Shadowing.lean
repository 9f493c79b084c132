import LivePatch.Engine.Shadow
import LivePatch.Proofs.Engine.Location
import LivePatch.Proofs.Space.Copy

/-!
# Building shadow images

Building a shadow image touches nothing that is mapped. If it succeeds, one mapping was added behind all others, at a
distance, which holds the contents of the three regions and can be executed. If it fails, nothing was added or an incomplete
shadow image stays, and the error is not fatal. With room behind the mappings, and the three regions readable, it succeeds on
a quiet test bed.
-/

namespace LivePatch

open Program (request)

/-! ## Where shadow images go -/

/-- Behind all mappings there is room for a shadow image of so many bytes, and for a page more. -/
def Space.Room (space : Space) (n : Nat) : Prop := ∀ m ∈ space, m.stop + Space.allocationGap + n + pageBytes < Word.count

/-- The mapping is a complete shadow image of these mappings of the space. -/
structure Mapping.Mirrors (mapping : Mapping) (space : Space) (code constants data : Mapping) : Prop where
  wellFormed : mapping.WellFormed
  behind : ∀ m ∈ space, m.stop + Space.allocationGap ≤ mapping.base
  near : ∃ m ∈ space, mapping.base = m.stop + Space.allocationGap
  bytes : mapping.bytes = Mapping.contents [code, constants, data]
  pages : ∀ p ∈ mapping.pages, p = .readExecute
  room : mapping.stop + pageBytes < Word.count

/-- Regions that lie back to back from an offset on, and the mappings of a space that they are. -/
inductive PlacedIn (space : Space) : Nat → List PlacedRegion → List Mapping → Prop where
  | nil (o : Nat) : PlacedIn space o [] []
  | cons {o : Nat} {placed : PlacedRegion} {m : Mapping} {rest : List PlacedRegion} {ms : List Mapping} (hm : m ∈ space)
      (hbase : placed.region.base = m.base) (hsize : placed.region.size = m.size) (hoffset : placed.offset = o)
      (hrest : PlacedIn space (o + m.size) rest ms) : PlacedIn space o (placed :: rest) (m :: ms)

variable {space : Space} {code constants data : Mapping} {layout : Layout}

/-- The parts of a layout are placed as its mappings lie. -/
theorem Layout.Maps.placedIn (h : layout.Maps space code constants data) :
    PlacedIn space 0 [⟨.code, layout.code, 0⟩, ⟨.constants, layout.constants, code.size⟩,
      ⟨.data, layout.data, code.size + constants.size⟩] [code, constants, data] := by
  refine .cons h.code_mem h.code_base h.code_size rfl ?_
  refine .cons h.constants_mem h.constants_base h.constants_size (Nat.zero_add _).symm ?_
  exact .cons h.data_mem h.data_base h.data_size (by rw [Nat.zero_add]) (.nil _)

/-- A layout with room for its shadow image is no longer than a byte string can be. -/
theorem Layout.Maps.size_le (h : layout.Maps space code constants data)
    (hroom : space.Room (code.size + constants.size + data.size)) :
    code.size + constants.size + data.size ≤ Bytes.maxSize := by
  have h1 := h.code_stop
  have h2 := h.constants_stop
  have h3 := hroom data h.data_mem
  simp only [Mapping.stop, Word.count, Bytes.maxSize] at *
  lia

/-- The contents of three mappings are as long as they are together. -/
theorem Mapping.size_contents (code constants data : Mapping) :
    (Mapping.contents [code, constants, data]).size = code.size + constants.size + data.size := by
  simp only [Mapping.contents, Array.size_append, Array.size_empty, Mapping.size]
  lia

/-- The error of copying these mappings one after the other, because of the first one that cannot be read. -/
inductive Unread : List (Part × Mapping) → Error → Prop where
  | here {part : Part} {m : Mapping} {rest : List (Part × Mapping)} (h : ¬ m.Readable) :
      Unread ((part, m) :: rest) (.ofKernel part.copyStep .protectionFailure)
  | later {part : Part} {m : Mapping} {rest : List (Part × Mapping)} {error : Error} (h : m.Readable) (hrest : Unread rest error) :
      Unread ((part, m) :: rest) error

/-- There is such an error if one of the mappings cannot be read. -/
theorem Unread.exists_not_readable {mappings : List (Part × Mapping)} {error : Error} (h : Unread mappings error) :
    ∃ placed ∈ mappings, ¬ placed.2.Readable := by
  induction h with
  | here h => exact ⟨_, List.mem_cons_self, h⟩
  | later _ _ ih =>
    obtain ⟨placed, hmem, h⟩ := ih
    exact ⟨placed, List.mem_cons_of_mem _ hmem, h⟩

theorem Unread.unique {mappings : List (Part × Mapping)} {error error' : Error} (h : Unread mappings error)
    (h' : Unread mappings error') : error = error' := by
  induction h with
  | here hr =>
    cases h' with
    | here => rfl
    | later hr' => exact absurd hr' hr
  | later hr _ ih =>
    cases h' with
    | here hr' => exact absurd hr hr'
    | later _ hrest' => exact ih hrest'

/-- A copy step is not fatal. -/
theorem Part.isFatal_copyStep (part : Part) : part.copyStep.isFatal = false := by
  cases part <;> rfl

namespace Testbed

variable {bed : Testbed} {Q : Unit → Testbed → Prop} {E : Error → Testbed → Prop} {C : Testbed → Prop} {x : Mapping}
  {parts : List PlacedRegion} {ms : List Mapping} {o : Nat}

/-! ## Filling a shadow image -/

/-- Copying mappings that lie back to back puts their contents together. -/
theorem wp_copyParts (hparts : PlacedIn space o parts ms) (hspace : bed.machine.space = space ++ [x])
    (hwf : Space.WellFormed (space ++ [x])) (hs : Space.Addressable (space ++ [x])) (hpages : ∀ p ∈ x.pages, p = .readWrite)
    (hsize : o + (Mapping.contents ms).size ≤ x.size)
    (hdone : (∀ m ∈ ms, m.Readable) → ∀ bed', bed.Follows bed' →
      bed'.machine.space = space ++ [x.withBytes (x.base + o) (Mapping.contents ms)] → Q () bed')
    (hfail : ∀ error bed', bed.Follows bed' → (∃ x', x.SameShape x' ∧ bed'.machine.space = space ++ [x']) →
      error.isFatal = false → (bed.Quiet → Unread ((parts.map PlacedRegion.part).zip ms) error) → E error bed') :
    (copyParts x.base parts).wp Q E C bed := by
  induction hparts generalizing bed x with
  | nil o =>
    refine hdone (List.forall_mem_nil _) bed (Follows.refl bed) ?_
    rw [Mapping.contents, Mapping.withBytes_empty, hspace]
  | @cons o placed m rest ms hm hbase hmsize hoffset hrest ih =>
    have hx : x ∈ space ++ [x] := by simp
    have hmx : m ∈ space ++ [x] := List.mem_append_left _ hm
    have hcontents : (Mapping.contents (m :: ms)).size = m.size + (Mapping.contents ms).size := Array.size_append
    have hadd : Word.add x.base placed.offset = some (x.base + o) := by
      have := hs x hx
      simp only [Mapping.stop] at this
      exact Word.add_eq_some_iff.2 ⟨by rw [hoffset], by lia⟩
    have hfits : x.base + o + m.size ≤ x.stop := by
      simp only [Mapping.stop]
      lia
    have hshape : x.SameShape (x.withBytes (x.base + o) m.bytes) :=
      Mapping.sameShape_withBytes (Nat.le_add_right _ _) hfits
    have hcopied : Space.update (space ++ [x]) (x.withBytes (x.base + o) m.bytes) =
        space ++ [x.withBytes (x.base + o) m.bytes] := Space.update_append_singleton hwf.base_ne_of_append rfl
    rw [copyParts, hadd, Program.require_some, Program.done_bind, Program.wp_bind, hbase, hmsize]
    rw [← hspace] at hwf hs hx hmx hcopied
    refine wp_copy_whole hwf hs hmx hx (Nat.le_add_right _ _) hfits hpages ?_ ?_
    · intro hreadable bed₁ h₁ hspace₁
      have hwf₁ := hwf.update hx hshape
      have hs₁ := hs.update hx hshape
      rw [hcopied] at hwf₁ hs₁ hspace₁
      refine ih (x := x.withBytes (x.base + o) m.bytes) hspace₁ hwf₁ hs₁ hpages ?_ ?_ ?_
      · rw [hshape.size]
        lia
      · intro hrest bed' h hbed'
        refine hdone (List.forall_mem_cons.2 ⟨hreadable, hrest⟩) bed' (h₁.trans h) ?_
        have htotal : x.base + o + (m.bytes ++ Mapping.contents ms).size ≤ x.stop := by
          rw [Mapping.contents] at hsize
          simp only [Mapping.stop]
          lia
        have hnext : x.base + (o + m.size) = x.base + o + m.bytes.size := (Nat.add_assoc _ _ _).symm
        rw [hbed', Mapping.contents, ← Mapping.withBytes_append (Nat.le_add_right _ _) htotal, ← hnext]
        rfl
      · intro error bed' h hbed' herror hq
        obtain ⟨x', hx', hspace'⟩ := hbed'
        refine hfail error bed' (h₁.trans h) ⟨x', hshape.trans hx', hspace'⟩ herror fun hquiet => ?_
        exact .later hreadable (hq (hquiet.follows h₁))
    · intro code bed₁ h₁ hq
      refine hfail _ bed₁ h₁.toFollows ⟨x, .refl x, h₁.space.trans hspace⟩ placed.part.isFatal_copyStep fun hquiet => ?_
      obtain ⟨hr, rfl⟩ := hq hquiet
      exact .here hr

/-- Filling a shadow image that holds nothing else makes it a copy that can be executed. -/
theorem wp_fillShadow (hlayout : layout.parts = some parts) (hparts : PlacedIn space 0 parts ms)
    (hspace : bed.machine.space = space ++ [x]) (hwf : Space.WellFormed (space ++ [x]))
    (hs : Space.Addressable (space ++ [x])) (hsize : (Mapping.contents ms).size = x.size)
    (hdone : (∀ m ∈ ms, m.Readable) → ∀ x' bed', bed.Follows bed' → bed'.machine.space = space ++ [x'] → x.SameShape x' →
      x.stop + pageBytes < Word.count → x'.bytes = Mapping.contents ms → (∀ p ∈ x'.pages, p = .readExecute) → Q () bed')
    (hfail : ∀ error bed', bed.Follows bed' → (∃ x', x.SameShape x' ∧ bed'.machine.space = space ++ [x']) →
      error.isFatal = false → (bed.Quiet → Unread ((parts.map PlacedRegion.part).zip ms) error) → E error bed')
    (hcrash : ¬ x.stop + pageBytes < Word.count → ∀ bed', C bed') : (fillShadow layout x.base x.size).wp Q E C bed := by
  have hx : x ∈ space ++ [x] := by simp
  have hexchange : ∀ y, x.SameShape y → Space.update (space ++ [x]) y = space ++ [y] :=
    fun y hy => Space.update_append_singleton hwf.base_ne_of_append hy.base
  have hunlocked := Mapping.sameShape_painted x .readWrite
  rw [fillShadow, Program.wp_bind]
  refine wp_protect_whole (hspace ▸ hwf) (hspace ▸ hs) (hspace ▸ hx) ?_ ?_ hcrash
  · intro htop bed₁ h₁ hspace₁
    rw [hspace, hexchange _ hunlocked] at hspace₁
    have hwf₁ := hwf.update hx hunlocked
    have hs₁ := hs.update hx hunlocked
    rw [hexchange _ hunlocked] at hwf₁ hs₁
    rw [hlayout, Program.require_some, Program.done_bind, Program.wp_bind]
    refine wp_copyParts (x := x.painted .readWrite) hparts hspace₁ hwf₁ hs₁ (fun p => Mapping.mem_pages_painted)
      (by rw [hunlocked.size]; lia) (fun hreadable bed₂ h₂ hspace₂ => ?_) fun error bed' h hbed' herror hq => ?_
    · have hfits : (x.painted .readWrite).base + 0 + (Mapping.contents ms).size ≤ (x.painted .readWrite).stop := by
        rw [hsize, Nat.add_zero, hunlocked.stop]
        exact Nat.le_refl _
      have hfilled := hunlocked.trans (Mapping.sameShape_withBytes (Nat.le_add_right _ 0) hfits)
      have hbytes : ((x.painted .readWrite).withBytes ((x.painted .readWrite).base + 0) (Mapping.contents ms)).bytes =
          Mapping.contents ms := by
        simp only [Mapping.withBytes, Nat.add_zero, Nat.sub_self]
        exact Bytes.splice_all hsize
      generalize (x.painted .readWrite).withBytes ((x.painted .readWrite).base + 0) (Mapping.contents ms) = y at *
      have hwf₂ := hwf.update hx hfilled
      have hs₂ := hs.update hx hfilled
      have hy := Space.mem_update_self hx hfilled.base
      have hsealed := Mapping.sameShape_painted y .readExecute
      rw [hexchange y hfilled, ← hspace₂] at hwf₂ hs₂ hy
      rw [← hfilled.base, ← hfilled.size]
      refine wp_protect_whole hwf₂ hs₂ hy ?_ ?_ fun h => hcrash (hfilled.stop ▸ h)
      · intro _ bed₃ h₃ hspace₃
        rw [hspace₂, ← hexchange y hfilled, Space.update_update hsealed.base, hexchange _ (hfilled.trans hsealed)] at hspace₃
        exact hdone hreadable (y.painted .readExecute) bed₃ (h₁.trans (h₂.trans h₃)) hspace₃ (hfilled.trans hsealed) htop hbytes
          fun p => Mapping.mem_pages_painted
      · intro code bed₃ h₃ hq
        refine hfail _ bed₃ (h₁.trans (h₂.trans h₃.toFollows)) ⟨y, hfilled, h₃.space.trans hspace₂⟩ rfl fun hquiet => ?_
        exact absurd (hquiet.follows (h₁.trans h₂)) hq
    · obtain ⟨x', hx', hspace'⟩ := hbed'
      exact hfail error bed' (h₁.trans h) ⟨x', hunlocked.trans hx', hspace'⟩ herror fun hquiet => hq (hquiet.follows h₁)
  · intro code bed₁ h₁ hq
    exact hfail _ bed₁ h₁.toFollows ⟨x, .refl x, h₁.space.trans hspace⟩ rfl fun hquiet => absurd hquiet hq

/-- Discarding a shadow image unmaps it, or leaves it where it is. -/
theorem wp_discardShadow {E : Error → Testbed → Prop} (hspace : bed.machine.space = space ++ [x])
    (hwf : Space.WellFormed (space ++ [x]))
    (hdone : ∀ bed', bed.Follows bed' → (bed'.machine.space = space ∨ bed'.machine.space = space ++ [x]) → Q () bed') :
    (discardShadow x.base x.size).wp Q E C bed := by
  have hremoved : bed.machine.space.deallocate x.base x.size = .done space := by
    rw [hspace, hwf.deallocate_eq_done (by simp), Space.remove_append_singleton hwf.base_ne_of_append]
  rw [discardShadow, Program.wp_bind]
  refine wp_alter_done (.deallocate x.base x.size) (·.deallocate x.base x.size) (fun _ _ _ => Iff.rfl) hremoved ?_ ?_
  · intro bed' hbed' hspace'
    exact hdone bed' hbed' (Or.inl hspace')
  · intro code bed' hbed' _
    exact hdone bed' hbed'.toFollows (Or.inr (hbed'.space.trans hspace))

/-! ## Building a shadow image -/

/-- Mapping memory anywhere adds an empty mapping behind all others, at a distance. -/
theorem wp_allocate_behind {n : Nat} {step : Step} {Q : Address → Testbed → Prop} (hwf : bed.machine.space.WellFormed)
    (hne : bed.machine.space ≠ []) (haligned : n % pageBytes = 0) (hpos : 0 < n)
    (hmax : bed.machine.space.Room n → n ≤ Bytes.maxSize)
    (hdone : ∀ x bed', bed.Follows bed' → bed'.machine.space = bed.machine.space ++ [x] → x.WellFormed → x.size = n →
      x.stop < Word.count → (∀ m ∈ bed.machine.space, m.stop + Space.allocationGap ≤ x.base) →
      (∃ m ∈ bed.machine.space, x.base = m.stop + Space.allocationGap) → Q x.base bed')
    (hfail : ∀ code bed', bed.Still bed' → ¬ bed.Quiet → E (.ofKernel step code) bed')
    (hcrash : ¬ bed.machine.space.Room n → ∀ bed', C bed') :
    ((request (.allocate .anywhere n)).during step).wp Q E C bed := by
  have hdivert : (bed.machine.divert .anywhere).1 = .anywhere := rfl
  have hallocate : bed.machine.space.Room n → Space.roundUp n = some n ∧
      ∃ base space, bed.machine.space.allocate .anywhere n = .done (base, space) := by
    intro hroom
    obtain ⟨m, hm⟩ := List.exists_mem_of_ne_nil _ hne
    have htop := hroom m hm
    refine ⟨Space.roundUp_of_aligned haligned (by lia), Space.exists_allocate_anywhere hne (hmax hroom) fun m hm => ?_⟩
    have := hroom m hm
    lia
  refine wp_allocate ?_ ?_ ?_
  · intro size base space' hround halloc bed' h hspace
    rw [Space.roundUp_of_aligned haligned (Space.roundUp_eq_some_iff.1 hround).1] at hround
    cases hround
    obtain ⟨hbase, hstop, -, hnear, hbehind, rfl⟩ := hwf.allocate_anywhere hne halloc
    refine hdone (.fresh base n) bed' h hspace (Mapping.wellFormed_fresh hbase haligned hpos) Mapping.size_fresh ?_ hbehind hnear
    rw [Mapping.stop_fresh]
    exact hstop
  · intro code bed' h hq
    refine hfail code bed' h fun hquiet => ?_
    obtain ⟨size, -, hfailed⟩ := hq hquiet
    exact Space.allocate_anywhere_ne_failed hfailed
  · intro h
    refine hcrash fun hroom => ?_
    obtain ⟨hround, base, space', halloc⟩ := hallocate hroom
    rcases h with h | ⟨size, hsize, hcrashed⟩
    · rw [hround] at h
      cases h
    · rw [hround] at hsize
      cases hsize
      rw [hdivert, halloc] at hcrashed
      cases hcrashed

/-- Building a shadow image adds one behind the mappings, or fails without touching what is mapped. -/
theorem wp_buildShadow {Q : Shadow → Testbed → Prop} (hwf : bed.machine.space.WellFormed)
    (hs : bed.machine.space.Addressable) (hmaps : layout.Maps bed.machine.space code constants data)
    (hdone : ∀ x bed', bed.Follows bed' → bed'.machine.space = bed.machine.space ++ [x] →
      x.Mirrors bed.machine.space code constants data → code.Readable ∧ constants.Readable ∧ data.Readable →
      Q ⟨x.base, x.size, layout.code⟩ bed')
    (hfail : ∀ error bed', bed.Follows bed' →
      (bed'.machine.space = bed.machine.space ∨ ∃ x, bed'.machine.space = bed.machine.space ++ [x]) →
      error.isFatal = false → (bed.Quiet → Unread [(.code, code), (.constants, constants), (.data, data)] error) →
      E error bed')
    (hcrash : ¬ bed.machine.space.Room (code.size + constants.size + data.size) → ∀ bed', C bed') :
    (buildShadow layout).wp Q E C bed := by
  have hne : bed.machine.space ≠ [] := List.ne_nil_of_mem hmaps.code_mem
  have hpos : 0 < code.size + constants.size + data.size := by
    have := (hwf.mappings code hmaps.code_mem).size_pos
    lia
  have haligned : (code.size + constants.size + data.size) % pageBytes = 0 := by
    have h1 := (hwf.mappings code hmaps.code_mem).size_eq
    have h2 := (hwf.mappings constants hmaps.constants_mem).size_eq
    have h3 := (hwf.mappings data hmaps.data_mem).size_eq
    simp only [pageBytes] at *
    lia
  have hcontents := Mapping.size_contents code constants data
  have hlayout := hmaps.parts_eq
  have hparts := hmaps.placedIn
  rw [buildShadow, hmaps.size_eq, Program.require_some, Program.done_bind, Program.wp_bind]
  refine wp_allocate_behind hwf hne haligned hpos hmaps.size_le ?_ ?_ hcrash
  · intro x bed₁ h₁ hspace₁ hfresh hsize hstop hbehind hnear
    rw [← hsize] at hcontents hcrash ⊢
    have hsnoc := hwf.snoc hfresh fun m hm => Nat.le_trans (Nat.le_add_right _ _) (hbehind m hm)
    rw [Program.wp_bind, Program.wp_attempt]
    refine wp_fillShadow hlayout hparts hspace₁ hsnoc (hs.snoc hstop) hcontents ?_ ?_ fun hfull => hcrash ?_
    · intro hreadable x' bed₂ h₂ hspace₂ hshape hroom hbytes hpages
      have hmirrors : x'.Mirrors bed.machine.space code constants data :=
        ⟨hshape.wellFormed hfresh, hshape.base ▸ hbehind, hshape.base ▸ hnear, hbytes, hpages, hshape.stop ▸ hroom⟩
      have := hdone x' bed₂ (h₁.trans h₂) hspace₂ hmirrors (by simpa using hreadable)
      rw [hshape.base, hshape.size] at this
      have hlimit : Word.add x.base x.size = some x.stop := Mapping.limit_of_lt hstop
      simp only [hlimit, Program.require_some, Program.done_bind, Program.wp_bind, Program.wp_note]
      exact this
    · intro error bed₂ h₂ hspace₂ herror hq
      obtain ⟨x', hshape, hspace₂⟩ := hspace₂
      have hwf' := hsnoc.update (by simp) hshape
      rw [Space.update_append_singleton hsnoc.base_ne_of_append hshape.base] at hwf'
      simp only [Program.wp_bind]
      rw [← hshape.base, ← hshape.size]
      refine wp_discardShadow hspace₂ hwf' fun bed₃ h₃ hspace₃ => ?_
      refine hfail error bed₃ (h₁.trans (h₂.trans h₃)) (hspace₃.imp_right fun h => ⟨x', h⟩) herror fun hquiet => ?_
      exact hq (hquiet.follows h₁)
    · obtain ⟨m, hm, hnear⟩ := hnear
      intro hroom
      have := hroom m hm
      rw [← hnear] at this
      exact hfull this
  · intro code' bed₁ h₁ hq
    exact hfail _ bed₁ h₁.toFollows (Or.inl h₁.space) rfl fun hquiet => absurd hquiet hq

end Testbed

end LivePatch
