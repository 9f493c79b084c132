import LivePatch.Engine.Image
import LivePatch.Proofs.Engine.Recreation
import LivePatch.Proofs.Engine.Requests
import LivePatch.Proofs.Space.Contents

/-!
# Preparing a process

Preparing locates the image, builds a shadow image behind all mappings, and recreates the code region. It ends in one of four
ways: with a prepared image; with an error that is not fatal and every mapping kept, though the code may have been recreated;
with a violated layout and nothing touched; or with a fatal error and the code lost. Unhindered, it ends in the first one.
-/

namespace LivePatch

open Program (request)

/-- The mapping holds the code that the first query from `base` reports. -/
def Space.CodeAt (space : Space) (base : Address) (code : Mapping) : Prop :=
  code ∈ space ∧ ∃ region, space.region base = .done region ∧ region.base = code.base

/-- Nothing keeps the preparation from a base from succeeding: the code is that of another image, threads that refuse are
tolerated, no failure and no diversion is left, and the layout is there and can be read, with room for its shadow image. -/
structure Testbed.Unhindered (bed : Testbed) (host : Host) (base : Address) (config : Config) : Prop where
  other : host = .other
  tolerant : config.strictThreads = false
  quiet : bed.Quiet
  undiverted : bed.machine.diversion = none
  located : ∃ layout : Layout, layout.LocatedIn bed.machine.space base
  ready : ∀ (layout : Layout) code constants data, layout.LocatedIn bed.machine.space base →
    layout.Maps bed.machine.space code constants data → (code.Readable ∧ constants.Readable ∧ data.Readable) ∧
      bed.machine.space.Room (code.size + constants.size + data.size)

/-- The image that is found from the base leaves room for its shadow image, and a diverted allocation room for its code. -/
def Testbed.Fits (bed : Testbed) (base : Address) : Prop :=
  ∀ code constants data, bed.machine.space.Adjoins base code constants data →
    bed.machine.space.Room (code.size + constants.size + data.size) ∧
      ∀ diverted ∈ bed.machine.diversion, diverted + code.size < Word.count

/-- What keeps the preparation from a base from succeeding if nothing was ordered to go wrong, as the error that it is: the three
regions are not found; one of them cannot be read; or, in strict mode, a thread refuses to be suspended. -/
inductive Testbed.Obstructs (bed : Testbed) (base : Address) (config : Config) : Error → Prop where
  | misplaced {error : Error} (h : bed.machine.space.Misplaces base error) : Obstructs bed base config error
  | unread {code constants data : Mapping} {error : Error} (hadjoins : bed.machine.space.Adjoins base code constants data)
      (h : Unread [(.code, code), (.constants, constants), (.data, data)] error) : Obstructs bed base config error
  | refused {code constants data : Mapping} (hadjoins : bed.machine.space.Adjoins base code constants data)
      (hreadable : code.Readable ∧ constants.Readable ∧ data.Readable) (hstrict : config.strictThreads = true)
      (hrefuses : bed.Refuses) : Obstructs bed base config bed.refusal

/-- A preparation from the base can succeed: the three regions are found and can be read, and strict mode, if it is on, does not
call it off. -/
structure Testbed.Feasible (bed : Testbed) (base : Address) (config : Config) : Prop where
  readable : ∃ code constants data, bed.machine.space.Adjoins base code constants data ∧
    code.Readable ∧ constants.Readable ∧ data.Readable
  tolerated : ¬ (config.strictThreads = true ∧ bed.Refuses)

section

variable {bed : Testbed} {base : Address} {config : Config} {error error' : Error}

/-- Nothing obstructs a feasible preparation. -/
theorem Testbed.Feasible.not_obstructs (h : bed.Feasible base config) (hwf : bed.machine.space.WellFormed) :
    ¬ bed.Obstructs base config error := by
  obtain ⟨code, constants, data, hadjoins, hr₁, hr₂, hr₃⟩ := h.readable
  intro hobstructs
  cases hobstructs with
  | misplaced hmisplaced => exact hmisplaced.not_adjoins hwf hadjoins
  | unread hadjoins' hunread =>
    obtain ⟨rfl, rfl, rfl⟩ := hadjoins.unique hwf hadjoins'
    obtain ⟨placed, hmem, hr⟩ := hunread.exists_not_readable
    simp only [List.mem_cons, List.not_mem_nil, or_false] at hmem
    rcases hmem with rfl | rfl | rfl
    · exact hr hr₁
    · exact hr hr₂
    · exact hr hr₃
  | refused _ _ hstrict hrefuses => exact h.tolerated ⟨hstrict, hrefuses⟩

/-- There is one obstacle, the first one. -/
theorem Testbed.Obstructs.unique (h : bed.Obstructs base config error) (hwf : bed.machine.space.WellFormed)
    (h' : bed.Obstructs base config error') : error = error' := by
  have hunread : ∀ {code constants data code' constants' data' : Mapping} {error : Error},
      bed.machine.space.Adjoins base code constants data → code.Readable ∧ constants.Readable ∧ data.Readable →
      bed.machine.space.Adjoins base code' constants' data' →
      ¬ Unread [(.code, code'), (.constants, constants'), (.data, data')] error := by
    intro code constants data code' constants' data' error hadjoins hreadable hadjoins' hunread
    have hfeasible : Testbed.Feasible bed base { strictThreads := false } :=
      ⟨⟨code, constants, data, hadjoins, hreadable⟩, fun h => nomatch h.1⟩
    exact hfeasible.not_obstructs hwf (.unread hadjoins' hunread)
  cases h with
  | misplaced h =>
    cases h' with
    | misplaced h' => exact h.unique hwf h'
    | unread hadjoins' | refused hadjoins' => exact absurd hadjoins' (h.not_adjoins hwf)
  | unread hadjoins h =>
    cases h' with
    | misplaced h' => exact absurd hadjoins (h'.not_adjoins hwf)
    | unread hadjoins' h' =>
      obtain ⟨rfl, rfl, rfl⟩ := hadjoins.unique hwf hadjoins'
      exact h.unique h'
    | refused hadjoins' hreadable' => exact absurd h (hunread hadjoins' hreadable' hadjoins)
  | refused hadjoins hreadable =>
    cases h' with
    | misplaced h' => exact absurd hadjoins (h'.not_adjoins hwf)
    | unread hadjoins' h' => exact absurd h' (hunread hadjoins hreadable hadjoins')
    | refused => rfl

end

/-- An unhindered preparation is feasible. -/
theorem Testbed.Unhindered.feasible {bed : Testbed} {host : Host} {base : Address} {config : Config}
    (h : bed.Unhindered host base config) (hwf : bed.machine.space.WellFormed) (hs : bed.machine.space.Addressable) :
    bed.Feasible base config := by
  obtain ⟨layout, hl⟩ := h.located
  obtain ⟨code, constants, data, hmaps⟩ := hl.exists_maps
  have hready := (h.ready layout code constants data hl hmaps).1
  refine ⟨⟨code, constants, data, hwf.adjoins_of_locatedIn hs hl hmaps, hready⟩, ?_⟩
  rintro ⟨hstrict, -⟩
  exact nomatch hstrict.symm.trans h.tolerant

theorem Testbed.Unhindered.fits {bed : Testbed} {host : Host} {base : Address} {config : Config}
    (h : bed.Unhindered host base config) (hwf : bed.machine.space.WellFormed) (hs : bed.machine.space.Addressable) :
    bed.Fits base := by
  intro code constants data hadjoins
  obtain ⟨layout, hl, hmaps⟩ := hwf.exists_locatedIn hs hadjoins
  refine ⟨(h.ready layout code constants data hl hmaps).2, fun diverted hdiverted => ?_⟩
  rw [h.undiverted] at hdiverted
  cases hdiverted

/-- An error with which a routine ends before its change is not fatal. -/
theorem Error.BeforeChange.isFatal_eq {calledOff : Prop} {error : Error} (h : error.BeforeChange calledOff) :
    error.isFatal = false := by
  unfold Error.BeforeChange at h
  split at h
  · rfl
  · rfl
  · rfl
  · rfl
  · exact h.elim

/-- The shadow image of three mappings is as long as the first one, or longer. -/
theorem Mapping.Mirrors.code_size_le {x code constants data : Mapping} {space : Space}
    (h : x.Mirrors space code constants data) : code.size ≤ x.size := by
  rw [Mapping.size, Mapping.size, h.bytes, Mapping.contents, Array.size_append]
  exact Nat.le_add_right _ _

/-- The shadow image of three mappings starts with the bytes of the first one. -/
theorem Mapping.Mirrors.bytesAt_base {x code constants data : Mapping} {space : Space}
    (h : x.Mirrors space code constants data) : x.bytesAt x.base code.size = code.bytes := by
  rw [Mapping.bytesAt, Nat.sub_self, Nat.zero_add, h.bytes, Mapping.contents, Mapping.size, Array.extract_append_left,
    Array.extract_size]

/-- A space with a shadow image behind it is well-formed and addressable. -/
theorem Mapping.Mirrors.wellFormed_append {x code constants data : Mapping} {space : Space}
    (h : x.Mirrors space code constants data) (hwf : space.WellFormed) : Space.WellFormed (space ++ [x]) :=
  hwf.snoc h.wellFormed fun m hm => Nat.le_trans (Nat.le_add_right _ _) (h.behind m hm)

theorem Mapping.Mirrors.addressable_append {x code constants data : Mapping} {space : Space}
    (h : x.Mirrors space code constants data) (hs : space.Addressable) : Space.Addressable (space ++ [x]) :=
  hs.snoc (Nat.lt_of_le_of_lt (Nat.le_add_right _ _) h.room)

/-- Recreating the code in a space with a shadow image. -/
theorem Mapping.Mirrors.update_append {x code constants data m : Mapping} {space : Space}
    (h : x.Mirrors space code constants data) (hwf : space.WellFormed) (hcode : code ∈ space) (hm : m.base = code.base) :
    Space.update (space ++ [x]) m = space.update m ++ [x] :=
  Space.update_append_of_ne fun hb => (h.wellFormed_append hwf).base_ne_of_append code hcode (hb.trans hm).symm

/-- After preparing, the code region holds the bytes that it held before. -/
theorem Layout.Maps.holds_prepared {layout : Layout} {space : Space} {code constants data x : Mapping}
    (h : layout.Maps space code constants data) (hwf : space.WellFormed) (hs : space.Addressable)
    (hx : x.Mirrors space code constants data) :
    Space.Holds (space.update (code.painted .readExecute) ++ [x]) layout.code code.bytes := by
  have hshape := Mapping.sameShape_painted code .readExecute
  rw [← hx.update_append (m := code.painted .readExecute) hwf h.code_mem rfl]
  refine ⟨(hx.wellFormed_append hwf).update (List.mem_append_left _ h.code_mem) hshape, code.painted .readExecute, ?_, ?_⟩
  · exact Space.mem_update_self (List.mem_append_left _ h.code_mem) rfl
  · exact ⟨h.code_base.symm, h.code_size.symm, rfl, hs code h.code_mem⟩

namespace Testbed

variable {bed : Testbed} {E : Error → Testbed → Prop} {C : Testbed → Prop} {host : Host} {strict : Bool}
  {code constants data x : Mapping} {layout : Layout}

/-- A routine can be entered, or it lies outside of the code, if the code and the copy of it are ranges of addresses. -/
theorem entry_ne_crashed {routine : Routine} {shadow : Shadow} {limit : Address} (hcode : shadow.code.limit = some limit)
    (hshadow : shadow.base + shadow.code.size < Word.count) : routine.entry host shadow ≠ .crashed := by
  unfold Routine.entry
  split
  · nofun
  · rename_i address _
    have hcopy : shadow.toCopy address ≠ none := by
      obtain ⟨rfl, -⟩ := Word.add_eq_some_iff.1 hcode
      unfold Shadow.toCopy Region.contains
      rw [hcode]
      simp only [Option.map_some, Option.bind_eq_bind, Option.bind_some]
      split
      · rename_i hin
        have hin := of_decide_eq_true hin
        have hadd := Word.add_eq_some_iff.2 ⟨rfl, Nat.lt_of_le_of_lt (by lia : address - shadow.code.base + shadow.base ≤ _) hshadow⟩
        rw [hadd]
        nofun
      · nofun
    split
    · contradiction
    · nofun
    · nofun

/-- Recreating the code in a bracket. -/
theorem wp_recreateCode {shadow : Shadow} {Q : Unit → Testbed → Prop} (hwf : bed.machine.space.WellFormed)
    (hs : bed.machine.space.Addressable) (hcode : code ∈ bed.machine.space) (hx : x ∈ bed.machine.space)
    (hne : x.base ≠ code.base) (hbase : shadow.code.base = code.base) (hsize : shadow.code.size = code.size)
    (hshadow : shadow.base = x.base) (hle : code.size ≤ x.size) (hbytes : x.bytesAt x.base code.size = code.bytes)
    (hpages : ∀ p ∈ x.pages, p = .readExecute)
    (hdone : ¬ (strict = true ∧ bed.Refuses) →
      ∀ bed', bed.Follows bed' → bed'.machine.space = bed.machine.space.update (code.painted .readExecute) → Q () bed')
    (hkept : ∀ error bed', bed.Follows bed' → error.isFatal = false → (bed'.machine.space = bed.machine.space ∨
      bed'.machine.space = bed.machine.space.update (code.painted .readExecute)) →
      (host = .other → bed.Quiet → (strict = true ∧ bed.Refuses) ∧ error = bed.refusal) → E error bed')
    (hlost : ∀ error bed', bed.Follows bed' → error.LosesCode → bed'.machine.space.Lost code →
      (bed.Quiet → bed.machine.diversion ≠ none) → E error bed')
    (hcrash : ¬ bed.FitsHole code → ∀ bed', C bed') :
    (recreateCode host shadow strict).wp Q E C bed := by
  have hlimit := (Region.limit_eq_some_iff hbase hsize).2 ⟨rfl, hs code hcode⟩
  have hcopied : shadow.base + shadow.code.size < Word.count := by
    have hstop := hs x hx
    simp only [Mapping.stop] at hstop
    lia
  rw [recreateCode, hshadow]
  refine wp_runRoutine ?_ (fun h => absurd h (entry_ne_crashed hlimit hcopied)) ?_
  · intro error bed' h herror hq
    exact hkept error bed' h.toFollows herror.isFatal_eq (Or.inl h.space) hq
  · intro hgo bed₁ h₁
    have hd := h₁.undiverted
    rw [← h₁.space] at hwf hs hcode hx
    refine wp_replaceCode hwf hs hcode hx hne hbase hsize hle hbytes hpages (fun bed₂ h₂ hspace₂ bed₃ h₃ => ⟨?_, ?_⟩)
      ?_ ?_ fun h => hcrash fun hfits => h (hfits.follows h₁.toFollows)
    · refine hdone hgo bed₃ (h₁.toFollows.trans (h₂.trans h₃.toFollows)) ?_
      rw [h₃.space, hspace₂, h₁.space]
    · intro code' hq
      refine hkept _ bed₃ (h₁.toFollows.trans (h₂.trans h₃.toFollows)) rfl (Or.inr ?_) fun _ hquiet => ?_
      · rw [h₃.space, hspace₂, h₁.space]
      · exact absurd (hquiet.follows (h₁.toFollows.trans h₂)) hq
    · intro code' bed₂ h₂ hq bed₃ h₃
      have h := h₁.trans (h₂.trans h₃)
      exact hkept _ bed₃ h.toFollows rfl (Or.inl h.space) fun _ hquiet => absurd (hquiet.follows h₁.toFollows) hq
    · intro error bed₂ h₂ herror hlost' hq bed₃ h₃
      refine hlost error bed₃ (h₁.toFollows.trans (h₂.trans h₃.toFollows)) herror (h₃.space ▸ hlost') fun hquiet hdiv => ?_
      exact hq (hquiet.follows h₁.toFollows) (hd hdiv)

theorem wp_checkInside {routine : Routine} {region : Region} {limit : Address} {Q : Unit → Testbed → Prop}
    (hlimit : region.limit = some limit) (hdone : Q () bed)
    (hfail : ∀ address, host ≠ .other → E (.routineOutsideImage address) bed) :
    (Program.ofOutcome (routine.checkInside host region)).wp Q E C bed := by
  unfold Routine.checkInside
  split
  · exact hdone
  · rename_i haddress
    have hhost : host ≠ .other := by
      rintro rfl
      cases haddress
    rw [Region.contains, hlimit, Option.map_some]
    dsimp only
    split
    · exact hdone
    · exact hfail _ hhost

/-- The ways in which finding the image, copying it and recreating its code can end, each with what it takes on a quiet test bed. -/
theorem wp_establish_obstructed {imageBase : Address} {pageSize : Nat} {config : Config} {Q : Image → Testbed → Prop}
    (hwf : bed.machine.space.WellFormed) (hs : bed.machine.space.Addressable)
    (hdone : ∀ (layout : Layout) code constants data x bed', bed.Follows bed' →
      layout.LocatedIn bed.machine.space (config.imageBase.getD imageBase) →
      layout.Maps bed.machine.space code constants data → x.Mirrors bed.machine.space code constants data →
      bed'.machine.space = bed.machine.space.update (code.painted .readExecute) ++ [x] →
      code.Readable ∧ constants.Readable ∧ data.Readable → ¬ (config.strictThreads = true ∧ bed.Refuses) →
      Q { config, code := layout.code, shadow := ⟨x.base, x.size, layout.code⟩, pageSize } bed')
    (hkept : ∀ error bed', bed.Follows bed' → error.isFatal = false →
      (bed'.machine.space = bed.machine.space ∨ (∃ x, bed'.machine.space = bed.machine.space ++ [x]) ∨
        ∃ code x, bed.machine.space.CodeAt (config.imageBase.getD imageBase) code ∧
          bed'.machine.space = bed.machine.space.update (code.painted .readExecute) ++ [x]) →
      (host = .other → bed.Quiet → bed.Obstructs (config.imageBase.getD imageBase) config error) → E error bed')
    (hviolated : ∀ part expected found bed', bed.Still bed' →
      (bed.Quiet → bed.Obstructs (config.imageBase.getD imageBase) config (.layoutViolated part expected found)) →
      E (.layoutViolated part expected found) bed')
    (hlost : ∀ error code bed', bed.Follows bed' → error.LosesCode →
      bed.machine.space.CodeAt (config.imageBase.getD imageBase) code → bed'.machine.space.Lost code →
      (bed.Quiet → bed.machine.diversion ≠ none) → E error bed')
    (hcrash : ¬ bed.Fits (config.imageBase.getD imageBase) → ∀ bed', C bed') :
    (Image.establish host imageBase pageSize config).wp Q E C bed := by
  rw [Image.establish, Program.wp_bind]
  generalize config.imageBase.getD imageBase = base at *
  -- nothing before the bracket changes which threads it will ask
  have hothers : ∀ request (bed' : Testbed), Request.OfSurvey request → bed'.others = bed.others →
      (Kernel.serve request bed').2.others = bed.others :=
    fun request bed' hrequest h => (others_serve (by rintro rfl; exact hrequest) bed').trans h
  refine asks_locate.wp hothers rfl (wp_locate hwf hs ?_ ?_)
  · intro layout code constants data bed₁ hl hmaps hadjoins h₁ hothers₁
    have hspace₁ := h₁.space
    rw [Program.wp_bind]
    refine wp_checkInside hl.constants_base ?_ fun a h => hkept _ bed₁ h₁.toFollows rfl (Or.inl hspace₁) fun hhost => absurd hhost h
    rw [Program.wp_bind]
    refine wp_checkInside hl.constants_base ?_ fun a h => hkept _ bed₁ h₁.toFollows rfl (Or.inl hspace₁) fun hhost => absurd hhost h
    rw [Program.wp_bind]
    refine asks_buildShadow.wp hothers hothers₁ (wp_buildShadow (hspace₁ ▸ hwf) (hspace₁ ▸ hs) (hspace₁ ▸ hmaps) ?_ ?_
      fun h => hcrash fun hfits => h (hspace₁ ▸ (hfits code constants data hadjoins).1))
    · intro x bed₂ h₂ hspace₂ hx hreadable hothers₂
      rw [hspace₁] at hspace₂ hx
      have hfollows := h₁.toFollows.trans h₂
      have hwf₂ := hx.wellFormed_append hwf
      have hs₂ := hx.addressable_append hs
      have hne := hwf₂.base_ne_of_append code hmaps.code_mem
      have hfound : bed.machine.space.CodeAt base code := ⟨hmaps.code_mem, layout.code, hl.code, hmaps.code_base⟩
      have hrecreated := hx.update_append (m := code.painted .readExecute) hwf hmaps.code_mem rfl
      have hrefuses : bed₂.Refuses ↔ bed.Refuses := by
        rw [Refuses, Refuses, hothers₂, hfollows.machine.refusals]
      have hrefusal : bed₂.refusal = bed.refusal := by
        rw [refusal, refusal, hothers₂, hfollows.machine.refusals]
      rw [← hspace₂] at hwf₂ hs₂ hrecreated
      rw [Program.wp_bind]
      refine wp_recreateCode hwf₂ hs₂ (by simp [hspace₂, hmaps.code_mem]) (by simp [hspace₂]) hne.symm hmaps.code_base
        hmaps.code_size rfl hx.code_size_le hx.bytesAt_base hx.pages (fun hgo bed₃ h₃ hspace₃ => ?_)
        (fun error bed₃ h₃ herror hspace₃ hq => ?_) (fun error bed₃ h₃ herror hcodeLost hq => ?_)
        fun h => hcrash fun hfits => ?_
      · rw [hrecreated] at hspace₃
        rw [Program.wp_bind]
        refine wp_flush fun bed₄ h₄ => ?_
        rw [hl.constants_base, Program.require_some, Program.done_bind, Program.wp_bind, Program.wp_note]
        exact hdone layout code constants data x bed₄ (hfollows.trans (h₃.trans h₄.toFollows)) hl hmaps hx
          (h₄.space.trans hspace₃) hreadable fun h => hgo (h.imp_right hrefuses.2)
      · rw [hrecreated, hspace₂] at hspace₃
        refine hkept error bed₃ (hfollows.trans h₃) herror (Or.inr ?_) fun hhost hquiet => ?_
        · exact hspace₃.imp (fun h => ⟨x, h⟩) fun h => ⟨code, x, hfound, h⟩
        · obtain ⟨⟨hstrict, hrefused⟩, rfl⟩ := hq hhost (hquiet.follows hfollows)
          exact hrefusal ▸ .refused hadjoins hreadable hstrict (hrefuses.1 hrefused)
      · refine hlost error code bed₃ (hfollows.trans h₃) herror hfound hcodeLost fun hquiet hnone => ?_
        exact hq (hquiet.follows hfollows) (hfollows.undiverted hnone)
      · obtain ⟨hroom, hdiversion⟩ := hfits code constants data hadjoins
        have hcode := hroom code hmaps.code_mem
        have hsize := hmaps.size_le hroom
        exact h (FitsHole.follows ⟨by lia, by lia, hdiversion⟩ hfollows)
    · intro error bed₂ h₂ hspace₂ herror hq hothers₂
      rw [hspace₁] at hspace₂
      refine hkept error bed₂ (h₁.toFollows.trans h₂) herror (hspace₂.imp_right Or.inl) fun _ hquiet => ?_
      exact .unread hadjoins (hq (hquiet.follows h₁.toFollows))
  · intro error bed₁ h₁ herror hq _
    cases herror with
    | query step code h => exact hkept _ bed₁ h₁.toFollows h (Or.inl h₁.space) fun _ hquiet => .misplaced (hq hquiet)
    | layout part expected found => exact hviolated part expected found bed₁ h₁ fun hquiet => .misplaced (hq hquiet)

/-- The four ways in which finding the image, copying it and recreating its code can end. -/
theorem wp_establish {imageBase : Address} {pageSize : Nat} {config : Config} {Q : Image → Testbed → Prop}
    (hwf : bed.machine.space.WellFormed) (hs : bed.machine.space.Addressable)
    (hdone : ∀ (layout : Layout) code constants data x bed', bed.Follows bed' →
      layout.LocatedIn bed.machine.space (config.imageBase.getD imageBase) →
      layout.Maps bed.machine.space code constants data → x.Mirrors bed.machine.space code constants data →
      bed'.machine.space = bed.machine.space.update (code.painted .readExecute) ++ [x] →
      Q { config, code := layout.code, shadow := ⟨x.base, x.size, layout.code⟩, pageSize } bed')
    (hkept : ∀ error bed', bed.Follows bed' → error.isFatal = false →
      (bed'.machine.space = bed.machine.space ∨ (∃ x, bed'.machine.space = bed.machine.space ++ [x]) ∨
        ∃ code x, bed.machine.space.CodeAt (config.imageBase.getD imageBase) code ∧
          bed'.machine.space = bed.machine.space.update (code.painted .readExecute) ++ [x]) →
      ¬ bed.Unhindered host (config.imageBase.getD imageBase) config → E error bed')
    (hviolated : ∀ part expected found bed', bed.Still bed' →
      ¬ bed.Unhindered host (config.imageBase.getD imageBase) config → E (.layoutViolated part expected found) bed')
    (hlost : ∀ error code bed', bed.Follows bed' → error.LosesCode →
      bed.machine.space.CodeAt (config.imageBase.getD imageBase) code → bed'.machine.space.Lost code →
      ¬ bed.Unhindered host (config.imageBase.getD imageBase) config → E error bed')
    (hcrash : ¬ bed.Unhindered host (config.imageBase.getD imageBase) config → ∀ bed', C bed') :
    (Image.establish host imageBase pageSize config).wp Q E C bed := by
  refine wp_establish_obstructed hwf hs (fun layout code constants data x bed' h hl hmaps hx hspace _ _ => ?_)
    (fun error bed' h herror hspace hq => ?_) (fun part expected found bed' h hq => ?_)
    (fun error code bed' h herror hfound hcodeLost hq => ?_) fun h => hcrash fun hu => h (hu.fits hwf hs)
  · exact hdone layout code constants data x bed' h hl hmaps hx hspace
  · exact hkept error bed' h herror hspace fun hu => (hu.feasible hwf hs).not_obstructs hwf (hq hu.other hu.quiet)
  · exact hviolated part expected found bed' h fun hu => (hu.feasible hwf hs).not_obstructs hwf (hq hu.quiet)
  · exact hlost error code bed' h herror hfound hcodeLost fun hu => hq hu.quiet hu.undiverted

/-- Preparing is this, unless it is the image of the engine itself and an attempt was made before. -/
theorem wp_prepare {attempted : Bool} {imageBase : Address} {pageSize : Nat} {config : Config} {Q : Image → Testbed → Prop}
    (hagain : host ≠ .other → E .alreadyInitialized bed)
    (h : (Image.establish host imageBase pageSize config).wp Q E C bed) :
    (Image.prepare host attempted imageBase pageSize config).wp Q E C bed := by
  unfold Image.prepare
  split
  · exact hagain nofun
  · rw [wp_reporting]
    exact h

end Testbed

/-! ## A small process -/

/-- The memory of a process whose code and data have one page each. -/
def Space.threePages : Space := [.fresh Space.imageBase pageBytes, .fresh (Space.imageBase + pageBytes) pageBytes,
  .fresh (Space.imageBase + 2 * pageBytes) pageBytes]

/-- Its layout. -/
def Layout.threePages : Layout where
  code := ⟨Space.imageBase, pageBytes, .readWrite⟩
  constants := ⟨Space.imageBase + pageBytes, pageBytes, .readWrite⟩
  data := ⟨Space.imageBase + 2 * pageBytes, pageBytes, .readWrite⟩

namespace Space

variable {m : Mapping}

theorem mem_threePages (hm : m ∈ threePages) :
    m.WellFormed ∧ m.Readable ∧ m.size = pageBytes ∧ m.stop ≤ imageBase + 3 * pageBytes := by
  have hfresh : ∀ base, base % pageBytes = 0 → base ≤ imageBase + 2 * pageBytes →
      (Mapping.fresh base pageBytes).WellFormed ∧ (Mapping.fresh base pageBytes).Readable ∧
        (Mapping.fresh base pageBytes).size = pageBytes ∧
        (Mapping.fresh base pageBytes).stop ≤ imageBase + 3 * pageBytes := by
    intro base haligned hle
    refine ⟨Mapping.wellFormed_fresh haligned (by decide) (by decide), fun p hp => ?_, Mapping.size_fresh, ?_⟩
    · rw [Mapping.mem_pages_fresh hp]
      rfl
    · rw [Mapping.stop_fresh]
      lia
  simp only [threePages, List.mem_cons, List.not_mem_nil, or_false] at hm
  rcases hm with rfl | rfl | rfl
  · exact hfresh _ (by decide) (by decide)
  · exact hfresh _ (by decide) (by decide)
  · exact hfresh _ (by decide) (by decide)

theorem wellFormed_threePages : threePages.WellFormed := by
  refine ⟨fun m hm => (mem_threePages hm).1, ?_⟩
  have hstop : ∀ base, (Mapping.fresh base pageBytes).stop = base + pageBytes := fun base => Mapping.stop_fresh
  simp only [threePages, List.pairwise_cons, List.mem_cons, List.not_mem_nil, or_false, forall_eq_or_imp, forall_eq, hstop,
    Mapping.base_fresh]
  exact ⟨⟨by decide, by decide⟩, by decide, nofun, .nil⟩

theorem addressable_threePages : threePages.Addressable := by
  intro m hm
  exact Nat.lt_of_le_of_lt (mem_threePages hm).2.2.2 (by decide)

end Space

theorem Layout.locatedIn_threePages : Layout.threePages.LocatedIn Space.threePages Space.imageBase where
  code := by decide +kernel
  constants := by decide +kernel
  data := by decide +kernel
  constants_base := by decide
  data_base := by decide
  data_limit := ⟨Space.imageBase + 3 * pageBytes, by decide⟩

/-- The process, with one thread, and nothing that can go wrong. -/
def Testbed.threePages : Testbed := { machine := { space := Space.threePages } }

/-- Nothing keeps this process from being prepared if threads that refuse are tolerated. -/
theorem Testbed.unhindered_threePages (config : Config) (htolerant : config.strictThreads = false) :
    Testbed.threePages.Unhindered .other Space.imageBase config where
  other := rfl
  tolerant := htolerant
  quiet := ⟨nofun, nofun⟩
  undiverted := rfl
  located := ⟨_, Layout.locatedIn_threePages⟩
  ready := fun layout code constants data _ hmaps => by
    obtain ⟨-, hr1, hs1, -⟩ := Space.mem_threePages hmaps.code_mem
    obtain ⟨-, hr2, hs2, -⟩ := Space.mem_threePages hmaps.constants_mem
    obtain ⟨-, hr3, hs3, -⟩ := Space.mem_threePages hmaps.data_mem
    refine ⟨⟨hr1, hr2, hr3⟩, fun m hm => ?_⟩
    have hstop := (Space.mem_threePages hm).2.2.2
    have htop : Space.imageBase + 3 * pageBytes + Space.allocationGap + (pageBytes + pageBytes + pageBytes) + pageBytes <
        Word.count := by decide
    rw [hs1, hs2, hs3]
    lia

end LivePatch
