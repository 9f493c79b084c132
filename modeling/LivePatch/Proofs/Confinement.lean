import LivePatch.Proofs.Engine.Requests
import LivePatch.Proofs.Establishment
import LivePatch.Proofs.Executability

/-!
# What a prepared image changes

After a preparation only the code region changes. A patch asks to protect and to write ranges that reach into the code, and no
mapping but the one that holds such an address is ever touched: a span that starts below the code, on pages larger than those of
the memory, is refused as a whole. So every state that a patch goes through, and every state that a later one starts from, is the
memory from right after the preparation with another mapping in place of the code, open or closed page by page.
-/

namespace LivePatch

open Program (asks_request asks_noteAll asks_ofExcept asks_ofOutcome asks_attempt asks_require_bind)

/-! ## The requests of a patch -/

/-- A request that can change nothing but the contents and the pages of the region: it opens or closes the pages of a range with
an address of the region in it, it writes from such an address on, or it changes nothing at all. -/
def Request.Within (region : Region) : Request → Prop
  | .protect a n protection => (protection = .readWrite ∨ protection = .readExecute) ∧
      ∃ target, region.base ≤ target ∧ target < region.base + region.size ∧ a ≤ target ∧ target < a + n
  | .write a bytes => region.base ≤ a ∧ a < region.base + region.size ∧ 0 < bytes.size
  | .allocate .. | .deallocate .. | .copy .. => False
  | .region _ | .read .. | .threads | .currentThread | .release _ | .suspend _ | .resume _ | .flush .. => True

theorem Request.Idle.within {request : Request} (h : request.Idle) (region : Region) : request.Within region := by
  cases request with
  | region | read | threads | currentThread | release | suspend | resume => trivial
  | allocate | deallocate | protect | copy | write | flush => exact h.elim

section

variable {image : Image} {host : Host} {target : Address} {bytes : Bytes}

/-- The write of a patch stays within the region that its range lies in. -/
theorem asks_writeCode {region : Region} {span : PageSpan} (hbase : region.base ≤ target)
    (hlt : target < region.base + region.size) (hpos : 0 < bytes.size) (hstart : span.start ≤ target)
    (hstop : target < span.start + span.size) : (writeCode target bytes span).Asks (Request.Within region) := by
  have hopen : Request.Within region (.protect span.start span.size .readWrite) :=
    ⟨Or.inl rfl, target, hbase, hlt, hstart, hstop⟩
  have hclose : Request.Within region (.protect span.start span.size .readExecute) :=
    ⟨Or.inr rfl, target, hbase, hlt, hstart, hstop⟩
  have hwrite : Request.Within region (.write target bytes) := ⟨hbase, hlt, hpos⟩
  exact asks_writeCode_of hopen hwrite hclose

/-- A patch stays within the code. -/
theorem asks_patch : (image.patch host target bytes).Asks (Request.Within image.code) := by
  rw [Image.patch]
  split
  · trivial
  · rename_i hempty
    have hpos : 0 < bytes.size := Nat.pos_of_ne_zero (mt Array.isEmpty_iff_size_eq_zero.2 hempty)
    refine asks_require_bind fun inside hinside => ?_
    split
    · rename_i hin
      obtain ⟨hbase, hlt, -⟩ := Region.containsRange_eq_some (hinside.trans (congrArg some hin))
      refine Program.Asks.reporting (Program.Asks.bind (asks_require_bind fun span hspan => ?_) fun _ => ?_)
      · obtain ⟨hstart, hstop⟩ := PageSpan.mem_of_covering hspan hpos
        exact asks_runRoutine (fun _ _ h => h.idle.within _) (asks_writeCode hbase hlt hpos hstart hstop)
      · refine Program.Asks.bind (asks_request.2 trivial) fun _ => ?_
        split
        · exact (asks_verify trivial).bind fun _ => trivial
        · trivial
    · exact asks_require_bind fun _ _ => Program.Asks.reporting trivial

/-- So does every operation through the image that patches. -/
theorem Image.Attempts.asks {α β : Type} {operation : Engine α} {attempt : Engine β}
    (h : image.Attempts host operation attempt) : operation.Asks (Request.Within image.code) := by
  cases h with
  | patch => exact asks_patch
  | guarded target bytes => exact (asks_save trivial).bind fun saved => asks_patch.bind fun _ => trivial
  | release guard himage =>
    refine Program.Asks.bind (asks_attempt.2 (himage ▸ asks_patch)) fun result => ?_
    cases result <;> trivial

end

/-! ## Memory in which only the code changes -/

/-- The memory is the prepared one with another mapping in place of the region, each page of which is either closed or open. -/
def Space.VariesIn (space prepared : Space) (region : Region) : Prop :=
  ∃ old m, prepared.MapsTo region old ∧ old.SameShape m ∧ (∀ p ∈ m.pages, p = .readExecute ∨ p = .readWrite) ∧
    space = prepared.update m

namespace Space.VariesIn

variable {space next prepared : Space} {region : Region} {request : Request} {reply : request.Reply} {bed : Testbed}

/-- A request of a patch keeps the memory varying in the region alone, whatever its reply. -/
theorem takes (h : space.VariesIn prepared region) (hrequest : request.Within region)
    (htakes : space.Takes ⟨request, reply⟩ next) : next.VariesIn prepared region := by
  obtain ⟨old, m, hmaps, hshape, hpages, rfl⟩ := h
  have hnow := hmaps.update hshape
  have hkept : (prepared.update m).VariesIn prepared region := ⟨old, m, hmaps, hshape, hpages, rfl⟩
  cases request with
  | protect a n p =>
    cases reply with
    | error code => exact htakes ▸ hkept
    | ok =>
      obtain ⟨hp, target, hbase, hlt, hstart, hstop⟩ := hrequest
      obtain ⟨rfl, -⟩ :=
        hnow.wellFormed.update_of_protect_covered hnow.mem (hnow.covers hbase hlt) hstart hstop htakes
      refine ⟨old, _, hmaps, hshape.trans (m.sameShape_withProtection _ _ p), fun q hq => ?_, Space.update_update rfl⟩
      rcases Mapping.mem_pages_withProtection hq with rfl | hq
      · exact hp.symm
      · exact hpages q hq
  | write a bytes =>
    cases reply with
    | error code => exact htakes ▸ hkept
    | ok =>
      obtain ⟨hbase, hlt, hpos⟩ := hrequest
      have hcovers := hnow.covers hbase hlt
      obtain ⟨rfl, hstop⟩ := hnow.wellFormed.update_of_store_covered hnow.mem hcovers hpos htakes
      have hwritten := Mapping.sameShape_withBytes hcovers.1 hstop
      exact ⟨old, _, hmaps, hshape.trans hwritten, hpages, Space.update_update rfl⟩
  | allocate | deallocate | copy => exact hrequest.elim
  | flush => exact htakes ▸ hkept
  | region | read | threads | currentThread | release | suspend | resume => exact htakes.eq_of_idle trivial ▸ hkept

/-- So does serving it, also if that crashes. -/
theorem serve (h : bed.machine.space.VariesIn prepared region) (hrequest : request.Within region) :
    (Kernel.serve request bed).2.machine.space.VariesIn prepared region := by
  obtain ⟨htakes, hcrashed⟩ := bed.takes_serve request
  cases hreply : (Kernel.serve request bed).1 with
  | none => exact hcrashed hreply ▸ h
  | some reply => exact h.takes hrequest (htakes reply hreply)

/-- Every state of a run that asks for nothing else varies in the region alone. -/
theorem states {ε α : Type} {x : Program ε α} (h : bed.machine.space.VariesIn prepared region)
    (hx : x.Asks (Request.Within region)) : ∀ state ∈ x.states bed, state.machine.space.VariesIn prepared region :=
  hx.states (fun _ _ hrequest hvaries => hvaries.serve hrequest) h

/-- The mappings stay where they are. -/
theorem places_eq (h : space.VariesIn prepared region) :
    space.map (fun m => (m.base, m.size)) = prepared.map fun m => (m.base, m.size) := by
  obtain ⟨old, m, hmaps, hshape, -, rfl⟩ := h
  rw [Space.update, List.map_map]
  refine List.map_congr_left fun x hx => ?_
  rw [Function.comp_apply]
  split
  · rename_i hb
    cases hmaps.wellFormed.eq_of_base_eq hx hmaps.mem (hb.trans hshape.base)
    rw [hshape.base, hshape.size]
  · rfl

/-- A mapping with another base is there exactly if it was there before. -/
theorem mem_iff_of_ne {x : Mapping} (h : space.VariesIn prepared region) (hx : x.base ≠ region.base) :
    x ∈ space ↔ x ∈ prepared := by
  obtain ⟨old, m, hmaps, hshape, -, rfl⟩ := h
  have hne : x.base ≠ m.base := fun hb => hx (hb.trans (hshape.base.trans hmaps.base))
  rw [Space.mem_update_iff, or_iff_right fun hself => hne (congrArg Mapping.base hself.1)]
  exact and_iff_left hne

theorem wellFormed (h : space.VariesIn prepared region) : space.WellFormed := by
  obtain ⟨old, m, hmaps, hshape, -, rfl⟩ := h
  exact (hmaps.update hshape).wellFormed

theorem addressable (h : space.VariesIn prepared region) (hs : prepared.Addressable) : space.Addressable := by
  obtain ⟨old, m, hmaps, hshape, -, rfl⟩ := h
  exact hs.update hmaps.mem hshape

/-- Every page of the region is closed or open. -/
theorem protectionAt_region (h : space.VariesIn prepared region) {a : Address} (h1 : region.base ≤ a)
    (h2 : a < region.base + region.size) :
    space.protectionAt a = some .readExecute ∨ space.protectionAt a = some .readWrite := by
  obtain ⟨old, m, hmaps, hshape, hpages, rfl⟩ := h
  have hnow := hmaps.update hshape
  have hcovers := hnow.covers h1 h2
  have hlt := (hnow.wellFormed.mappings m hnow.mem).pageOf_lt hcovers
  rw [hnow.protectionAt_eq hcovers, Array.getElem?_eq_getElem hlt]
  exact (hpages _ (Array.getElem_mem hlt)).imp (congrArg some) (congrArg some)

/-- A range of a mapping with another base is held as it was before. -/
theorem holding_eq {x : Mapping} {a : Address} {n : Nat} (h : space.VariesIn prepared region)
    (hprepared : prepared.holding a n = .done x) (hx : x.base ≠ region.base) (hn : 0 < n) : space.holding a n = .done x := by
  obtain ⟨hmem, hbase, hstop⟩ := Space.mem_of_holding_eq_done hprepared
  exact h.wellFormed.holding_eq_done ((h.mem_iff_of_ne hx).2 hmem) ⟨hbase, by lia⟩ hstop
    (Space.stop_lt_of_holding_eq_done hprepared)

end Space.VariesIn

/-! ## Prepared images in use -/

/-- The worlds that an image gets into from `start` on: through operations that patch, however they end, and between them
everything but the memory may change. -/
inductive Image.Uses (image : Image) (host : Host) (start : World Testbed) : World Testbed → Prop where
  | unused : Uses image host start start
  | operated {α β : Type} {world : World Testbed} {operation : Engine α} {attempt : Engine β}
      (h : Uses image host start world) (hattempts : image.Attempts host operation attempt) :
      Uses image host start (operation.run world).2
  | changed {world world' : World Testbed} (h : Uses image host start world)
      (hspace : world'.kernel.machine.space = world.kernel.machine.space) : Uses image host start world'

/-- The memory is that from right after the preparation, but for the contents of the code: the mappings are where they were, and
all others hold what they held and are protected as they were, the shadow image among them; it stays executable, and shows at the
copy of a code address the byte that was there before any patch; and every page of the code is closed or open. -/
structure Image.Confines (image : Image) (prepared space : Space) : Prop where
  places : space.map (fun m => (m.base, m.size)) = prepared.map fun m => (m.base, m.size)
  others : ∀ m, m.base ≠ image.code.base → (m ∈ space ↔ m ∈ prepared)
  shadow_apart : image.shadow.base ≠ image.code.base
  shadow_sealed : ∀ a, image.shadow.base ≤ a → a < image.shadow.base + image.shadow.size →
    space.protectionAt a = some .readExecute
  translated : ∀ a copy, image.shadow.toCopy a = some (some copy) →
    ∃ byte, prepared.peek a 1 = some #[byte] ∧ space.peek copy 1 = some #[byte]
  code_pages : ∀ a, image.code.base ≤ a → a < image.code.base + image.code.size →
    space.protectionAt a = some .readExecute ∨ space.protectionAt a = some .readWrite

/-- An address of the code has its copy at the same distance from the start of the shadow image. -/
theorem Shadow.toCopy_eq_some {shadow : Shadow} {a copy : Address} (h : shadow.toCopy a = some (some copy)) :
    shadow.code.base ≤ a ∧ a < shadow.code.base + shadow.code.size ∧ copy = shadow.base + (a - shadow.code.base) := by
  unfold Shadow.toCopy Region.contains at h
  obtain ⟨inside, hinside, h⟩ := Option.bind_eq_some_iff.1 h
  obtain ⟨limit, hlimit, rfl⟩ := Option.map_eq_some_iff.1 hinside
  obtain ⟨rfl, -⟩ := Word.add_eq_some_iff.1 hlimit
  split at h
  · rename_i hin
    obtain ⟨h1, h2⟩ := of_decide_eq_true hin
    obtain ⟨sum, hsum, hcopy⟩ := Option.map_eq_some_iff.1 h
    obtain ⟨rfl, -⟩ := Word.add_eq_some_iff.1 hsum
    exact ⟨h1, h2, (Option.some.inj hcopy).symm.trans (Nat.add_comm _ _)⟩
  · cases h

namespace Image.Established

variable {image : Image} {base : Address} {before prepared space : Space} {code constants data shadow : Mapping}

/-- The shadow image is a mapping that ends at an address, and not the code. -/
theorem shadow_mem (h : image.Established base before prepared code constants data shadow) :
    shadow ∈ prepared ∧ shadow.stop < Word.count ∧ shadow.base ≠ image.code.base := by
  have hmem : shadow ∈ prepared := (h.mem_iff shadow).2 (Or.inl rfl)
  have hpos := (h.wellFormed.mappings shadow hmem).base_lt_stop
  have hcode : code.base < code.stop := by
    have hpainted := (h.wellFormed.mappings _ ((h.mem_iff _).2 (Or.inr (Or.inl rfl)))).base_lt_stop
    exact hpainted
  have hdata : code.base < data.stop := by
    have h1 := h.code_stop
    have h2 := h.constants_stop
    simp only [Mapping.stop] at *
    lia
  refine ⟨hmem, ?_, fun hb => ?_⟩
  · obtain ⟨byte, -, hpeek⟩ := h.mirrored code.base (Nat.le_refl _) hdata
    rw [Nat.sub_self, Nat.add_zero, Space.peek] at hpeek
    split at hpeek
    · rename_i m hholding
      obtain ⟨hm, hbase, hstop⟩ := Space.mem_of_holding_eq_done hholding
      cases h.wellFormed.eq_of_covers hm hmem ⟨hbase, by lia⟩ ⟨Nat.le_refl _, hpos⟩
      exact Space.stop_lt_of_holding_eq_done hholding
    · cases hpeek
  · rw [h.code_base] at hb
    rcases h.apart code h.found.1 with hlt | hlt <;> lia

/-- Right after the preparation nothing has varied. -/
theorem variesIn (h : image.Established base before prepared code constants data shadow) (hs : before.Addressable) :
    prepared.VariesIn prepared image.code := by
  have hmem : code.painted .readExecute ∈ prepared := (h.mem_iff _).2 (Or.inr (Or.inl rfl))
  have hmaps : prepared.MapsTo image.code (code.painted .readExecute) :=
    ⟨h.wellFormed, hmem, h.code_base.symm, h.code_size.symm, hs code h.found.1⟩
  exact ⟨_, _, hmaps, .refl _, fun p hp => Or.inl (Mapping.mem_pages_painted hp), (h.wellFormed.update_self hmem).symm⟩

/-- Memory that varies in the code alone is confined as an image asks. -/
theorem confines_of_variesIn (h : image.Established base before prepared code constants data shadow)
    (hvaries : space.VariesIn prepared image.code) : image.Confines prepared space := by
  obtain ⟨hmem, hstop, hne⟩ := h.shadow_mem
  have hshadow : image.shadow.base = shadow.base ∧ image.shadow.size = shadow.size ∧ image.shadow.code = image.code := by
    rw [h.shadow_eq]
    exact ⟨rfl, rfl, rfl⟩
  have hholding : ∀ a, shadow.Covers a → prepared.holding a 1 = .done shadow ∧ space.holding a 1 = .done shadow := by
    intro a ha
    have hprepared : prepared.holding a 1 = .done shadow := h.wellFormed.holding_eq_done hmem ha ha.2 hstop
    exact ⟨hprepared, hvaries.holding_eq hprepared hne Nat.one_pos⟩
  refine ⟨hvaries.places_eq, fun m hm => hvaries.mem_iff_of_ne hm, hshadow.1 ▸ hne, fun a h1 h2 => ?_, fun a copy hcopy => ?_,
    fun a h1 h2 => hvaries.protectionAt_region h1 h2⟩
  · rw [hshadow.1] at h1 h2
    rw [hshadow.2.1] at h2
    have hlt := (h.wellFormed.mappings shadow hmem).pageOf_lt ⟨h1, h2⟩
    rw [Space.protectionAt, (hholding a ⟨h1, h2⟩).2]
    dsimp only
    rw [Array.getElem?_eq_getElem hlt, h.sealed _ (Array.getElem_mem hlt)]
  · obtain ⟨h1, h2, rfl⟩ := Shadow.toCopy_eq_some hcopy
    rw [hshadow.2.2, h.code_base] at h1 h2 ⊢
    rw [h.code_size] at h2
    have hlt : a < data.stop := by
      have h3 := h.code_stop
      have h4 := h.constants_stop
      simp only [Mapping.stop] at *
      lia
    obtain ⟨byte, hbyte, hmirror⟩ := h.mirrored a h1 hlt
    have hcovers : shadow.Covers (shadow.base + (a - code.base)) := by
      have h3 := h.size_eq
      simp only [Mapping.Covers, Mapping.stop]
      lia
    rw [hshadow.1]
    rw [Space.peek, (hholding _ hcovers).1] at hmirror
    exact ⟨byte, hbyte, by rw [Space.peek, (hholding _ hcovers).2, hmirror]⟩

end Image.Established

/-- However an image is used, its memory varies in the code alone. -/
theorem Image.Uses.variesIn {image : Image} {host : Host} {start world : World Testbed} {prepared : Space}
    (h : image.Uses host start world) (hstart : start.kernel.machine.space.VariesIn prepared image.code) :
    world.kernel.machine.space.VariesIn prepared image.code := by
  induction h with
  | unused => exact hstart
  | @operated _ _ world operation attempt h hattempts ih =>
    exact ih.states hattempts.asks _ (operation.run_mem_states world)
  | changed h hspace ih => exact hspace ▸ ih

/-- After a preparation that succeeded, and however the image was used since, every state that an operation goes through differs
from the one right after the preparation in the contents and the protection of the code alone. -/
theorem Image.Uses.confines {host : Host} {attempted : Bool} {imageBase : Address} {pageSize : Nat} {config : Config}
    {before start world : World Testbed} {image : Image} {α β : Type} {operation : Engine α} {attempt : Engine β}
    {state : Testbed} (h : image.Uses host start world) (hwf : before.kernel.machine.space.WellFormed)
    (hs : before.kernel.machine.space.Addressable)
    (hrun : (Image.prepare host attempted imageBase pageSize config).run before = (.done image, start))
    (hattempts : image.Attempts host operation attempt) (hstate : state ∈ operation.states world.kernel) :
    image.Confines start.kernel.machine.space state.machine.space := by
  obtain ⟨code, constants, data, shadow, hestablished⟩ := Image.prepare_establishes hwf hs hrun
  have hworld := h.variesIn (hestablished.variesIn hs)
  exact hestablished.confines_of_variesIn (hworld.states hattempts.asks state hstate)

/-- Whatever single failure is ordered, a patch of the small process goes through no other states, also behind a patch under a
guard. -/
theorem Image.Uses.confines_threePages : ∃ start : World Testbed,
    (Image.prepare .other false Space.imageBase pageBytes {}).run { kernel := .threePages } =
        (.done (Image.threePages {}), start) ∧
      ∀ injection, ∀ state ∈ ((Image.threePages {}).patch .other Space.imageBase #[0xcc]).states
          (((Image.threePages {}).guardedPatch .other Space.imageBase #[0x90]).run (.preparedPages injection)).2.kernel,
        (Image.threePages {}).Confines start.kernel.machine.space state.machine.space := by
  obtain ⟨start, hprepared, hspace⟩ := @Testbed.prepare_threePages {} rfl rfl
  refine ⟨start, hprepared, fun injection state hstate => ?_⟩
  have hused : (Image.threePages {}).Uses .other start
      (((Image.threePages {}).guardedPatch .other Space.imageBase #[0x90]).run (.preparedPages injection)).2 :=
    .operated (.changed .unused hspace.symm) (.guarded Space.imageBase #[0x90])
  exact Image.Uses.confines hused Space.wellFormed_threePages Space.addressable_threePages hprepared
    (.patch Space.imageBase #[0xcc]) hstate

end LivePatch
