import LivePatch.Proofs.Engine.Preparation
import LivePatch.Proofs.Engine.Survey
import LivePatch.Proofs.Simulation.Replay
import LivePatch.Proofs.Space.Protections

/-!
# Shadow images that are taken back

If a shadow image cannot be built, nothing is left of it, unless unmapping it fails as well. It lies behind all mappings from its
first moment on, nothing is written but to it, and it becomes executable with the last call alone, behind which nothing can fail. So
at no moment anything else has changed, and nothing can be executed that could not be before.
-/

namespace LivePatch

open Program (Served)

/-! ## Incomplete shadow images -/

/-- A mapping of a shadow image that is not complete: some whole pages behind all mappings of a space, none of them executable. -/
structure Draft (space : Space) (base : Address) (n : Nat) (x : Mapping) : Prop where
  wellFormed : space.WellFormed
  aligned : base % pageBytes = 0
  whole : n % pageBytes = 0
  pos : 0 < n
  behind : ∀ m ∈ space, m.stop < base
  shape : (Mapping.fresh base n).SameShape x
  pages : ∀ p ∈ x.pages, p.execute = false

namespace Draft

variable {space next : Space} {base a : Address} {n k : Nat} {x y : Mapping} {p : Protection} {bytes : Bytes}

theorem base_eq (h : Draft space base n x) : x.base = base := h.shape.base

theorem size_eq (h : Draft space base n x) : x.size = n := h.shape.size.trans Mapping.size_fresh

theorem append (h : Draft space base n x) : Space.WellFormed (space ++ [x]) := by
  refine h.wellFormed.snoc (h.shape.wellFormed (Mapping.wellFormed_fresh h.aligned h.whole h.pos)) fun m hm => ?_
  rw [h.base_eq]
  exact Nat.le_of_lt (h.behind m hm)

/-- A mapping of the same shape is a draft as well if no page of it is executable. -/
theorem exchange (h : Draft space base n x) (hy : x.SameShape y) (hpages : ∀ p ∈ y.pages, p.execute = false) :
    Draft space base n y ∧ Space.update (space ++ [x]) y = space ++ [y] :=
  ⟨⟨h.wellFormed, h.aligned, h.whole, h.pos, h.behind, h.shape.trans hy, hpages⟩,
    Space.update_append_singleton h.append.base_ne_of_append hy.base⟩

/-- Protecting a draft from its start on changes the draft alone. -/
theorem protect (h : Draft space base n x) (hk : 0 < k) (hp : p.execute = false)
    (hdone : Space.protect (space ++ [x]) base k p = .done next) : ∃ y, Draft space base n y ∧ next = space ++ [y] := by
  have hcovers : x.Covers base := by
    rw [Mapping.Covers, Mapping.stop, h.base_eq, h.size_eq]
    exact ⟨Nat.le_refl _, Nat.lt_add_of_pos_right h.pos⟩
  obtain ⟨rfl, -⟩ := h.append.update_of_protect_covered (List.mem_append_right _ List.mem_cons_self) hcovers (Nat.le_refl _)
    (Nat.lt_add_of_pos_right hk) hdone
  have hexchange := h.exchange (x.sameShape_withProtection (x.pageOf (pageFloor base))
    (x.pageOf (pageFloor (base + k + pageBytes - 1))) p) fun q hq => ?_
  · exact ⟨_, hexchange⟩
  · rcases Mapping.mem_pages_withProtection hq with rfl | hq
    · exact hp
    · exact h.pages q hq

/-- What is written from the start of a draft on is written into the draft. -/
theorem store (h : Draft space base n x) (ha : base ≤ a) (hdone : Space.store (space ++ [x]) a bytes = .done next) :
    ∃ y, Draft space base n y ∧ next = space ++ [y] := by
  obtain ⟨m, hm, hbase, hstop, rfl⟩ := Space.update_of_store_eq_done hdone
  rcases List.mem_append.1 hm with hm | hm
  · have hbehind := h.behind m hm
    lia
  · cases List.mem_singleton.1 hm
    exact ⟨_, h.exchange (Mapping.sameShape_withBytes hbase hstop) h.pages⟩

/-- A draft can be unmapped, and the space is then what it was. -/
theorem deallocate (h : Draft space base n x) : Space.deallocate (space ++ [x]) base n = .done space := by
  rw [← h.base_eq, ← h.size_eq, h.append.deallocate_eq_done (List.mem_append_right _ List.mem_cons_self),
    Space.remove_append_singleton h.append.base_ne_of_append]

end Draft

/-- New memory behind a well-formed space is a draft. -/
theorem Space.WellFormed.draft {space next : Space} {base : Address} {n : Nat} (h : space.WellFormed)
    (hn : n % pageBytes = 0) (hpos : 0 < n) (hdone : space.allocate .anywhere n = .done (base, next)) :
    Draft space base n (.fresh base n) ∧ next = space ++ [.fresh base n] := by
  have hpages : ∀ p ∈ (Mapping.fresh base n).pages, p.execute = false := by
    intro p hp
    rw [Mapping.mem_pages_fresh hp]
    rfl
  have haligned := (h.bounds_of_anywhere hdone).1
  by_cases hne : space = []
  · subst hne
    obtain ⟨-, -, -, rfl⟩ := allocate_eq_done_iff.1 hdone
    exact ⟨⟨h, haligned, hn, hpos, nofun, .refl _, hpages⟩, rfl⟩
  · obtain ⟨-, -, -, -, hbehind, rfl⟩ := h.allocate_anywhere hne hdone
    refine ⟨⟨h, haligned, hn, hpos, fun m hm => ?_, .refl _, hpages⟩, rfl⟩
    have hgap : 0 < allocationGap := by decide
    have := hbehind m hm
    lia

/-! ## The calls of a build -/

/-- An exchange that changes nothing but a shadow image at `base` and makes it no more executable: it failed, or it protects pages
from `base` on, or it fills memory from there on. -/
def Exchange.Drafts (base : Address) : Exchange → Prop
  | ⟨.protect a size protection, .ok ()⟩ => a = base ∧ 0 < size ∧ protection.execute = false
  | ⟨.copy _ _ destination, .ok ()⟩ => base ≤ destination
  | e => e.failure?.isSome

section

variable {space next final : Space} {base : Address} {n : Nat} {x : Mapping} {e : Exchange} {es : List Exchange} {code : KernelCode}

/-- A request that failed left the memory as it was. -/
theorem Space.Takes.eq_of_failure (h : space.Takes e next) (he : e.failure? = some code) : next = space := by
  obtain ⟨request, reply⟩ := e
  cases request with
  | region | read | threads | currentThread | release | suspend | resume | flush => exact h
  | allocate | deallocate | protect | copy | write =>
    cases reply with
    | ok => cases he
    | error => exact h

theorem Exchange.drafts_of_failure (he : e.failure? = some code) : e.Drafts base := by
  obtain ⟨request, reply⟩ := e
  have hfailure : Exchange.failure? ⟨request, reply⟩ |>.isSome := by rw [he]; rfl
  cases request with
  | protect | copy =>
    cases reply with
    | ok => cases he
    | error => exact hfailure
  | _ => exact hfailure

/-- Requests that failed left the memory as it was. -/
theorem Space.Evolves.eq_of_failures (hes : ∀ e ∈ es, e.failure?.isSome) (h : space.Evolves es final) : final = space := by
  induction es generalizing space with
  | nil => exact h
  | cons e es ih =>
    obtain ⟨next, htakes, hrest⟩ := h
    rw [List.forall_mem_cons] at hes
    obtain ⟨code, hcode⟩ := Option.isSome_iff_exists.1 hes.1
    cases htakes.eq_of_failure hcode
    exact ih hes.2 hrest

/-- A draft stays one. -/
theorem Draft.takes (h : Draft space base n x) (he : e.Drafts base) (htakes : Space.Takes (space ++ [x]) e next) :
    ∃ y, Draft space base n y ∧ next = space ++ [y] := by
  unfold Exchange.Drafts at he
  split at he
  · obtain ⟨rfl, hsize, hp⟩ := he
    exact h.protect hsize hp htakes
  · obtain ⟨bytes, hstore⟩ := Space.store_of_copy_eq_done htakes
    exact h.store he hstore
  · obtain ⟨code, hcode⟩ := Option.isSome_iff_exists.1 he
    exact ⟨x, h, htakes.eq_of_failure hcode⟩

theorem Draft.evolves (h : Draft space base n x) (hes : ∀ e ∈ es, e.Drafts base) (hevolves : Space.Evolves (space ++ [x]) es final) :
    ∃ y, Draft space base n y ∧ final = space ++ [y] := by
  induction es generalizing x with
  | nil => exact ⟨x, h, hevolves⟩
  | cons e es ih =>
    obtain ⟨next, htakes, hrest⟩ := hevolves
    rw [List.forall_mem_cons] at hes
    obtain ⟨y, hy, rfl⟩ := h.takes hes.1 htakes
    exact ih hy hes.2 hrest

/-- The memory is there as it was, and nothing can be executed that could not be before. -/
structure Space.Kept (space now : Space) : Prop where
  mappings : ∀ m ∈ space, m ∈ now
  executable : ∀ a p, now.PageAt a p → p.execute → space.PageAt a p

theorem Space.Kept.refl (space : Space) : space.Kept space := ⟨fun _ => id, fun _ _ hp _ => hp⟩

/-- Beside a draft the memory is there as it was. -/
theorem Draft.kept (h : Draft space base n x) : space.Kept (space ++ [x]) where
  mappings := fun m hm => List.mem_append_left _ hm
  executable := by
    rintro a p ⟨m, hm, hcovers, hp⟩ hexecute
    rcases List.mem_append.1 hm with hm | hm
    · exact ⟨m, hm, hcovers, hp⟩
    · cases List.mem_singleton.1 hm
      rw [h.pages p (Array.mem_of_getElem? hp)] at hexecute
      cases hexecute

/-- A draft is filled, and then taken back or kept; at each moment the memory is there as it was. -/
theorem Draft.kept_of_prefix (h : Draft space base n x) (hes : ∀ e ∈ es, e.Drafts base) {reply : Except KernelCode Unit}
    {ahead : List Exchange} (hahead : ahead <+: es ++ [⟨.deallocate base n, reply⟩])
    (hevolves : Space.Evolves (space ++ [x]) ahead final) : space.Kept final := by
  rcases List.prefix_concat_iff.1 hahead with rfl | hahead
  · obtain ⟨next, hfilled, final', htakes, rfl⟩ := Space.evolves_append.1 hevolves
    obtain ⟨y, hy, rfl⟩ := h.evolves hes hfilled
    cases reply with
    | error code =>
      cases htakes
      exact hy.kept
    | ok =>
      cases hy.deallocate.symm.trans htakes
      exact .refl space
  · obtain ⟨y, hy, rfl⟩ := h.evolves (fun e he => hes e (hahead.subset he)) hevolves
    exact hy.kept

end

/-! ## Builds that fail -/

/-- The regions are some whole pages together. -/
def Layout.Whole (layout : Layout) : Prop := layout.extent % pageBytes = 0 ∧ 0 < layout.extent

section

variable {world after : World Testbed} {layout : Layout} {shadow : Address} {step : Step} {error : Error} {es : List Exchange}

/-- The regions that locating was told of are mapped if it succeeds. -/
theorem Testbed.mapped_of_locate {base a : Address} {region : Region} (hrun : (locate base).run world = (.done layout, after))
    (hmem : ⟨.region a, .ok region⟩ ∈ (layout.locating base).map Stage.exchange) :
    ∃ m ∈ world.kernel.machine.space, region.base = m.base ∧ region.size = m.size := by
  obtain ⟨_, -, rfl, hes⟩ := yields_locate.of_run hrun rfl
  have hserved := Program.served_run hrun nofun
  rw [hes] at hserved
  exact mapped_of_served hserved (by simp [Layout.locating, Request.Idle]) hmem

/-- The regions of a layout that is found in a well-formed memory are some whole pages together. -/
theorem Testbed.whole_of_locate {base : Address} (hwf : world.kernel.machine.space.WellFormed)
    (hrun : (locate base).run world = (.done layout, after)) : layout.Whole := by
  have hwhole : ∀ a region, ⟨.region a, .ok region⟩ ∈ (layout.locating base).map Stage.exchange →
      region.size % pageBytes = 0 ∧ 0 < region.size := by
    intro a region hmem
    obtain ⟨m, hm, -, hsize⟩ := mapped_of_locate hrun hmem
    have hm := hwf.mappings m hm
    exact ⟨hsize ▸ hm.size_eq ▸ Nat.mul_mod_left _ _, hsize ▸ hm.size_pos⟩
  have hcode := hwhole base layout.code (by simp [Layout.locating])
  have hconstants := hwhole layout.constants.base layout.constants (by simp [Layout.locating])
  have hdata := hwhole layout.data.base layout.data (by simp [Layout.locating])
  simp only [Layout.Whole, Layout.extent, pageBytes] at *
  lia

theorem Layout.endsRefused_of_shadowing : ∀ stage ∈ layout.shadowing shadow, stage.exchange.request.EndsRefused := by
  simp [Layout.shadowing, Request.EndsRefused]

/-- The calls that fill a shadow image change nothing else, until one of them fails. -/
theorem Layout.Whole.drafts_of_cut (h : layout.Whole) (hcut : Cut (layout.shadowing shadow).tail step error es) :
    ∀ e ∈ es, e.Drafts shadow := by
  obtain ⟨made, stopped, code, rfl, hmade, hcode, -⟩ :=
    hcut.refused fun stage hstage => Layout.endsRefused_of_shadowing stage (List.mem_of_mem_tail hstage)
  have hplanned : ∀ e ∈ (layout.shadowing shadow).tail.dropLast.map Stage.exchange, e.Drafts shadow := by
    simp [Layout.shadowing, Exchange.Drafts, h.2, Protection.readWrite]
  rw [List.forall_mem_append, List.forall_mem_singleton]
  exact ⟨fun e he => hplanned e (hmade e he), Exchange.drafts_of_failure hcode⟩

/-- The memory for a shadow image is a draft, beside which nothing was changed. -/
theorem Layout.Whole.draft {bed final : Testbed} (h : layout.Whole) (hwf : bed.machine.space.WellFormed)
    (hserved : Served bed (⟨.allocate .anywhere layout.extent, .ok shadow⟩ :: es) final) :
    Draft bed.machine.space shadow layout.extent (.fresh shadow layout.extent) ∧
      Space.Evolves (bed.machine.space ++ [.fresh shadow layout.extent]) es final.machine.space := by
  obtain ⟨next, hserve, hrest⟩ := hserved
  obtain ⟨rounded, hround, halloc⟩ := Testbed.allocate_of_serve (by rw [hserve])
  rw [Space.roundUp_of_aligned h.1 (Space.roundUp_eq_some_iff.1 hround).1] at hround
  cases hround
  rw [hserve] at halloc
  obtain ⟨hdraft, hspace⟩ := hwf.draft h.1 h.2 halloc
  exact ⟨hdraft, hspace ▸ Testbed.evolves_served hrest⟩

/-- At each moment of a build that maps memory and fails, the rest of the memory is there as it was. -/
theorem Layout.Whole.kept_of_cut {bed state : Testbed} {ahead : List Exchange} {reply : Except KernelCode Unit} (h : layout.Whole)
    (hwf : bed.machine.space.WellFormed) (hcut : Cut (layout.shadowing shadow).tail step error es)
    (hahead : ahead <+: ⟨.allocate .anywhere layout.extent, .ok shadow⟩ :: (es ++ [⟨.deallocate shadow layout.extent, reply⟩]))
    (hserved : Served bed ahead state) : bed.machine.space.Kept state.machine.space := by
  rcases List.prefix_cons_iff.1 hahead with rfl | ⟨rest, rfl, hrest⟩
  · cases hserved
    exact .refl _
  · obtain ⟨hdraft, hevolves⟩ := h.draft hwf hserved
    exact hdraft.kept_of_prefix (h.drafts_of_cut hcut) hrest hevolves

/-- Behind a build that maps memory and fails, the memory is what it was, unless unmapping is made to fail. -/
theorem Layout.Whole.restored_of_cut {bed final : Testbed} {reply : Except KernelCode Unit} (h : layout.Whole)
    (hwf : bed.machine.space.WellFormed) (hcut : Cut (layout.shadowing shadow).tail step error es)
    (hinjected : bed.machine.injected? .deallocate = none)
    (hserved : Served bed
      (⟨.allocate .anywhere layout.extent, .ok shadow⟩ :: (es ++ [⟨.deallocate shadow layout.extent, reply⟩])) final) :
    final.machine.space = bed.machine.space := by
  rw [← List.cons_append] at hserved
  obtain ⟨filled, hfilled, released, hserve, rfl⟩ := Program.served_append.1 hserved
  obtain ⟨hdraft, hevolves⟩ := h.draft hwf hfilled
  obtain ⟨y, hy, hspace⟩ := hdraft.evolves (h.drafts_of_cut hcut) hevolves
  have hunmapped := hy.deallocate
  rw [← hspace] at hunmapped
  cases reply with
  | ok =>
    have htakes := (Testbed.takes_serve filled (.deallocate shadow layout.extent)).1 (.ok ()) (by rw [hserve])
    rw [hserve] at htakes
    exact Outcome.done.inj (htakes.symm.trans hunmapped)
  | error code =>
    have hbuild : Cut (layout.shadowing shadow) step error (⟨.allocate .anywhere layout.extent, .ok shadow⟩ :: es) := .later hcut
    have hsame := Testbed.injected?_served hfilled (hbuild.forall_request
      (P := fun request => (Call.ofRequest? request).bind Call.kind? ≠ some .deallocate)
      (by simp [Layout.shadowing, Call.ofRequest?, Call.kind?]))
    rcases Testbed.refused_of_serve_deallocate (by rw [hserve]) with hcode | hfailed
    · rw [hsame, hinjected] at hcode
      cases hcode
    · cases hunmapped.symm.trans hfailed

/-- What a build that failed leaves: at each moment of it the memory is there as it was, and nothing can be executed that could not be
before; behind it the memory is what it was, unless unmapping is made to fail; and the error is that of the call that ended the
build, behind which nothing came but the unmapping. -/
structure Layout.Retracted (layout : Layout) (world after : World Testbed) (error : Error) : Prop where
  kept : ∀ state ∈ (buildShadow layout).states world.kernel, world.kernel.machine.space.Kept state.machine.space
  restored : world.kernel.machine.injected? .deallocate = none → after.kernel.machine.space = world.kernel.machine.space
  cause : ∃ shadow step code made stopped cleanup,
    (buildShadow layout).exchanges world.kernel = made ++ stopped :: cleanup ∧
      Cut (layout.shadowing shadow) step error (made ++ [stopped]) ∧ stopped.failure? = some code ∧
      error = .ofKernel step code ∧ cleanup.map Exchange.request = layout.discarding shadow step

/-- A build that failed leaves nothing behind. -/
theorem Layout.Whole.retracted (h : layout.Whole) (hwf : world.kernel.machine.space.WellFormed)
    (hrun : (buildShadow layout).run world = (.failed error, after)) : layout.Retracted world after error := by
  obtain ⟨shadow, step, made, cleanup, hes, hcut, hcleanup⟩ := (yields_buildShadow layout).of_run hrun rfl
  have hserved := Program.served_run hrun nofun
  have hahead : ∀ state ∈ (buildShadow layout).states world.kernel, ∃ ahead,
      ahead <+: (buildShadow layout).exchanges world.kernel ∧ Served world.kernel ahead state := by
    intro state hstate
    obtain ⟨ahead, behind, hsplit, hahead, -⟩ := Program.served_of_mem_states hrun nofun hstate
    exact ⟨ahead, ⟨behind, hsplit.symm⟩, hahead⟩
  have hcause : ∃ shadow step code made stopped cleanup,
      (buildShadow layout).exchanges world.kernel = made ++ stopped :: cleanup ∧
        Cut (layout.shadowing shadow) step error (made ++ [stopped]) ∧ stopped.failure? = some code ∧
        error = .ofKernel step code ∧ cleanup.map Exchange.request = layout.discarding shadow step := by
    obtain ⟨ahead, stopped, code, rfl, -, hcode, rfl⟩ := hcut.refused Layout.endsRefused_of_shadowing
    exact ⟨shadow, step, code, ahead, stopped, cleanup, by rw [hes, List.append_assoc, List.singleton_append], hcut, hcode, rfl,
      hcleanup⟩
  rw [hes] at hserved hahead
  cases hcut with
  | @here _ _ actual _ _ hstops =>
    -- no memory was mapped, and there is nothing to unmap
    have hnone : layout.discarding shadow .allocateShadow = [] := rfl
    rw [hnone, List.map_eq_nil_iff] at hcleanup
    subst hcleanup
    have hfailed : ∀ e ∈ [actual], e.failure?.isSome := by
      obtain ⟨code, hcode, -⟩ := hstops.refused_of_request trivial
      simp [hcode]
    refine ⟨fun state hstate => ?_, fun _ => (Testbed.evolves_served hserved).eq_of_failures hfailed, hcause⟩
    obtain ⟨ahead, hearly, hstate⟩ := hahead state hstate
    rw [(Testbed.evolves_served hstate).eq_of_failures fun e he => hfailed e (hearly.subset he)]
    exact .refl _
  | @later _ _ _ _ es hcut =>
    rw [Layout.discarding_of_cut hcut] at hcleanup
    obtain ⟨release, rfl, hrelease⟩ := List.map_eq_singleton_iff.1 hcleanup
    obtain ⟨request, reply⟩ := release
    cases hrelease
    refine ⟨fun state hstate => ?_, fun hinjected => h.restored_of_cut hwf hcut hinjected hserved, hcause⟩
    obtain ⟨ahead, hearly, hstate⟩ := hahead state hstate
    exact h.kept_of_cut hwf hcut hearly hstate

end

/-- In a well-formed memory, every layout that is found consists of some whole pages, and building a shadow image of such a layout
leaves nothing behind if it fails. -/
theorem Testbed.buildShadow_retracted {world : World Testbed} (hwf : world.kernel.machine.space.WellFormed) :
    (∀ base layout after, (locate base).run world = (.done layout, after) → layout.Whole) ∧
      ∀ layout error after, layout.Whole → (buildShadow layout).run world = (.failed error, after) →
        layout.Retracted world after error :=
  ⟨fun _ _ _ hrun => whole_of_locate hwf hrun, fun _ _ _ hwhole hrun => hwhole.retracted hwf hrun⟩

/-- The small process, with a failure ordered. -/
def World.threePages (injection : Injection) : World Testbed :=
  { kernel := { machine := { space := Space.threePages, injections := [injection] } } }

/-- If the code of the small process cannot be copied, its memory is left as it was; none of it was executable meanwhile that
had not been before. -/
theorem Testbed.buildShadow_retracted_threePages : ∃ after,
    (buildShadow Layout.threePages).run (.threePages ⟨.copy, 0, .failure⟩) =
      (.failed (.ofKernel .copyCode .failure), after) ∧
    after.kernel.machine.space = Space.threePages ∧
    ∀ state ∈ (buildShadow Layout.threePages).states (World.threePages ⟨.copy, 0, .failure⟩).kernel,
      Space.Kept Space.threePages state.machine.space := by
  obtain ⟨after, hrun⟩ : ∃ after, (buildShadow Layout.threePages).run (.threePages ⟨.copy, 0, .failure⟩) =
      (.failed (.ofKernel .copyCode .failure), after) := Program.exists_run_eq (by decide +kernel)
  have hwhole : Layout.threePages.Whole := by
    unfold Layout.Whole
    decide
  have hretracted := (@Testbed.buildShadow_retracted (.threePages ⟨.copy, 0, .failure⟩) Space.wellFormed_threePages).2
    _ _ _ hwhole hrun
  exact ⟨after, hrun, hretracted.restored (by decide), hretracted.kept⟩

end LivePatch
