import LivePatch.Proofs.Exclusion
import LivePatch.Proofs.Placement
import LivePatch.Proofs.Retraction

/-!
# Memory that stays well-formed

Orderly requests keep a memory well-formed, and the engine makes no others: what it maps has the size of regions that the kernel
reported, and a shadow image is built for a layout that was located. So the memory is well-formed in every state that operations go
through, one after the other.
-/

namespace LivePatch

/-- The operations that there are when these layouts were located: to locate, to build the shadow image of one of the layouts, and
those on images. -/
inductive Available (layouts : List Layout) : {α : Type} → Engine α → Prop where
  | locate (base : Address) : Available layouts (locate base)
  | build {layout : Layout} (hlayout : layout ∈ layouts) : Available layouts (buildShadow layout)
  | image {α : Type} {operation : Engine α} (h : IsOperation operation) : Available layouts operation

/-- The worlds that operations lead to from `start` on, with the layouts that were located on the way. Each operation may end in any way.
In between failures may be ordered, threads may come and go, and an allocation may be diverted to a page boundary; only the memory is
as it was left. -/
inductive ProceedsTo (start : World Testbed) : World Testbed → List Layout → Prop where
  | start : ProceedsTo start start []
  | operated {α : Type} {world : World Testbed} {layouts : List Layout} {operation : Engine α} (h : ProceedsTo start world layouts)
      (havailable : Available layouts operation) : ProceedsTo start (operation.run world).2 layouts
  | located {world after : World Testbed} {layouts : List Layout} {base : Address} {layout : Layout}
      (h : ProceedsTo start world layouts) (hrun : (locate base).run world = (.done layout, after)) :
      ProceedsTo start after (layout :: layouts)
  | changed {world world' : World Testbed} {layouts : List Layout} (h : ProceedsTo start world layouts)
      (hspace : world'.kernel.machine.space = world.kernel.machine.space)
      (hdiversion : ∀ diverted ∈ world'.kernel.machine.diversion, diverted % pageBytes = 0) : ProceedsTo start world' layouts

/-- The code of the layout starts on a page boundary, and there is some. -/
def Layout.Founded (layout : Layout) : Prop := layout.code.base % pageBytes = 0 ∧ 0 < layout.code.size

section

variable {start : Space} {bed state : Testbed} {layouts : List Layout} {layout : Layout} {α : Type} {operation : Engine α}

/-- A layout that is located in a well-formed memory has code there. -/
theorem Testbed.founded_of_locate {world after : World Testbed} {base : Address} (hwf : world.kernel.machine.space.WellFormed)
    (hrun : (locate base).run world = (.done layout, after)) : layout.Founded := by
  have hmem : ⟨.region base, .ok layout.code⟩ ∈ (layout.locating base).map Stage.exchange := by simp [Layout.locating]
  obtain ⟨m, hm, hbase, hsize⟩ := Testbed.mapped_of_locate hrun hmem
  have hm := hwf.mappings m hm
  exact ⟨hbase ▸ hm.aligned, hsize ▸ hm.size_pos⟩

/-- It makes no difference to what holds when the code of a layout was reported. -/
theorem Testbed.Exclusive.recalling (h : bed.Exclusive start []) (hlayout : layout.Founded) (a : Address) :
    bed.Exclusive start [⟨.region a, .ok layout.code⟩] where
  wellFormed := h.wellFormed
  diversion := h.diversion
  pages := h.pages
  regions := by
    rintro region ⟨a', hmem⟩
    cases List.mem_singleton.1 hmem
    exact hlayout
  opened := by simp [openRange, Exchange.opening]

/-- What holds before an operation holds in every state that it goes through. -/
theorem Available.states (h : Available layouts operation) (hbed : bed.Exclusive start [])
    (hlayouts : ∀ layout ∈ layouts, layout.Founded) (hstate : state ∈ operation.states bed) : state.Exclusive start [] := by
  have hupholds : Program.Upholds Request.Exclusive (Testbed.Exclusive start) := fun _ _ _ hrequest h => h.serve hrequest
  have hstates : ∃ es, state.Exclusive start es := by
    cases h with
    | locate base =>
      obtain ⟨es, hes⟩ := exclusive_locate.states hupholds hbed state hstate
      exact ⟨_, hes⟩
    | @build layout hlayout =>
      have hreported : Reported [⟨.region layout.code.base, .ok layout.code⟩] layout.code := ⟨_, List.mem_singleton_self _⟩
      have hrecalling := hbed.recalling (hlayouts layout hlayout) layout.code.base
      obtain ⟨es, hes⟩ := (exclusive_buildShadow hreported).states hupholds hrecalling state hstate
      exact ⟨_, hes⟩
    | image hoperation =>
      obtain ⟨es, hes⟩ := hoperation.exclusive.states hupholds hbed state hstate
      exact ⟨_, hes⟩
  obtain ⟨es, hes⟩ := hstates
  exact hes.settled

end

theorem ProceedsTo.settled {start world : World Testbed} {layouts : List Layout} (h : ProceedsTo start world layouts)
    (hstart : start.kernel.Exclusive start.kernel.machine.space []) :
    world.kernel.Exclusive start.kernel.machine.space [] ∧ ∀ layout ∈ layouts, layout.Founded := by
  induction h with
  | start => exact ⟨hstart, nofun⟩
  | @operated _ world layouts operation h havailable ih =>
    exact ⟨havailable.states ih.1 ih.2 (operation.run_mem_states world), ih.2⟩
  | @located world after layouts base layout h hrun ih =>
    have hlocate : Available layouts (locate base) := .locate base
    have hafter := hlocate.states ih.1 ih.2 ((locate base).run_mem_states world)
    rw [hrun] at hafter
    exact ⟨hafter, List.forall_mem_cons.2 ⟨Testbed.founded_of_locate ih.1.wellFormed hrun, ih.2⟩⟩
  | changed h hspace hdiversion ih =>
    refine ⟨⟨hspace ▸ ih.1.wellFormed, hdiversion, hspace ▸ ih.1.pages, ?_, ?_⟩, ih.2⟩
    · simp [Reported]
    · simp [openRange]

/-- A well-formed memory stays well-formed: with every orderly request, however it ends, and so in every state that operations go
through, one after the other. -/
theorem wellFormed_kept :
    (∀ (machine : Machine) (request : Request), machine.space.WellFormed → machine.Orderly request →
      (Kernel.serve request machine).2.space.WellFormed) ∧
    ∀ (start world : World Testbed) (layouts : List Layout) {α : Type} (operation : Engine α), start.kernel.machine.space.WellFormed →
      (∀ diverted ∈ start.kernel.machine.diversion, diverted % pageBytes = 0) → ProceedsTo start world layouts →
        Available layouts operation → ∀ state ∈ operation.states world.kernel, state.machine.space.WellFormed := by
  refine ⟨fun _ _ => Machine.wellFormed_serve, ?_⟩
  intro start world layouts _ operation hwf hdiversion h havailable state hstate
  have hstart : start.kernel.Exclusive start.kernel.machine.space [] :=
    ⟨hwf, hdiversion, fun _ _ hp _ _ => hp, by simp [Reported], by simp [openRange]⟩
  obtain ⟨hworld, hlayouts⟩ := h.settled hstart
  exact (havailable.states hworld hlayouts hstate).wellFormed

/-- The small process is located, and the shadow image of what was found is built, but the code cannot be copied. The memory is well-formed
all along, and also behind one byte that is diverted to the end of the data. -/
theorem wellFormed_kept_threePages : ∃ after,
    (locate Space.imageBase).run (.threePages ⟨.copy, 0, .failure⟩) = (.done Layout.threePages, after) ∧
      (∀ state ∈ (buildShadow Layout.threePages).states after.kernel, state.machine.space.WellFormed) ∧
        (Kernel.serve (.allocate (.fixed 1) 1) Machine.threePagesDiverted).2.space.WellFormed := by
  obtain ⟨after, hrun⟩ : ∃ after, (locate Space.imageBase).run (.threePages ⟨.copy, 0, .failure⟩) =
      (.done Layout.threePages, after) := Program.exists_run_eq (by decide +kernel)
  have horderly : Machine.threePagesDiverted.Orderly (.allocate (.fixed 1) 1) := by
    refine ⟨Nat.one_pos, ?_⟩
    rintro _ ⟨⟩
    decide
  obtain ⟨hserve, hstates⟩ := wellFormed_kept
  refine ⟨after, hrun, ?_, hserve _ _ Space.wellFormed_threePages horderly⟩
  exact hstates _ after [Layout.threePages] _ Space.wellFormed_threePages (by rintro _ ⟨⟩) (.located .start hrun)
    (.build List.mem_cons_self)

end LivePatch
