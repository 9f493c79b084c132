import LivePatch.Proofs.Engine.Survey
import LivePatch.Proofs.Executability
import LivePatch.Proofs.Simulation.Upkeep
import LivePatch.Proofs.Space.Protections

/-!
# Writable or executable

No operation ever makes a page writable and executable at once, at no moment of it and however it fails. Pages are opened for
writing, filled, and closed again; new memory is open and not executable. And what fills memory, a copy or a write, goes to pages
that an earlier request opened and that nothing has closed since.
-/

namespace LivePatch

open Program (heeds_request heeds_attempt heeds_require_bind heeds_ofOutcome_bind)

/-! ## What is open -/

/-- The range that is open behind an exchange, with `range?` open before it: opening pages opens their range, filling memory leaves
it open, and nothing else is relied on to do so. -/
def Exchange.opening (range? : Option (Address × Nat)) : Exchange → Option (Address × Nat)
  | ⟨.protect base size protection, .ok ()⟩ => if protection = .readWrite then some (base, size) else none
  | ⟨.copy .., _⟩ | ⟨.write .., _⟩ => range?
  | _ => none

/-- The range that is open behind exchanges. -/
def openRange (es : List Exchange) : Option (Address × Nat) := es.foldl Exchange.opening none

/-- The range lies in the one that is open. -/
def InOpenRange (es : List Exchange) (a : Address) (n : Nat) : Prop :=
  ∃ base size, openRange es = some (base, size) ∧ base ≤ a ∧ a + n ≤ base + size

@[simp] theorem openRange_concat (es : List Exchange) (e : Exchange) : openRange (es ++ [e]) = e.opening (openRange es) :=
  List.foldl_append

/-- The region is one that the kernel reported. -/
def Reported (es : List Exchange) (region : Region) : Prop := ∃ a, ⟨.region a, .ok region⟩ ∈ es

theorem reported_concat {es : List Exchange} {e : Exchange} {region : Region} :
    Reported (es ++ [e]) region ↔ Reported es region ∨ ∃ a, e = ⟨.region a, .ok region⟩ := by
  simp only [Reported, List.mem_append, List.mem_singleton, exists_or, eq_comm]

/-- A request that makes no page writable and executable: pages are protected in one of two ways, memory is mapped in the size of
regions that were reported, and only what is open is filled. -/
def Request.Exclusive (es : List Exchange) : Request → Prop
  | .protect _ _ protection => protection = .readWrite ∨ protection = .readExecute
  | .allocate .anywhere size => ∃ region, Reported es region ∧ region.size ≤ size
  | .allocate (.fixed base) size => ∃ region, Reported es region ∧ region.base = base ∧ region.size = size
  | .copy _ size destination => InOpenRange es destination size
  | .write a bytes => InOpenRange es a bytes.size
  | _ => True

/-- What holds all along a run that started in the memory `start`, behind the exchanges: no page became writable and executable, and
the range that is open is. -/
structure Testbed.Exclusive (start : Space) (es : List Exchange) (bed : Testbed) : Prop where
  wellFormed : bed.machine.space.WellFormed
  diversion : ∀ diverted ∈ bed.machine.diversion, diverted % pageBytes = 0
  pages : ∀ a p, bed.machine.space.PageAt a p → p.write → p.execute → start.PageAt a p
  regions : ∀ region, Reported es region → region.base % pageBytes = 0 ∧ 0 < region.size
  opened : ∀ base size, openRange es = some (base, size) →
    ∀ a, base ≤ a → a < base + size → bed.machine.space.protectionAt a = some .readWrite

namespace Testbed.Exclusive

variable {start : Space} {es : List Exchange} {bed bed' : Testbed} {request : Request}

/-- A step keeps what holds if it does so with the memory, the reports and the open range. -/
theorem follows {es' : List Exchange} (h : bed.Exclusive start es) (h' : bed.Follows bed') (hwf : bed'.machine.space.WellFormed)
    (hpages : ∀ a p, bed'.machine.space.PageAt a p → p.write → p.execute → bed.machine.space.PageAt a p)
    (hregions : ∀ region, Reported es' region → Reported es region ∨ region.base % pageBytes = 0 ∧ 0 < region.size)
    (hopened : ∀ base size, openRange es' = some (base, size) →
      ∀ a, base ≤ a → a < base + size → bed'.machine.space.protectionAt a = some .readWrite) : bed'.Exclusive start es' where
  wellFormed := hwf
  diversion := by
    intro diverted hdiverted
    rcases h'.machine.diversion with hsame | hnone
    · exact h.diversion diverted (hsame ▸ hdiverted)
    · rw [hnone] at hdiverted
      cases hdiverted
  pages := fun a p hp hwrite hexecute => h.pages a p (hpages a p hp hwrite hexecute) hwrite hexecute
  regions := fun region hregion => (hregions region hregion).elim (h.regions region) id
  opened := hopened

/-- A request that leaves the memory as it is keeps what holds, if no range is open that was not. -/
theorem still {es' : List Exchange} (h : bed.Exclusive start es) (h' : bed.Follows bed')
    (hspace : bed'.machine.space = bed.machine.space)
    (hregions : ∀ region, Reported es' region → Reported es region ∨ region.base % pageBytes = 0 ∧ 0 < region.size)
    (hopening : ∀ range, openRange es' = some range → openRange es = some range) : bed'.Exclusive start es' := by
  refine h.follows h' (hspace ▸ h.wellFormed) (fun a p hp _ _ => hspace ▸ hp) hregions fun base size hopen => ?_
  rw [hspace]
  exact h.opened base size (hopening _ hopen)

/-- A region of a memory that is well-formed starts on a page boundary and is not empty. -/
theorem whole_of_region {space : Space} {a : Address} {region : Region} (h : space.WellFormed)
    (hregion : space.region a = .done region) : region.base % pageBytes = 0 ∧ 0 < region.size := by
  obtain ⟨m, hm, hbase, hsize⟩ := Space.mem_of_region_eq_done hregion
  rw [hbase, hsize]
  exact ⟨(h.mappings m hm).aligned, (h.mappings m hm).size_pos⟩

/-- Such a request is orderly: the regions that were reported are not empty and stand on page boundaries. -/
theorem orderly (h : bed.Exclusive start es) (hrequest : request.Exclusive es) : bed.machine.Orderly request := by
  cases request with
  | allocate placement size =>
    cases placement with
    | anywhere =>
      obtain ⟨region, hreported, hsize⟩ := hrequest
      exact ⟨Nat.lt_of_lt_of_le (h.regions region hreported).2 hsize, nofun⟩
    | fixed a =>
      obtain ⟨region, hreported, rfl, rfl⟩ := hrequest
      refine ⟨(h.regions region hreported).2, fun actual hplacement => ?_⟩
      rcases Machine.fixed_of_divert hplacement with rfl | hdiverted
      · exact (h.regions region hreported).1
      · exact h.diversion actual hdiverted
  | _ => trivial

/-- New memory for regions that were reported keeps what holds. -/
theorem allocate {placement : Placement} {size : Nat} {reply : Except KernelCode Address} (h : bed.Exclusive start es)
    (hrequest : (Request.allocate placement size).Exclusive es) :
    (Kernel.serve (.allocate placement size) bed).2.Exclusive start (es ++ [⟨.allocate placement size, reply⟩]) := by
  have hregions : ∀ region, Reported (es ++ [⟨.allocate placement size, reply⟩]) region →
      Reported es region ∨ region.base % pageBytes = 0 ∧ 0 < region.size := by
    intro region hregion
    refine Or.inl ((reported_concat.1 hregion).resolve_right ?_)
    rintro ⟨a, ha⟩
    cases ha
  have hclosed : openRange (es ++ [⟨.allocate placement size, reply⟩]) = none := by
    simp [Exchange.opening]
  refine h.follows (follows_serve _ bed) (wellFormed_serve h.wellFormed (h.orderly hrequest)) (fun a p hp _ hexecute => ?_)
    hregions (by simp [hclosed])
  rcases Machine.space_allocate bed.machine placement size with hsame | ⟨rounded, base, -, hallocate⟩
  · exact hsame ▸ hp
  · rcases Space.pageAt_of_allocate hallocate hp with rfl | hp
    · cases hexecute
    · exact hp

/-- Filling memory keeps what holds, and what is open stays open. -/
theorem fill {es' : List Exchange} {a : Address} {bytes : Bytes} (h : bed.Exclusive start es) (h' : bed.Follows bed')
    (hwf : bed'.machine.space.WellFormed) (hdone : bed.machine.space.store a bytes = .done bed'.machine.space)
    (hregions : ∀ region, Reported es' region → Reported es region ∨ region.base % pageBytes = 0 ∧ 0 < region.size)
    (hopening : openRange es' = openRange es) : bed'.Exclusive start es' := by
  refine h.follows h' hwf (fun b q hq _ _ => Space.pageAt_of_store hdone hq) hregions ?_
  rw [hopening]
  exact fun base size hopen b hb hb' => h.wellFormed.protectionAt_of_store hdone (h.opened base size hopen b hb hb')

/-- Whatever a request of that kind is answered, what holds is kept. -/
theorem serve (h : bed.Exclusive start es) (hrequest : request.Exclusive es) :
    (∀ reply, (Kernel.serve request bed).1 = some reply →
      (Kernel.serve request bed).2.Exclusive start (es ++ [⟨request, reply⟩])) ∧
        ((Kernel.serve request bed).1 = none → (Kernel.serve request bed).2.Exclusive start es) := by
  obtain ⟨htakes, hcrash⟩ := takes_serve bed request
  have hfollows := follows_serve request bed
  have hwf := wellFormed_serve h.wellFormed (h.orderly hrequest)
  refine ⟨fun reply hreply => ?_, fun hnone => h.still hfollows (hcrash hnone) (fun _ => Or.inl) fun _ => id⟩
  have hnext := htakes reply hreply
  have hregions : (∀ a, request ≠ .region a) → ∀ region, Reported (es ++ [⟨request, reply⟩]) region →
      Reported es region ∨ region.base % pageBytes = 0 ∧ 0 < region.size := by
    intro hne region hregion
    refine Or.inl ((reported_concat.1 hregion).resolve_right ?_)
    rintro ⟨a, ha⟩
    exact hne a (congrArg Exchange.request ha)
  cases request with
  | region a =>
    refine h.still hfollows hnext (fun region hregion => ?_) (by simp [Exchange.opening])
    refine (reported_concat.1 hregion).imp_right ?_
    rintro ⟨a', ha'⟩
    cases ha'
    exact whole_of_region h.wellFormed (region_of_serve hreply)
  | read | threads | currentThread | release | suspend | resume | flush =>
    exact h.still hfollows hnext (hregions nofun) (by simp [Exchange.opening])
  | allocate placement size => exact h.allocate hrequest
  | deallocate a n =>
    cases reply with
    | error code => exact h.still hfollows hnext (hregions nofun) (by simp [Exchange.opening])
    | ok =>
      exact h.follows hfollows hwf (fun a p hp _ _ => Space.pageAt_of_deallocate hnext hp) (hregions nofun)
        (by simp [Exchange.opening])
  | protect a n p =>
    cases reply with
    | error code => exact h.still hfollows hnext (hregions nofun) (by simp [Exchange.opening])
    | ok =>
      refine h.follows hfollows hwf (fun b q hq hwrite hexecute => ?_) (hregions nofun) ?_
      · rcases Space.pageAt_of_protect hnext hq with rfl | hq
        · rcases hrequest with rfl | rfl
          · cases hexecute
          · cases hwrite
        · exact hq
      · intro base size hopen b hb hb'
        rw [openRange_concat, Exchange.opening] at hopen
        split at hopen
        · rename_i hp
          cases hopen
          exact h.wellFormed.protectionAt_of_protect (hp ▸ hnext) hb hb'
        · cases hopen
  | copy s n d =>
    cases reply with
    | error code => exact h.still hfollows hnext (hregions nofun) (by simp [Exchange.opening])
    | ok =>
      obtain ⟨bytes, hstore⟩ := Space.store_of_copy_eq_done hnext
      exact h.fill hfollows hwf hstore (hregions nofun) (openRange_concat ..)
  | write a bytes =>
    cases reply with
    | error code => exact h.still hfollows hnext (hregions nofun) (by simp [Exchange.opening])
    | ok => exact h.fill hfollows hwf hnext (hregions nofun) (openRange_concat ..)

end Testbed.Exclusive

/-! ## The requests of the operations -/

section

variable {es : List Exchange} {host : Host} {target : Address} {bytes : Bytes} {image : Image} {ε α : Type}

theorem Request.OfSweep.exclusive {kind : ThreadRequest} {request : Request} (h : request.OfSweep kind) :
    request.Exclusive es := by
  cases request with
  | threads | currentThread | release | suspend | resume => trivial
  | _ => exact h.elim

theorem Request.IsRead.exclusive {request : Request} (h : request.IsRead) : request.Exclusive es := by
  cases request with
  | read => trivial
  | _ => exact h.elim

/-- A patch writes to pages that it opened. -/
theorem exclusive_writeCode {span : PageSpan} (hstart : span.start ≤ target)
    (hstop : target + bytes.size ≤ span.start + span.size) : (writeCode target bytes span).Heeds Request.Exclusive es := by
  have hclose : ∀ es, Request.Exclusive es (.protect span.start span.size .readExecute) := fun _ => Or.inr rfl
  refine ⟨Or.inl rfl, ?_⟩
  rintro (code | ⟨⟩)
  · trivial
  · have hopen : InOpenRange (es ++ [⟨.protect span.start span.size .readWrite, .ok ()⟩]) target bytes.size :=
      ⟨span.start, span.size, by simp [Exchange.opening], hstart, hstop⟩
    refine ⟨hopen, ?_⟩
    rintro (code | ⟨⟩)
    all_goals exact ⟨hclose _, fun reply => by cases reply <;> trivial⟩

/-- Regions are copied to where memory is open for all of them. -/
theorem exclusive_copyParts {base : Address} {parts : List PlacedRegion}
    (hopen : ∀ placed ∈ parts, InOpenRange es (base + placed.offset) placed.region.size) :
    (copyParts base parts).Heeds Request.Exclusive es := by
  induction parts generalizing es with
  | nil => trivial
  | cons placed rest ih =>
    rw [List.forall_mem_cons] at hopen
    refine heeds_require_bind fun destination hdestination => ?_
    obtain ⟨rfl, -⟩ := Word.add_eq_some_iff.1 hdestination
    refine ⟨hopen.1, ?_⟩
    rintro (code | ⟨⟩)
    · trivial
    · refine ih fun placed' hplaced' => ?_
      obtain ⟨base', size, hrange, hbounds⟩ := hopen.2 placed' hplaced'
      exact ⟨base', size, by simpa [Exchange.opening] using hrange, hbounds⟩

/-- Shadow images are filled while they are open. -/
theorem exclusive_fillShadow {layout : Layout} {base : Address} :
    (fillShadow layout base layout.extent).Heeds Request.Exclusive es := by
  refine ⟨Or.inl rfl, ?_⟩
  rintro (code | ⟨⟩)
  · trivial
  · refine heeds_require_bind fun parts hparts => Program.Heeds.bind (exclusive_copyParts fun placed hplaced => ?_) fun _ _ => ?_
    · obtain ⟨offset, hoffset, rfl⟩ := Option.map_eq_some_iff.1 hparts
      obtain ⟨rfl, -⟩ := Word.add_eq_some_iff.1 hoffset
      refine ⟨base, layout.extent, by simp [Exchange.opening], Nat.le_add_right _ _, ?_⟩
      simp only [List.mem_cons, List.not_mem_nil, or_false] at hplaced
      rw [Layout.extent]
      rcases hplaced with rfl | rfl | rfl
      all_goals
        dsimp only
        lia
    · exact Program.Heeds.during (heeds_request.2 (Or.inr rfl))

/-- Memory for a shadow image is mapped only for a layout that was found. -/
theorem exclusive_buildShadow {layout : Layout} (hcode : Reported es layout.code) :
    (buildShadow layout).Heeds Request.Exclusive es := by
  refine heeds_require_bind fun size hsize => ?_
  cases Layout.size_eq_some hsize
  have hmap : Request.Exclusive es (.allocate .anywhere layout.extent) := ⟨layout.code, hcode, by rw [Layout.extent]; lia⟩
  refine Program.Heeds.bind (Program.Heeds.during (heeds_request.2 hmap)) fun base es' => ?_
  refine Program.Heeds.bind (heeds_attempt.2 exclusive_fillShadow) fun result es'' => ?_
  cases result with
  | ok => exact heeds_require_bind fun _ _ => trivial
  | error error =>
    have hdiscard : ∀ es, (discardShadow base layout.extent).Heeds Request.Exclusive es :=
      fun es => ⟨trivial, fun result => by cases result <;> trivial⟩
    exact (hdiscard _).bind fun _ _ => trivial

/-- The code is put back while its memory is open. -/
theorem exclusive_refillCode {code : Region} {shadowBase : Address} :
    (refillCode code shadowBase).Heeds Request.Exclusive es := by
  refine ⟨Or.inl rfl, ?_⟩
  rintro (cause | ⟨⟩)
  · trivial
  · refine ⟨⟨code.base, code.size, by simp [Exchange.opening], Nat.le_refl _, Nat.le_refl _⟩, ?_⟩
    rintro (cause | ⟨⟩)
    · trivial
    · exact ⟨Or.inr rfl, fun reply => by cases reply <;> trivial⟩

/-- New memory for the code has the size of the code that was found. -/
theorem exclusive_replaceCode {code : Region} {shadowBase : Address} (hcode : Reported es code) :
    (replaceCode code shadowBase).Heeds Request.Exclusive es := by
  refine Program.Heeds.bind (Program.Heeds.during (heeds_request.2 trivial)) fun _ es' => ?_
  have hmap : Request.Exclusive (es ++ es') (.allocate (.fixed code.base) code.size) :=
    ⟨code, hcode.imp fun _ => List.mem_append_left es', rfl, rfl⟩
  refine Program.Heeds.bind (Program.Heeds.during (heeds_request.2 hmap)) fun actual _ => ?_
  split
  · trivial
  · exact exclusive_refillCode

theorem exclusive_patch : (image.patch host target bytes).Heeds Request.Exclusive es := by
  rw [Image.patch]
  split
  · trivial
  · refine heeds_require_bind fun inside hinside => ?_
    split
    · refine Program.Heeds.reporting (Program.Heeds.bind (heeds_require_bind fun span hspan => ?_) fun _ es' => ?_)
      · obtain ⟨hstart, hstop⟩ := PageSpan.subset_of_covering hspan
        exact heeds_runRoutine (fun _ _ _ h => h.exclusive) fun _ => exclusive_writeCode hstart hstop
      · refine Program.Heeds.bind (heeds_request.2 trivial) fun _ _ => ?_
        split
        · exact ((asks_verify trivial).heeds fun _ _ => Request.IsRead.exclusive).bind fun _ _ => trivial
        · trivial
    · exact heeds_require_bind fun _ _ => Program.Heeds.reporting trivial

/-- Locating only asks for regions. -/
theorem exclusive_locate {base : Address} : (locate base).Heeds Request.Exclusive es := by
  have hlocate : (locate base).Asks fun request => ∃ a, request = .region a := asks_locate_of fun a => ⟨a, rfl⟩
  refine hlocate.heeds ?_
  rintro es _ ⟨a, rfl⟩
  trivial

/-- Every operation that patches keeps pages writable or executable. -/
theorem Image.Attempts.exclusive {β : Type} {operation : Engine α} {attempt : Engine β}
    (h : image.Attempts host operation attempt) : operation.Heeds Request.Exclusive es := by
  cases h with
  | patch => exact exclusive_patch
  | guarded target bytes =>
    exact ((asks_save trivial).heeds fun _ _ => Request.IsRead.exclusive).bind fun saved _ => exclusive_patch.bind fun _ _ => trivial
  | release guard himage =>
    refine Program.Heeds.bind (heeds_attempt.2 exclusive_patch) fun result _ => ?_
    cases result <;> trivial

/-- So does every preparation. -/
theorem exclusive_prepare {attempted : Bool} {imageBase : Address} {pageSize : Nat} {config : Config} :
    (Image.prepare host attempted imageBase pageSize config).Heeds Request.Exclusive es := by
  unfold Image.prepare
  split
  · trivial
  · refine Program.Heeds.reporting ?_
    refine Program.Heeds.bind_yields exclusive_locate (yields_locate.mono ?_)
    rintro _ located ⟨_, -, hwalks⟩ layout rfl
    obtain ⟨rfl, rfl⟩ := hwalks
    have hreported : ∀ later, Reported (es ++ (layout.locating (config.imageBase.getD imageBase)).map Stage.exchange ++ later)
        layout.code := fun later => ⟨config.imageBase.getD imageBase, by simp [Layout.locating]⟩
    refine heeds_ofOutcome_bind fun _ => heeds_ofOutcome_bind fun _ => ?_
    refine Program.Heeds.bind_yields (exclusive_buildShadow ?_) ((yields_buildShadow layout).mono ?_)
    · simpa using hreported []
    · rintro _ built ⟨_, hbuilt⟩ shadow rfl
      obtain ⟨rfl, -⟩ := hbuilt
      refine Program.Heeds.bind (heeds_runRoutine (fun _ _ _ h => h.exclusive) fun suspended => ?_) fun _ _ => ?_
      · refine exclusive_replaceCode ?_
        rw [List.append_assoc _ built]
        exact hreported _
      · exact Program.Heeds.bind (heeds_request.2 trivial) fun _ _ => heeds_require_bind fun _ _ => trivial

end

/-! ## Operations one after the other -/

/-- The operations of the engine: to prepare an image, to patch one, with a guard or without, and to release a guard. -/
inductive IsOperation : {α : Type} → Engine α → Prop where
  | prepare (host : Host) (attempted : Bool) (imageBase : Address) (pageSize : Nat) (config : Config) :
      IsOperation (Image.prepare host attempted imageBase pageSize config)
  | attempt {α β : Type} {image : Image} {host : Host} {operation : Engine α} {attempt : Engine β}
      (h : image.Attempts host operation attempt) : IsOperation operation

/-- The worlds that operations lead to from `start` on, however each of them ends. In between failures may be ordered, threads may
come and go, and an allocation may be diverted to a page boundary; only the memory is as it was left. -/
inductive OperatesTo (start : World Testbed) : World Testbed → Prop where
  | start : OperatesTo start start
  | operated {α : Type} {world : World Testbed} {operation : Engine α} (h : OperatesTo start world)
      (hoperation : IsOperation operation) : OperatesTo start (operation.run world).2
  | changed {world world' : World Testbed} (h : OperatesTo start world)
      (hspace : world'.kernel.machine.space = world.kernel.machine.space)
      (hdiversion : ∀ diverted ∈ world'.kernel.machine.diversion, diverted % pageBytes = 0) : OperatesTo start world'

/-- The range that an exchange filled, if it filled one. -/
def Exchange.filled? : Exchange → Option (Address × Nat)
  | ⟨.copy _ size destination, .ok ()⟩ => some (destination, size)
  | ⟨.write a bytes, .ok ()⟩ => some (a, bytes.size)
  | _ => none

theorem IsOperation.exclusive {α : Type} {operation : Engine α} {es : List Exchange} (h : IsOperation operation) :
    operation.Heeds Request.Exclusive es := by
  cases h with
  | prepare => exact exclusive_prepare
  | attempt h => exact h.exclusive

/-- What holds behind some exchanges holds behind none, too. -/
theorem Testbed.Exclusive.settled {start : Space} {es : List Exchange} {bed : Testbed} (h : bed.Exclusive start es) :
    bed.Exclusive start [] where
  wellFormed := h.wellFormed
  diversion := h.diversion
  pages := h.pages
  regions := by simp [Reported]
  opened := by simp [openRange]

theorem OperatesTo.settled {start world : World Testbed} (h : OperatesTo start world)
    (hstart : start.kernel.Exclusive start.kernel.machine.space []) :
    world.kernel.Exclusive start.kernel.machine.space [] := by
  induction h with
  | start => exact hstart
  | @operated _ world operation h hoperation ih =>
    obtain ⟨es, hes⟩ := hoperation.exclusive.states (fun _ _ _ hrequest h => h.serve hrequest) ih _ (operation.run_mem_states world)
    exact hes.settled
  | changed h hspace hdiversion ih =>
    exact ⟨hspace ▸ ih.wellFormed, hdiversion, hspace ▸ ih.pages, by simp [Reported], by simp [openRange]⟩

/-- Operations on a memory in order never make a page writable and executable at once: in every state that one of them goes through,
a page that is both was so, at the same address, before the first of them. And when one of them fills a range, every page of the
range can be read and written, and not executed, at that moment. -/
theorem OperatesTo.writable_or_executable {start world : World Testbed} {α : Type} {operation : Engine α}
    (h : OperatesTo start world) (hoperation : IsOperation operation) (hwf : start.kernel.machine.space.WellFormed)
    (hs : start.kernel.machine.space.Addressable)
    (hdiversion : ∀ diverted ∈ start.kernel.machine.diversion, diverted % pageBytes = 0) :
    (∀ state ∈ operation.states world.kernel, ∀ a p, state.machine.space.protectionAt a = some p → p.write → p.execute →
      start.kernel.machine.space.protectionAt a = some p) ∧
    ∀ ahead e behind base size, operation.exchanges world.kernel = ahead ++ e :: behind → e.filled? = some (base, size) →
      ∃ moment ∈ operation.states world.kernel, Program.Served world.kernel ahead moment ∧
        ∀ a, base ≤ a → a < base + size → moment.machine.space.protectionAt a = some .readWrite := by
  have hupholds : Program.Upholds Request.Exclusive (Testbed.Exclusive start.kernel.machine.space) :=
    fun _ _ _ hrequest h => h.serve hrequest
  have hsettled := h.settled ⟨hwf, hdiversion, fun _ _ hp _ _ => hp, by simp [Reported], by simp [openRange]⟩
  refine ⟨fun state hstate a p hp hwrite hexecute => ?_, fun ahead e behind base size hes hfilled => ?_⟩
  · obtain ⟨es, hexclusive⟩ := hoperation.exclusive.states hupholds hsettled state hstate
    rw [hwf.protectionAt_eq_some_iff hs]
    exact hexclusive.pages a p (Space.pageAt_of_protectionAt hp) hwrite hexecute
  · obtain ⟨moment, hmoment, hserved, hexclusive, hrequest⟩ := hoperation.exclusive.moment hupholds hsettled hes
    have hopen : InOpenRange ahead base size := by
      unfold Exchange.filled? at hfilled
      split at hfilled
      all_goals cases hfilled
      all_goals exact hrequest
    obtain ⟨base', size', hrange, hbase, hsize⟩ := hopen
    exact ⟨moment, hmoment, hserved, fun a ha ha' => hexclusive.opened base' size' hrange a (by lia) (by lia)⟩

/-- The byte that a patch of the small process writes goes to a page that is open, also if that page cannot be closed again; and no
page becomes writable and executable that was not so before the process was prepared. -/
theorem OperatesTo.writable_or_executable_threePages : ∃ (ahead behind : List Exchange) (e : Exchange) (moment : Testbed),
    ((Image.threePages {}).patch .other Space.imageBase #[0xcc]).exchanges
        (World.preparedPages ⟨.protect, 1, .protectionFailure⟩).kernel = ahead ++ e :: behind ∧
      e.filled? = some (Space.imageBase, 1) ∧
      Program.Served (World.preparedPages ⟨.protect, 1, .protectionFailure⟩).kernel ahead moment ∧
      moment.machine.space.protectionAt Space.imageBase = some .readWrite ∧
      ∀ state ∈ ((Image.threePages {}).patch .other Space.imageBase #[0xcc]).states
        (World.preparedPages ⟨.protect, 1, .protectionFailure⟩).kernel, ∀ a p, state.machine.space.protectionAt a = some p →
          p.write → p.execute → Space.protectionAt Space.threePages a = some p := by
  obtain ⟨start, hprepared, hspace⟩ := @Testbed.prepare_threePages {} rfl rfl
  have hoperates : OperatesTo { kernel := .threePages } (World.preparedPages ⟨.protect, 1, .protectionFailure⟩) := by
    refine .changed (.operated .start (.prepare .other false Space.imageBase pageBytes {})) ?_ (by decide)
    rw [hprepared]
    exact hspace.symm
  have hpatch : IsOperation ((Image.threePages {}).patch .other Space.imageBase #[0xcc]) := .attempt (.patch Space.imageBase #[0xcc])
  obtain ⟨hpages, hfilled⟩ := OperatesTo.writable_or_executable hoperates hpatch Space.wellFormed_threePages
    Space.addressable_threePages (by decide)
  have hwrite : ((((Image.threePages {}).patch .other Space.imageBase #[0xcc]).exchanges
      (World.preparedPages ⟨.protect, 1, .protectionFailure⟩).kernel).drop 4).head?.bind Exchange.filled? =
        some (Space.imageBase, 1) := by decide +kernel
  generalize hes : ((Image.threePages {}).patch .other Space.imageBase #[0xcc]).exchanges
    (World.preparedPages ⟨.protect, 1, .protectionFailure⟩).kernel = es at *
  cases hbehind : es.drop 4 with
  | nil => simp [hbehind] at hwrite
  | cons e behind =>
    have hsplit : es = es.take 4 ++ e :: behind := by rw [← hbehind, List.take_append_drop]
    have he : e.filled? = some (Space.imageBase, 1) := by simpa [hbehind] using hwrite
    obtain ⟨moment, -, hserved, hopen⟩ := hfilled _ e behind _ _ hsplit he
    exact ⟨_, behind, e, moment, hsplit, he, hserved, hopen _ (Nat.le_refl _) (Nat.lt_succ_self _), hpages⟩

end LivePatch
