import LivePatch.Proofs.Engine.Repetition
import LivePatch.Proofs.Session.Plain

/-!
# Sessions refine a plain byte array

A session that prepares a process again and again, patches its code through any of the images made so far, and places and
gives up guards, does to the code region what the plain array does. The invariant has two halves: on the test bed the process
can be prepared and patched still, and its code holds the bytes of the array; in the books of the session every image and
every guard belongs to that code.
-/

namespace LivePatch

/-- The test bed half of the invariant: there is room for so many more preparations, nothing is left to go wrong, and the
code, which is this mapping now, has these bytes. -/
structure Testbed.Ready (bed : Testbed) (before : Space) (code constants data : Mapping) (imageBase : Address) (left : Nat)
    (bytes : Bytes) (current : Mapping) : Prop where
  grounds : bed.machine.space.Grounds before code constants data left current
  quiet : bed.Quiet
  undiverted : bed.machine.diversion = none
  pageSize : bed.pageSize = pageBytes
  imageBase : bed.imageBase = imageBase
  bytes : current.bytes = bytes

/-- A patch changes the bytes of the code, and leaves the test bed ready. -/
theorem Testbed.Ready.patched {bed bed' : Testbed} {before : Space} {code constants data current : Mapping}
    {imageBase target : Address} {left : Nat} {bytes new : Bytes} {image : Image}
    (h : bed.Ready before code constants data imageBase left bytes current) (hserves : bed.Serves image current)
    (haccepts : image.code.Accepts target new.size) (hfollows : bed.Follows bed')
    (hspace : bed'.machine.space = bed.machine.space.update (current.withBytes target new)) :
    bed'.Ready before code constants data imageBase left (bytes.splice (target - code.base) new)
      (current.withBytes target new) where
  grounds := hspace ▸ h.grounds.exchange (hserves.sameShape_withBytes haccepts) h.grounds.readable
  quiet := h.quiet.follows hfollows
  undiverted := hfollows.undiverted h.undiverted
  pageSize := hfollows.pageSize.trans h.pageSize
  imageBase := hfollows.imageBase.trans h.imageBase
  bytes := by rw [Mapping.withBytes, h.bytes, h.grounds.shape.base]

namespace Session

/-- The operations that a plain array has: those of patching, and preparations that tolerate threads that refuse and find the
code of the process. -/
def Operation.IsPlain (before : Space) (code : Mapping) (imageBase : Address) : Operation → Prop
  | .prepare config => config.strictThreads = false ∧ before.CodeAt (config.imageBase.getD imageBase) code
  | .patch .. | .guard .. | .release _ => True
  | _ => False

/-- How often the process is prepared. -/
def preparations : List Operation → Nat
  | [] => 0
  | .prepare _ :: rest => preparations rest + 1
  | _ :: rest => preparations rest

namespace State

section

variable {κ α : Type} [Kernel κ] {state : State κ} {x : Engine α}

/-- A program that cannot crash is performed, or answers with its error. -/
theorem perform_of_wp (keep : α → State κ → Answer × State κ) {Q : α → κ → Prop} {E : Error → κ → Prop}
    (h : x.wp Q E (fun _ => False) state.world.kernel) :
    (∃ value world, state.perform x keep = keep value { state with world := world } ∧ Q value world.kernel) ∨
      ∃ error world, state.perform x keep = (.failure error, { state with world := world }) ∧ E error world.kernel := by
  rw [Program.wp_iff_run] at h
  rcases hrun : x.run state.world with ⟨value | error | _, world⟩
  · rw [hrun] at h
    exact Or.inl ⟨value, world, by rw [perform, hrun], h⟩
  · rw [hrun] at h
    exact Or.inr ⟨error, world, by rw [perform, hrun], h⟩
  · rw [hrun] at h
    exact h.elim

/-- A program that must end with a value is performed. -/
theorem perform_done (state : State κ) {x : Engine α} (keep : α → State κ → Answer × State κ) {Q : α → κ → Prop}
    (h : x.wp Q (fun _ _ => False) (fun _ => False) state.world.kernel) :
    ∃ value world, state.perform x keep = keep value { state with world := world } ∧ Q value world.kernel :=
  (perform_of_wp keep h).resolve_right fun ⟨_, _, _, h⟩ => h

end

/-- A session carries a plain array. -/
structure Carries (state : State Testbed) (before : Space) (code constants data : Mapping) (imageBase : Address) (left : Nat)
    (plain : Plain) (current : Mapping) : Prop where
  host : state.host = .other
  ready : state.world.kernel.Ready before code constants data imageBase left plain.code current
  sealed : 0 < state.images.size → ∀ p ∈ current.pages, p = .readExecute
  images : ∀ image ∈ state.images, image.Patches code
  guards : ∀ entry ∈ state.guards,
    0 < state.images.size ∧ entry.2.image.Patches code ∧ entry.2.image.code.Accepts entry.2.target entry.2.saved.size
  images_size : state.images.size = plain.images
  guards_eq : state.guards.mapValues Saved.ofGuard = plain.guards

namespace Carries

variable {state : State Testbed} {before : Space} {code constants data current : Mapping} {imageBase target : Address}
  {left i : Nat} {plain : Plain} {region : Region} {image : Image} {bytes : Bytes} {name : String}

/-- A session that carries a plain array shows it. -/
theorem shows (h : state.Carries before code constants data imageBase left plain current) (hbase : region.base = code.base)
    (hsize : region.size = code.size) : state.Shows region plain where
  code := by
    have hg := h.ready.grounds
    have hcurrent := hg.shape
    have hstop := hg.addressable current hg.mem
    exact Space.Holds.peek_eq ⟨hg.wellFormed, current, hg.mem, hcurrent.base.trans hbase.symm, hcurrent.size.trans hsize.symm,
      h.ready.bytes, hstop⟩
  images := h.images_size
  guards := h.guards_eq

/-- Once an image was made, patches are served through it. -/
theorem serves (h : state.Carries before code constants data imageBase left plain current) (himage : image.Patches code)
    (hmade : 0 < state.images.size) : state.world.kernel.Serves image current :=
  Testbed.serves_of_grounds h.ready.quiet h.ready.grounds himage (h.sealed hmade)

/-- After a patch the session carries the array with the patch. -/
theorem written (h : state.Carries before code constants data imageBase left plain current) (hbase : region.base = code.base)
    (himage : image.Patches code) (hmade : 0 < state.images.size) (haccepts : image.code.Accepts target bytes.size)
    {world : World Testbed} (hfollows : state.world.kernel.Follows world.kernel)
    (hspace : world.kernel.machine.space = state.world.kernel.machine.space.update (current.withBytes target bytes)) :
    { state with world := world }.Carries before code constants data imageBase left (plain.write region target bytes)
      (current.withBytes target bytes) where
  host := h.host
  ready := by
    rw [Plain.write, hbase]
    exact h.ready.patched (h.serves himage hmade) haccepts hfollows hspace
  sealed := h.sealed
  images := h.images
  guards := h.guards
  images_size := h.images_size
  guards_eq := h.guards_eq

/-- A failed patch leaves the session as it was. -/
theorem refused (h : state.Carries before code constants data imageBase left plain current) {world : World Testbed}
    (hkernel : world.kernel = state.world.kernel) :
    { state with world := world }.Carries before code constants data imageBase left plain current where
  host := h.host
  ready := hkernel ▸ h.ready
  sealed := h.sealed
  images := h.images
  guards := h.guards
  images_size := h.images_size
  guards_eq := h.guards_eq

/-- Giving up a guard puts its bytes back. -/
theorem perform_release (h : state.Carries before code constants data imageBase left plain current)
    (hbase : region.base = code.base) {guard : Guard} (hmade : 0 < state.images.size) (himage : guard.image.Patches code)
    (haccepts : guard.image.code.Accepts guard.target guard.saved.size) (answer : Answer) :
    ∃ world, state.perform (guard.release state.host) (fun _ state => (answer, state)) =
        (answer, { state with world := world }) ∧
      { state with world := world }.Carries before code constants data imageBase left
        (plain.write region guard.target guard.saved) (current.withBytes guard.target guard.saved) := by
  have hwp : (guard.release state.host).wp (fun _ bed => state.world.kernel.Follows bed ∧
      bed.machine.space = state.world.kernel.machine.space.update (current.withBytes guard.target guard.saved))
      (fun _ _ => False) (fun _ => False) state.world.kernel := by
    rw [h.host]
    exact (h.serves himage hmade).wp_release haccepts fun bed' hfollows hspace => ⟨hfollows, hspace⟩
  obtain ⟨_, world, hperform, hfollows, hspace⟩ := state.perform_done (fun _ state => (answer, state)) hwp
  exact ⟨world, hperform, h.written hbase himage hmade haccepts hfollows hspace⟩

/-- Where the code ends, for the test bed and for the array. -/
theorem stop_eq (h : state.Carries before code constants data imageBase left plain current) (hbase : region.base = code.base)
    (hsize : region.size = code.size) : current.stop = region.base + region.size := by
  rw [h.ready.grounds.shape.stop, Mapping.stop, hbase, hsize]

/-- An image that was made patches the code. -/
theorem image_cases (h : state.Carries before code constants data imageBase left plain current) (i : Nat) :
    (state.images[i]? = none ∧ ¬ i < plain.images) ∨
      ∃ image, state.images[i]? = some image ∧ i < plain.images ∧ 0 < state.images.size ∧ image.Patches code := by
  rw [← h.images_size]
  cases hi : state.images[i]? with
  | none => exact Or.inl ⟨rfl, by simpa using hi⟩
  | some image =>
    obtain ⟨hlt, himage⟩ := Array.getElem?_eq_some_iff.1 hi
    exact Or.inr ⟨image, rfl, hlt, Nat.zero_lt_of_lt hlt, h.images image (himage ▸ Array.getElem_mem hlt)⟩

/-- A patch is a patch of the array. -/
theorem operate_patch (h : state.Carries before code constants data imageBase left plain current)
    (hbase : region.base = code.base) (hsize : region.size = code.size) (i : Nat) (target : Address) (bytes : Bytes) :
    plain.Answers region (.patch i target bytes) (state.operate (.patch i target bytes)).1 ∧
      ∃ current', (state.operate (.patch i target bytes)).2.Carries before code constants data imageBase left
        (plain.step region (.patch i target bytes)) current' := by
  simp only [operate, Plain.Answers, Plain.step, Plain.Accepts, Plain.refusal]
  rcases h.image_cases i with ⟨hi, hlt⟩ | ⟨image, hi, hlt, hmade, himage⟩
  · simp only [hi, hlt, false_and, if_false]
    exact ⟨trivial, current, h⟩
  · have haccepts := himage.accepts_iff hbase hsize target bytes.size
    have hwp : (image.patch state.host target bytes).wp (fun _ bed => region.Accepts target bytes.size ∧
        state.world.kernel.Follows bed ∧
        bed.machine.space = state.world.kernel.machine.space.update (current.withBytes target bytes))
        (fun error bed => ¬ region.Accepts target bytes.size ∧
          error = .outOfRange target bytes.size region.base (region.base + region.size) ∧ bed = state.world.kernel)
        (fun _ => False) state.world.kernel := by
      rw [h.host]
      refine (h.serves himage hmade).wp_patch (fun hin bed' hfollows hspace => ⟨haccepts.1 hin, hfollows, hspace⟩)
        fun hout => ⟨fun hin => hout (haccepts.2 hin), ?_, rfl⟩
      rw [himage.base, ← hbase, h.stop_eq hbase hsize]
    rcases perform_of_wp (fun _ state => (.nothing, state)) hwp with
      ⟨_, world, hperform, hin, hfollows, hspace⟩ | ⟨_, world, hperform, hout, rfl, hkernel⟩
    · simp only [hi, hperform, hlt, hin, and_self, if_true, true_and]
      exact ⟨_, h.written hbase himage hmade (haccepts.2 hin) hfollows hspace⟩
    · simp only [hi, hperform, hlt, hout, and_false, if_true, if_false, true_and]
      exact ⟨current, h.refused hkernel⟩

/-- Keeping a guard under a name gives up the one that had the name. -/
theorem keepGuard (h : state.Carries before code constants data imageBase left plain current) (hbase : region.base = code.base)
    (hmade : 0 < state.images.size) (guard : Guard) (himage : guard.image.Patches code)
    (haccepts : guard.image.code.Accepts guard.target guard.saved.size) (name : String) :
    (state.keepGuard name guard).1 = .guard guard.target guard.saved ∧
      ∃ current', (state.keepGuard name guard).2.Carries before code constants data imageBase left
        (match plain.guards.get? name with
          | none => { plain with guards := plain.guards.put name (Saved.ofGuard guard) }
          | some old => { plain with guards := plain.guards.put name (Saved.ofGuard guard) }.write region old.target old.bytes)
        current' := by
  have hkept : { state with guards := state.guards.put name guard }.Carries before code constants data imageBase left
      { plain with guards := plain.guards.put name (Saved.ofGuard guard) } current :=
    { h with
      guards := fun entry hentry => by
        rcases Registry.mem_of_mem_put hentry with rfl | hentry
        · exact ⟨hmade, himage, haccepts⟩
        · exact h.guards entry hentry
      guards_eq := by rw [Registry.mapValues_put, h.guards_eq] }
  rw [State.keepGuard, ← h.guards_eq, Registry.get?_mapValues]
  cases hold : state.guards.get? name with
  | none => exact ⟨rfl, current, h.guards_eq ▸ hkept⟩
  | some old =>
    obtain ⟨-, hold, haccepts⟩ := h.guards _ (Registry.mem_of_get?_eq_some hold)
    obtain ⟨world, hperform, hcarries⟩ := hkept.perform_release hbase hmade hold haccepts (.guard guard.target guard.saved)
    simp only [hperform, Option.map_some]
    exact ⟨trivial, _, h.guards_eq ▸ hcarries⟩

/-- Giving up a guard is giving up that of the array. -/
theorem operate_release (h : state.Carries before code constants data imageBase left plain current)
    (hbase : region.base = code.base) (name : String) :
    plain.Answers region (.release name) (state.operate (.release name)).1 ∧
      ∃ current', (state.operate (.release name)).2.Carries before code constants data imageBase left
        (plain.step region (.release name)) current' := by
  simp only [operate, State.release, Plain.Answers, Plain.step, Plain.release, ← h.guards_eq, Registry.get?_mapValues]
  cases hguard : state.guards.get? name with
  | none => exact ⟨rfl, current, h⟩
  | some guard =>
    obtain ⟨hmade, himage, haccepts⟩ := h.guards _ (Registry.mem_of_get?_eq_some hguard)
    have herased : { state with guards := state.guards.erase name }.Carries before code constants data imageBase left
        { plain with guards := plain.guards.erase name } current :=
      { h with
        guards := fun entry hentry => h.guards entry (Registry.mem_of_mem_erase hentry)
        guards_eq := by rw [Registry.mapValues_erase, h.guards_eq] }
    obtain ⟨world, hperform, hcarries⟩ := herased.perform_release hbase hmade himage haccepts .nothing
    simp only [hperform, Option.map_some]
    exact ⟨rfl, _, h.guards_eq ▸ hcarries⟩

/-- A guarded patch is a guarded patch of the array. -/
theorem operate_guard (h : state.Carries before code constants data imageBase left plain current)
    (hbase : region.base = code.base) (hsize : region.size = code.size) (i : Nat) (name : String) (target : Address)
    (bytes : Bytes) :
    plain.Answers region (.guard i name target bytes) (state.operate (.guard i name target bytes)).1 ∧
      ∃ current', (state.operate (.guard i name target bytes)).2.Carries before code constants data imageBase left
        (plain.step region (.guard i name target bytes)) current' := by
  simp only [operate, Plain.Answers, Plain.step, Plain.Accepts, Plain.refusal]
  rcases h.image_cases i with ⟨hi, hlt⟩ | ⟨image, hi, hlt, hmade, himage⟩
  · simp only [hi, hlt, false_and, if_false]
    exact ⟨trivial, current, h⟩
  · have haccepts := himage.accepts_iff hbase hsize target bytes.size
    have hslice : current.bytesAt target bytes.size = plain.slice region target bytes.size := by
      rw [Mapping.bytesAt, Plain.slice, h.ready.bytes, h.ready.grounds.shape.base, hbase]
    have hwp : (image.guardedPatch state.host target bytes).wp (fun guard bed => region.Accepts target bytes.size ∧
        guard = { image, target, saved := current.bytesAt target bytes.size } ∧ state.world.kernel.Follows bed ∧
        bed.machine.space = state.world.kernel.machine.space.update (current.withBytes target bytes))
        (fun error bed => ¬ region.Accepts target bytes.size ∧
          error = .outOfRange target bytes.size region.base (region.base + region.size) ∧ bed = state.world.kernel)
        (fun _ => False) state.world.kernel := by
      rw [h.host]
      refine (h.serves himage hmade).wp_guardedPatch
        (fun hin bed' hfollows hspace => ⟨haccepts.1 hin, rfl, hfollows, hspace⟩)
        fun hout => ⟨fun hin => hout (haccepts.2 hin), ?_, rfl⟩
      rw [himage.base, ← hbase, h.stop_eq hbase hsize]
    rcases perform_of_wp (fun guard state => state.keepGuard name guard) hwp with
      ⟨_, world, hperform, hin, rfl, hfollows, hspace⟩ | ⟨_, world, hperform, hout, rfl, hkernel⟩
    · have hwritten := h.written hbase himage hmade (haccepts.2 hin) hfollows hspace
      have hsaved := (h.serves himage hmade).size_bytesAt (haccepts.2 hin)
      obtain ⟨hanswer, current', hcarries⟩ := hwritten.keepGuard hbase hmade
        { image, target, saved := current.bytesAt target bytes.size } himage (by rw [hsaved]; exact haccepts.2 hin) name
      simp only [hi, hperform, hlt, hin, and_self, if_true]
      rw [hanswer, hslice]
      refine ⟨rfl, current', ?_⟩
      simp only [Saved.ofGuard, hslice] at hcarries
      exact hcarries
    · simp only [hi, hperform, hlt, hout, and_false, if_true, if_false, true_and]
      exact ⟨current, h.refused hkernel⟩

/-- While there is room, the process is prepared, and the array stays as it is. -/
theorem operate_prepare (hwf : before.WellFormed) (hs : before.Addressable) (hcode : code ∈ before)
    (h : state.Carries before code constants data imageBase (left + 1) plain current) (hbase : region.base = code.base)
    (hsize : region.size = code.size) {config : Config}
    (hconfig : Operation.IsPlain before code imageBase (.prepare config)) :
    plain.Answers region (.prepare config) (state.operate (.prepare config)).1 ∧
      ∃ current', (state.operate (.prepare config)).2.Carries before code constants data imageBase left
        (plain.step region (.prepare config)) current' := by
  obtain ⟨htolerant, -, found, hfound, hfoundBase⟩ := hconfig
  have hnext : before.Next (config.imageBase.getD imageBase) code := by
    obtain ⟨m, hm, hmbase⟩ := hwf.next_of_region hs hfound
    rwa [hwf.eq_of_base_eq hm.mem hcode (hmbase.symm.trans hfoundBase)] at hm
  have hready := h.ready
  have hwp : (Image.prepare state.host state.attempted (Kernel.imageBase state.world.kernel)
      (Kernel.pageSize state.world.kernel) config).wp (fun image bed => state.world.kernel.Follows bed ∧ image.Patches code ∧
        bed.machine.space.Grounds before code constants data left (current.painted .readExecute))
      (fun _ _ => False) (fun _ => False) state.world.kernel := by
    have hpage : Kernel.pageSize state.world.kernel = pageBytes := hready.pageSize
    have himageBase : Kernel.imageBase state.world.kernel = imageBase := hready.imageBase
    rw [h.host, hpage, himageBase]
    exact Testbed.wp_prepare_again hready.quiet hready.undiverted hready.grounds hnext htolerant
      fun image bed' hfollows himage hgrounds => ⟨hfollows, himage, hgrounds⟩
  obtain ⟨image, world, hperform, hfollows, himage, hgrounds⟩ := { state with attempted := true }.perform_done
    (fun image state => (.image image, { state with images := state.images.push image })) hwp
  simp only [operate, State.prepare, hperform, Plain.Answers, Plain.step]
  refine ⟨⟨image, rfl, himage.base.trans hbase.symm, himage.size.trans hsize.symm⟩, current.painted .readExecute, ?_⟩
  exact {
    host := h.host
    ready := {
      grounds := hgrounds
      quiet := hready.quiet.follows hfollows
      undiverted := hfollows.undiverted hready.undiverted
      pageSize := hfollows.pageSize.trans hready.pageSize
      imageBase := hfollows.imageBase.trans hready.imageBase
      bytes := hready.bytes }
    sealed := fun _ p => Mapping.mem_pages_painted
    images := fun image' himage' => by
      rcases Array.mem_push.1 himage' with himage' | rfl
      · exact h.images image' himage'
      · exact himage
    guards := fun entry hentry => ⟨by simp, (h.guards entry hentry).2⟩
    images_size := by rw [Array.size_push, h.images_size]
    guards_eq := h.guards_eq }

/-- A session that carries a plain array refines it, as long as there is room for the preparations. -/
theorem refines (hwf : before.WellFormed) (hs : before.Addressable) (hcode : code ∈ before) {operations : List Operation}
    (hplain : ∀ operation ∈ operations, operation.IsPlain before code imageBase)
    (hleft : preparations operations ≤ left) (h : state.Carries before code constants data imageBase left plain current)
    (hbase : region.base = code.base) (hsize : region.size = code.size) : State.Refines region state plain operations := by
  induction operations generalizing state plain left current with
  | nil => exact h.shows hbase hsize
  | cons operation rest ih =>
    rw [List.forall_mem_cons] at hplain
    refine ⟨h.shows hbase hsize, ?_⟩
    cases operation with
    | prepare config =>
      obtain ⟨left, rfl⟩ : ∃ n, left = n + 1 := ⟨left - 1, by have : preparations rest + 1 ≤ left := hleft; lia⟩
      obtain ⟨hanswer, current', h'⟩ := h.operate_prepare hwf hs hcode hbase hsize hplain.1
      exact ⟨hanswer, ih hplain.2 (Nat.le_of_succ_le_succ hleft) h'⟩
    | patch i target bytes =>
      obtain ⟨hanswer, current', h'⟩ := h.operate_patch hbase hsize i target bytes
      exact ⟨hanswer, ih hplain.2 hleft h'⟩
    | guard i name target bytes =>
      obtain ⟨hanswer, current', h'⟩ := h.operate_guard hbase hsize i name target bytes
      exact ⟨hanswer, ih hplain.2 hleft h'⟩
    | release name =>
      obtain ⟨hanswer, current', h'⟩ := h.operate_release hbase name
      exact ⟨hanswer, ih hplain.2 hleft h'⟩
    | locate _ | build _ | toCopies _ _ | toCode _ _ | sweep _ _ => exact absurd hplain.1 id

end Carries

/-- A session without images and guards, on a quiet and well-formed test bed in which the three regions of an image lie back
to back, can be read, and have room for their shadow images, does with any sequence of operations what the plain array does. -/
theorem refines_plain {state : State Testbed} {layout : Layout} {code constants data : Mapping} {operations : List Operation}
    (hhost : state.host = .other) (himages : state.images = #[]) (hguards : state.guards = [])
    (hwf : state.world.kernel.machine.space.WellFormed)
    (hmaps : layout.Maps state.world.kernel.machine.space code constants data)
    (hreadable : code.Readable ∧ constants.Readable ∧ data.Readable) (hpageSize : state.world.kernel.pageSize = pageBytes)
    (hquiet : state.world.kernel.Quiet) (hundiverted : state.world.kernel.machine.diversion = none)
    (hroom : ∀ m ∈ state.world.kernel.machine.space,
      m.stop + preparations operations * Space.stride code constants data + pageBytes < Word.count)
    (hplain : ∀ operation ∈ operations,
      operation.IsPlain state.world.kernel.machine.space code state.world.kernel.imageBase) :
    State.Refines layout.code state { code := code.bytes } operations := by
  have hgrounds : state.world.kernel.machine.space.Grounds state.world.kernel.machine.space code constants data
      (preparations operations) code := {
    wellFormed := hwf
    room := hroom
    lower := fun m hm _ => hm
    mem := hmaps.code_mem
    shape := .refl code
    readable := hreadable.1
    constants_mem := hmaps.constants_mem
    constants_readable := hreadable.2.1
    data_mem := hmaps.data_mem
    data_readable := hreadable.2.2
    code_stop := hmaps.code_stop
    constants_stop := hmaps.constants_stop }
  have hcarries : state.Carries state.world.kernel.machine.space code constants data state.world.kernel.imageBase
      (preparations operations) { code := code.bytes } code := {
    host := hhost
    ready := ⟨hgrounds, hquiet, hundiverted, hpageSize, rfl, rfl⟩
    sealed := fun hmade => by simp [himages] at hmade
    images := by simp [himages]
    guards := by simp [hguards]
    images_size := by simp [himages]
    guards_eq := by rw [hguards]; rfl }
  exact hcarries.refines hwf hgrounds.addressable hmaps.code_mem hplain (Nat.le_refl _) hmaps.code_base hmaps.code_size

/-- Preparing a small process, placing a guard on its first byte, preparing it again and giving up the guard. -/
theorem refines_plain_twice_prepared : ∃ code : Bytes, State.Refines Layout.threePages.code
    { world := { kernel := Testbed.threePages } } { code := code }
    [.prepare {}, .guard 0 "first" Space.imageBase #[0xcc], .prepare {}, .release "first"] := by
  have hl := Layout.locatedIn_threePages
  obtain ⟨code, constants, data, hmaps⟩ := hl.exists_maps
  obtain ⟨-, hr₁, hs₁, -⟩ := Space.mem_threePages hmaps.code_mem
  obtain ⟨-, hr₂, hs₂, -⟩ := Space.mem_threePages hmaps.constants_mem
  obtain ⟨-, hr₃, hs₃, -⟩ := Space.mem_threePages hmaps.data_mem
  have hcode : Space.threePages.CodeAt Space.imageBase code := ⟨hmaps.code_mem, _, hl.code, hmaps.code_base⟩
  have hquiet : Testbed.threePages.Quiet := (Testbed.unhindered_threePages {} rfl).quiet
  refine ⟨code.bytes, refines_plain rfl rfl rfl Space.wellFormed_threePages hmaps ⟨hr₁, hr₂, hr₃⟩ rfl hquiet rfl
    (fun m hm => ?_) fun operation hoperation => ?_⟩
  · have hstop := (Space.mem_threePages hm).2.2.2
    have htop : Space.imageBase + 3 * pageBytes + 2 * (Space.allocationGap + (pageBytes + pageBytes + pageBytes)) + pageBytes <
        Word.count := by decide
    rw [Space.stride, hs₁, hs₂, hs₃]
    simp only [preparations]
    lia
  · simp only [List.mem_cons, List.not_mem_nil, or_false] at hoperation
    rcases hoperation with rfl | rfl | rfl | rfl
    · exact ⟨rfl, hcode⟩
    · trivial
    · exact ⟨rfl, hcode⟩
    · trivial

end State

end Session

end LivePatch
