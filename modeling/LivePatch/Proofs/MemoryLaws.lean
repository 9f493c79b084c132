import LivePatch.Proofs.Simulation.Replay
import LivePatch.Proofs.Space.Admission
import LivePatch.Proofs.Space.Cells

/-!
# Laws of reading and writing

A machine that was not told to fail writes, reads and copies exactly the ranges that are admitted, and what it does to the memory is
told address by address: a write puts its bytes there, a copy puts there what its source held before, and every other byte, every place
and every protection stays. Protecting, on the other hand, changes no byte.
-/

namespace LivePatch

/-- The memory `after` has the mappings and protections of `before`, and the bytes that `content` says. -/
structure Space.Rewrites (before after : Space) (content : Address → UInt8 → Prop) : Prop where
  bytes : ∀ a b, after.ByteAt a b ↔ content a b
  frame : after.map (fun m => (m.base, m.size, m.pages)) = before.map fun m => (m.base, m.size, m.pages)

namespace Machine

/-- How writing ends, and what it makes of the memory. -/
structure WriteLaw (machine : Machine) (d : Address) (bytes : Bytes) : Prop where
  ends : (machine.write d bytes).1.Decides (machine.space.Admits d bytes.size .writeOnly)
    (machine.space.Denies d bytes.size .writeOnly)
  rewrites : (machine.write d bytes).1 = .done () → machine.space.Rewrites (machine.write d bytes).2.space fun a b =>
    if d ≤ a ∧ a < d + bytes.size then bytes[a - d]? = some b else machine.space.ByteAt a b

/-- How reading ends, and what is read. -/
structure ReadLaw (machine : Machine) (s : Address) (n : Nat) : Prop where
  ends : (machine.read s n).1.Decides (machine.space.Admits s n .readOnly) (machine.space.Denies s n .readOnly)
  reads : ∀ bytes, (machine.read s n).1 = .done bytes →
    bytes.size = n ∧ ∀ i < n, ∀ b, bytes[i]? = some b ↔ machine.space.ByteAt (s + i) b
  space : (machine.read s n).2.space = machine.space

/-- How copying ends, and what it makes of the memory. The source is asked for before the destination, and read before that is
written. -/
structure CopyLaw (machine : Machine) (s : Address) (n : Nat) (d : Address) : Prop where
  ends : (machine.copy s n d).1.Decides (machine.space.Admits s n .readOnly ∧ machine.space.Admits d n .writeOnly) fun code =>
    machine.space.Denies s n .readOnly code ∨ (machine.space.Admits s n .readOnly ∧ machine.space.Denies d n .writeOnly code)
  rewrites : (machine.copy s n d).1 = .done () → machine.space.Rewrites (machine.copy s n d).2.space fun a b =>
    if d ≤ a ∧ a < d + n then machine.space.ByteAt (s + (a - d)) b else machine.space.ByteAt a b

/-- What protecting leaves as it is, however it ends. -/
structure ProtectLaw (machine : Machine) (a : Address) (n : Nat) (p : Protection) : Prop where
  bytes : ∀ x b, (machine.protect a n p).2.space.ByteAt x b ↔ machine.space.ByteAt x b
  contents : (machine.protect a n p).2.space.map (fun m => (m.base, m.bytes)) = machine.space.map fun m => (m.base, m.bytes)

end Machine

namespace Space

variable {space next : Space} {d s : Address} {n : Nat} {bytes : Bytes}

/-- A write that is done rewrites its range. -/
theorem WellFormed.rewrites_of_store (h : space.WellFormed) (hstore : space.store d bytes = .done next) :
    space.Rewrites next fun a b => if d ≤ a ∧ a < d + bytes.size then bytes[a - d]? = some b else space.ByteAt a b := by
  refine ⟨fun a b => h.byteAt_of_store hstore, ?_⟩
  obtain ⟨m, hm, hbase, hstop, rfl⟩ := update_of_store_eq_done hstore
  have hshape := Mapping.sameShape_withBytes hbase hstop
  exact h.map_update hm hshape.base (by rw [hshape.base, hshape.size, Mapping.withBytes])

/-- A copy that is done rewrites its destination. -/
theorem WellFormed.rewrites_of_copy (h : space.WellFormed) (hcopy : space.copy s n d = .done next) :
    space.Rewrites next fun a b => if d ≤ a ∧ a < d + n then space.ByteAt (s + (a - d)) b else space.ByteAt a b := by
  refine ⟨fun a b => h.byteAt_of_copy hcopy, ?_⟩
  obtain ⟨bytes, hstore⟩ := store_of_copy_eq_done hcopy
  exact (h.rewrites_of_store hstore).frame

/-- A copy asks for its source and then for its destination. -/
theorem WellFormed.copy_decides (h : space.WellFormed) (hs : space.Addressable) (hn : 0 < n) (hsource : s + n < Word.count)
    (hdestination : d + n < Word.count) :
    (space.copy s n d).Decides (space.Admits s n .readOnly ∧ space.Admits d n .writeOnly) fun code =>
      space.Denies s n .readOnly code ∨ (space.Admits s n .readOnly ∧ space.Denies d n .writeOnly code) := by
  refine (h.load_decides hs hn hsource).bind fun bytes hload => ?_
  obtain ⟨rfl, -⟩ := h.byteAt_of_load hload
  exact h.store_decides hs hn hdestination

end Space

namespace Machine

variable {machine : Machine} {admitted : Prop} {denied : KernelCode → Prop}

/-- A change that was not told to fail ends as the change of the memory does. -/
theorem decides_receive_alter {call : Call} {change : Space → Outcome KernelCode Space}
    (hinjected : call.kind?.bind machine.injected? = none) (h : (change machine.space).Decides admitted denied) :
    (machine.receive call (alter change)).1.Decides admitted denied := by
  have hends := h.bind_done fun _ => ()
  have hspace : (machine.recorded call).space = machine.space := rfl
  rw [receive_of_not_injected hinjected, alter, hspace]
  rcases hchange : change machine.space with next | code | _
  all_goals
    rw [hchange] at hends
    exact hends

/-- A change that is done is the change of the memory. -/
theorem done_of_receive_alter {call : Call} {change : Space → Outcome KernelCode Space}
    (hdone : (machine.receive call (alter change)).1 = .done ()) :
    change machine.space = .done (machine.receive call (alter change)).2.space := by
  have hanswer := (answers_alter machine call change (fun reply next => reply = .ok () → change machine.space = .done next)
    (fun _ hnext _ => hnext) fun _ => nofun).1 (.ok ())
  exact hanswer (Outcome.toExcept?_eq_some_ok_iff.2 hdone) rfl

theorem writeLaw {d : Address} {bytes : Bytes} (h : machine.space.WellFormed) (hs : machine.space.Addressable)
    (hpos : 0 < bytes.size) (hend : d + bytes.size < Word.count) (hinjected : machine.injected? .write = none) :
    machine.WriteLaw d bytes where
  ends := decides_receive_alter hinjected (h.store_decides hs hpos hend)
  rewrites := fun hdone => h.rewrites_of_store (done_of_receive_alter hdone)

theorem copyLaw {s d : Address} {n : Nat} (h : machine.space.WellFormed) (hs : machine.space.Addressable) (hn : 0 < n)
    (hsource : s + n < Word.count) (hdestination : d + n < Word.count) (hinjected : machine.injected? .copy = none) :
    machine.CopyLaw s n d where
  ends := decides_receive_alter hinjected (h.copy_decides hs hn hsource hdestination)
  rewrites := fun hdone => h.rewrites_of_copy (done_of_receive_alter hdone)

theorem readLaw {s : Address} {n : Nat} (h : machine.space.WellFormed) (hs : machine.space.Addressable) (hn : 0 < n)
    (hend : s + n < Word.count) (hinjected : machine.injected? .read = none) : machine.ReadLaw s n := by
  have hread : machine.read s n = (machine.space.load s n, machine.recorded (.read s n)) := receive_of_not_injected hinjected
  constructor
  · rw [hread]
    exact h.load_decides hs hn hend
  · intro bytes hdone
    rw [hread] at hdone
    exact h.byteAt_of_load hdone
  · rw [hread]
    rfl

theorem protectLaw (h : machine.space.WellFormed) (a : Address) (n : Nat) (p : Protection) : machine.ProtectLaw a n p := by
  obtain ⟨hanswer, hcrash⟩ := answers_alter machine (.protect a n p) (·.protect a n p)
    (fun reply next => next = machine.space ∨ machine.space.protect a n p = .done next) (fun _ hnext => Or.inr hnext)
    fun _ => Or.inl rfl
  have hcases : (machine.protect a n p).2.space = machine.space ∨
      machine.space.protect a n p = .done (machine.protect a n p).2.space := by
    cases hreply : (reply (machine.protect a n p)).1 with
    | none => exact Or.inl (hcrash hreply)
    | some reply => exact hanswer reply hreply
  constructor
  · intro x b
    rcases hcases with hsame | hdone
    · rw [hsame]
    · exact h.byteAt_of_protect hdone
  · rcases hcases with hsame | hdone
    · rw [hsame]
    · obtain ⟨m, hm, first, stop, hnext⟩ := Space.update_of_protect_eq_done hdone
      rw [hnext]
      exact h.map_update hm rfl rfl

/-- In a well-formed memory ranges with bytes in them are written, read and copied as the laws say, if that is not made to fail, and
protecting any range keeps the bytes. -/
theorem memory_laws (h : machine.space.WellFormed) (hs : machine.space.Addressable) :
    (∀ (d : Address) (bytes : Bytes), 0 < bytes.size → d + bytes.size < Word.count → machine.injected? .write = none →
      machine.WriteLaw d bytes) ∧
    (∀ (s : Address) (n : Nat), 0 < n → s + n < Word.count → machine.injected? .read = none → machine.ReadLaw s n) ∧
    (∀ (s : Address) (n : Nat) (d : Address), 0 < n → s + n < Word.count → d + n < Word.count →
      machine.injected? .copy = none → machine.CopyLaw s n d) ∧
    ∀ (a : Address) (n : Nat) (p : Protection), machine.ProtectLaw a n p :=
  ⟨fun _ _ => writeLaw h hs, fun _ _ => readLaw h hs, fun _ _ _ => copyLaw h hs, protectLaw h⟩

/-- A machine with two pages of changing bytes that can be read and written. -/
def patterned : Machine := { space := [.filled Space.imageBase (2 * pageBytes) .readWrite patternByte] }

theorem patterned_wellFormed : patterned.space.WellFormed := by
  refine ⟨List.forall_mem_singleton.2 (Mapping.wellFormed_filled ?_ ?_ ?_), List.pairwise_singleton _ _⟩
  all_goals decide

theorem patterned_admits {a : Address} {n : Nat} {needed : Protection} (hneeded : Protection.readWrite.allows needed)
    (ha : Space.imageBase ≤ a) (han : a + n ≤ Space.imageBase + 2 * pageBytes) : patterned.space.Admits a n needed := by
  constructor
  · refine ⟨_, List.mem_singleton_self _, ha, ?_⟩
    rw [Mapping.stop_filled]
    exact han
  · rintro b p - - ⟨m, hm, -, hp⟩
    rw [List.mem_singleton.1 hm] at hp
    have hpage : p = .readWrite := (Array.mem_replicate.1 (Array.mem_of_getElem? hp)).2
    rw [hpage]
    exact hneeded

/-- Eight bytes across the end of the first page are copied to where the last four of them lay. The third one comes to the third place
there, although the copy changes what it reads. -/
theorem memory_laws_patterned : patterned.space.WellFormed ∧ patterned.space.Addressable ∧ patterned.injected? .copy = none ∧
    (patterned.copy (Space.imageBase + 0xffc) 8 (Space.imageBase + 0x1000)).1 = .done () ∧
    ∀ b, (patterned.copy (Space.imageBase + 0xffc) 8 (Space.imageBase + 0x1000)).2.space.ByteAt (Space.imageBase + 0x1002) b ↔
      patterned.space.ByteAt (Space.imageBase + 0xffe) b := by
  have haddressable : patterned.space.Addressable := by
    refine List.forall_mem_singleton.2 ?_
    rw [Mapping.stop_filled]
    decide
  have hcopy := (memory_laws patterned_wellFormed haddressable).2.2.1 (Space.imageBase + 0xffc) 8 (Space.imageBase + 0x1000)
    (by decide) (by decide) (by decide) rfl
  obtain ⟨⟨⟩, hdone⟩ := hcopy.ends.done_iff.2
    ⟨patterned_admits (by decide) (by decide) (by decide), patterned_admits (by decide) (by decide) (by decide)⟩
  refine ⟨patterned_wellFormed, haddressable, rfl, hdone, fun b => ?_⟩
  have hinside : Space.imageBase + 0x1000 ≤ Space.imageBase + 0x1002 ∧
      Space.imageBase + 0x1002 < Space.imageBase + 0x1000 + 8 := by decide
  have hsource : Space.imageBase + 0xffc + (Space.imageBase + 0x1002 - (Space.imageBase + 0x1000)) =
      Space.imageBase + 0xffe := by decide
  refine ((hcopy.rewrites hdone).bytes (Space.imageBase + 0x1002) b).trans ?_
  rw [if_pos hinside, hsource]

end Machine

end LivePatch
