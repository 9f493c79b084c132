import LivePatch.Proofs.Engine.Course
import LivePatch.Proofs.Simulation.Replay
import LivePatch.Proofs.Space.Upkeep

/-!
# Test beds that stay in order

No request breaks a well-formed memory, whatever its arguments are and however it ends, but for allocations: they have to ask for some
bytes, and to go to a page boundary.

A test bed is in order if its memory is, and if a diverted allocation of so many bytes would end at an address, too. Whatever it is
asked, and however that ends, it stays in order, provided that new memory is asked for with care.
-/

namespace LivePatch

/-! ## Well-formed memory -/

namespace Machine

variable {machine : Machine} {request : Request}

/-- An allocation asks for some bytes and goes to a page boundary, wherever it was diverted to. Nothing is asked of other requests. -/
def Orderly (machine : Machine) : Request → Prop
  | .allocate placement size =>
    0 < size ∧ ∀ address, (machine.divert placement).1 = .fixed address → address % pageBytes = 0
  | _ => True

/-- A call that does nothing to the memory keeps it well-formed. -/
theorem wellFormed_receive {α : Type} {call : Call} {serve : Machine → Outcome KernelCode α × Machine} (h : machine.space.WellFormed)
    (hserve : ∀ machine, (serve machine).2.space = machine.space) : (machine.receive call serve).2.space.WellFormed :=
  space_receive machine call hserve ▸ h

/-- A change keeps a memory well-formed if the address space does, and also if it was made to fail. -/
theorem wellFormed_receive_alter {call : Call} {change : Space → Outcome KernelCode Space} (h : machine.space.WellFormed)
    (hchange : ∀ next, change machine.space = .done next → next.WellFormed) :
    (machine.receive call (alter change)).2.space.WellFormed := by
  obtain ⟨hanswer, hcrash⟩ := answers_alter machine call change (fun _ next => next.WellFormed) hchange fun _ => h
  cases hreply : (reply (machine.receive call (alter change))).1 with
  | none => exact hcrash hreply ▸ h
  | some reply => exact hanswer reply hreply

/-- An allocation leaves the memory as it is, or does to it what the address space does where the allocation was diverted to. -/
theorem space_allocate (machine : Machine) (placement : Placement) (size : Nat) :
    (machine.allocate placement size).2.space = machine.space ∨ ∃ rounded base, Space.roundUp size = some rounded ∧
      machine.space.allocate (machine.divert placement).1 rounded = .done (base, (machine.allocate placement size).2.space) := by
  obtain ⟨hreply, hnone⟩ := answers_allocate machine placement size
  cases hanswer : (reply (machine.allocate placement size)).1 with
  | none => exact Or.inl (hnone hanswer)
  | some reply =>
    have hspace := hreply reply hanswer
    cases reply with
    | ok base =>
      obtain ⟨rounded, hround, halloc⟩ := hspace
      exact Or.inr ⟨rounded, base, hround, halloc⟩
    | error code => exact Or.inl hspace

/-- An orderly allocation keeps a memory well-formed. -/
theorem wellFormed_allocate {placement : Placement} {size : Nat} (h : machine.space.WellFormed)
    (horderly : machine.Orderly (.allocate placement size)) : (machine.allocate placement size).2.space.WellFormed := by
  obtain ⟨hpos, haligned⟩ := horderly
  rcases space_allocate machine placement size with hsame | ⟨rounded, base, hround, hallocate⟩
  · exact hsame ▸ h
  · obtain ⟨hwhole, hsome⟩ := Space.whole_of_roundUp hround hpos
    have hbase : base % pageBytes = 0 := by
      cases hplacement : (machine.divert placement).1 with
      | anywhere => exact (h.bounds_of_anywhere (hplacement ▸ hallocate)).1
      | fixed address =>
        rw [hplacement] at hallocate
        obtain ⟨hplace, -⟩ := Space.allocate_eq_done_iff.1 hallocate
        exact Outcome.done.inj hplace ▸ haligned address hplacement
    exact h.allocated hallocate hbase hwhole hsome

/-- Whatever an orderly request asks for, and however it ends, a well-formed memory stays well-formed. -/
theorem wellFormed_serve (h : machine.space.WellFormed) (horderly : machine.Orderly request) :
    (Kernel.serve request machine).2.space.WellFormed := by
  cases request with
  | region | read | threads | suspend | resume => exact wellFormed_receive h fun _ => rfl
  | currentThread | release | flush => exact h
  | allocate placement size => exact wellFormed_allocate h horderly
  | deallocate a n => exact wellFormed_receive_alter h fun next hdone => h.deallocated hdone
  | protect a n p => exact wellFormed_receive_alter h fun next hdone => h.protected hdone
  | copy s n d =>
    refine wellFormed_receive_alter h fun next hdone => ?_
    obtain ⟨bytes, hstore⟩ := Space.store_of_copy_eq_done hdone
    exact h.stored hstore
  | write a bytes => exact wellFormed_receive_alter h fun next hdone => h.stored hdone

end Machine

/-- The same holds for a test bed, whatever it does besides. -/
theorem Testbed.wellFormed_serve {bed : Testbed} {request : Request} (h : bed.machine.space.WellFormed)
    (horderly : bed.machine.Orderly request) : (Kernel.serve request bed).2.machine.space.WellFormed := by
  cases request with
  | threads => exact Machine.wellFormed_serve ((still_advance bed).space ▸ h) horderly
  | _ => exact Machine.wellFormed_serve h horderly

/-! ## Memory in order -/

/-- The memory is well-formed and ends at addresses, and a diversion leads to a page boundary with room for `n` bytes. -/
structure Testbed.InOrder (n : Nat) (bed : Testbed) : Prop where
  wellFormed : bed.machine.space.WellFormed
  addressable : bed.machine.space.Addressable
  diversion : ∀ diverted ∈ bed.machine.diversion, diverted % pageBytes = 0 ∧ diverted + n < Word.count

/-- New memory is asked for with care: some of it, and at a fixed address `n` bytes that are whole pages and end at an address. -/
def Request.Careful (n : Nat) : Request → Prop
  | .allocate .anywhere size => 0 < size
  | .allocate (.fixed base) size =>
    size = n ∧ 0 < n ∧ n % pageBytes = 0 ∧ base % pageBytes = 0 ∧ base + n < Word.count
  | _ => True

namespace Testbed

variable {n n' : Nat} {bed : Testbed}

theorem InOrder.mono (h : bed.InOrder n) (hn : n' ≤ n) : bed.InOrder n' :=
  ⟨h.wellFormed, h.addressable, fun diverted hdiverted => by
    obtain ⟨haligned, hend⟩ := h.diversion diverted hdiverted
    exact ⟨haligned, by lia⟩⟩

/-- A test bed stays in order if its memory does, and if no diversion is new. -/
theorem InOrder.follows {bed' : Testbed} (h : bed.InOrder n) (h' : bed.Follows bed')
    (hspace : bed'.machine.space.WellFormed ∧ bed'.machine.space.Addressable) : bed'.InOrder n := by
  refine ⟨hspace.1, hspace.2, fun diverted hdiverted => ?_⟩
  rcases h'.machine.diversion with hsame | hnone
  · exact h.diversion diverted (hsame ▸ hdiverted)
  · rw [hnone] at hdiverted
    cases hdiverted

/-- Only the memory and the diversion matter. -/
theorem InOrder.congr {bed' : Testbed} (h : bed.InOrder n) (hspace : bed'.machine.space = bed.machine.space)
    (hdiversion : bed'.machine.diversion = bed.machine.diversion) : bed'.InOrder n :=
  ⟨hspace ▸ h.wellFormed, hspace ▸ h.addressable, hdiversion ▸ h.diversion⟩

/-- What is asked for with care is orderly. -/
theorem InOrder.orderly {request : Request} (h : bed.InOrder n) (hcareful : request.Careful n) : bed.machine.Orderly request := by
  cases request with
  | allocate placement size =>
    cases placement with
    | anywhere => exact ⟨hcareful, nofun⟩
    | fixed address =>
      obtain ⟨rfl, hsome, -, haddress, -⟩ := hcareful
      refine ⟨hsome, fun actual hplacement => ?_⟩
      rcases Machine.fixed_of_divert hplacement with rfl | hdiverted
      · exact haddress
      · exact (h.diversion actual hdiverted).1
  | _ => trivial

/-- Memory that is mapped with care ends at an address. -/
theorem InOrder.addressable_of_allocate {placement : Placement} {size rounded : Nat} {base : Address} {next : Space}
    (h : bed.InOrder n) (hcareful : (Request.allocate placement size).Careful n) (hround : Space.roundUp size = some rounded)
    (hallocate : bed.machine.space.allocate (bed.machine.divert placement).1 rounded = .done (base, next)) : next.Addressable := by
  refine h.addressable.allocated hallocate ?_
  cases placement with
  | anywhere => exact (h.wellFormed.bounds_of_anywhere hallocate).2
  | fixed address =>
    obtain ⟨rfl, -, hwhole, -, hend⟩ := hcareful
    rw [Space.roundUp_of_aligned hwhole (Space.roundUp_eq_some_iff.1 hround).1] at hround
    cases hround
    obtain ⟨hplace, -⟩ := Space.allocate_eq_done_iff.1 hallocate
    rcases Machine.fixed_of_divert (congrArg Placement.fixed (Outcome.done.inj hplace)) with rfl | hdiverted
    · exact hend
    · exact (h.diversion base hdiverted).2

/-- Whatever is asked for with care leaves the test bed in order. -/
theorem InOrder.serve {request : Request} (h : bed.InOrder n) (hcareful : request.Careful n) :
    (Kernel.serve request bed).2.InOrder n := by
  refine h.follows (follows_serve request bed) ⟨wellFormed_serve h.wellFormed (h.orderly hcareful), ?_⟩
  obtain ⟨htakes, hcrash⟩ := takes_serve bed request
  -- what fails or crashes leaves the memory alone
  have hchange : ∀ (reply : Option (Except KernelCode Unit)) (final : Space),
      (∀ value, reply = some (.ok value) → final.Addressable) → (∀ code, reply = some (.error code) → final = bed.machine.space) →
        (reply = none → final = bed.machine.space) → final.Addressable := by
    rintro (_ | code | value) final hok herror hnone
    · exact hnone rfl ▸ h.addressable
    · exact herror code rfl ▸ h.addressable
    · exact hok value rfl
  cases request with
  | region | read | threads | currentThread | release | suspend | resume =>
    rw [space_serve_of_idle bed _ (by trivial)]
    exact h.addressable
  | flush => exact h.addressable
  | allocate placement size =>
    rcases Machine.space_allocate bed.machine placement size with hsame | ⟨rounded, base, hround, hallocate⟩
    · exact hsame ▸ h.addressable
    · exact h.addressable_of_allocate hcareful hround hallocate
  | deallocate a m => exact hchange _ _ (fun _ hreply => h.addressable.deallocated (htakes _ hreply)) (fun _ => htakes _) hcrash
  | protect a m p => exact hchange _ _ (fun _ hreply => h.addressable.protected (htakes _ hreply)) (fun _ => htakes _) hcrash
  | copy s m d =>
    refine hchange _ _ (fun _ hreply => ?_) (fun _ => htakes _) hcrash
    obtain ⟨bytes, hstore⟩ := Space.store_of_copy_eq_done (htakes _ hreply)
    exact h.addressable.stored hstore
  | write a bytes => exact hchange _ _ (fun _ hreply => h.addressable.stored (htakes _ hreply)) (fun _ => htakes _) hcrash

end Testbed

end LivePatch
