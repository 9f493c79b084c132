import LivePatch.Proofs.Atomicity
import LivePatch.Proofs.Engine.Conduct
import LivePatch.Proofs.Memory.Span
import LivePatch.Proofs.Simulation.Replay
import LivePatch.Proofs.Space.Protections

/-!
# Whether code stays executable

A patch opens the pages that it writes to and closes them again, also if its write failed. The code stays executable exactly
unless the kernel refuses to close them. Then the pages stay open, and the error says what failed but not that the code is no
longer what it was: no error of a patch is fatal.
-/

namespace LivePatch

/-! ## Refusals to close pages -/

/-- Whether the kernel refused to make pages executable. -/
def Exchange.refusesSeal : Exchange → Bool
  | ⟨.protect _ _ protection, .error _⟩ => protection = .readExecute
  | _ => false

/-- One of the exchanges is such a refusal. -/
def SealRefused (es : List Exchange) : Prop := ∃ e ∈ es, e.refusesSeal

instance : DecidablePred SealRefused := fun es => inferInstanceAs (Decidable (∃ e ∈ es, e.refusesSeal))

section

variable {e : Exchange} {es es' : List Exchange}

@[simp] theorem not_sealRefused_nil : ¬ SealRefused [] := by simp [SealRefused]

@[simp] theorem sealRefused_cons : SealRefused (e :: es) ↔ e.refusesSeal ∨ SealRefused es := by simp [SealRefused]

@[simp] theorem sealRefused_append : SealRefused (es ++ es') ↔ SealRefused es ∨ SealRefused es' := by
  simp only [SealRefused, List.mem_append, or_and_right, exists_or]

/-- Idle requests do not ask for pages to be executable. -/
theorem not_sealRefused_of_idle (h : ∀ e ∈ es, e.request.Idle) : ¬ SealRefused es := by
  rintro ⟨⟨request, reply⟩, hmem, hrefuses⟩
  cases request with
  | protect => exact h _ hmem
  | _ => cases hrefuses

theorem refusesSeal_protect {a : Address} {n : Nat} {protection : Protection} {reply : Except KernelCode Unit} :
    Exchange.refusesSeal ⟨.protect a n protection, reply⟩ ↔ protection = .readExecute ∧ ∃ code, reply = .error code := by
  rcases reply with code | ⟨⟩ <;> simp [Exchange.refusesSeal]

end

/-- The exchanges leave every memory as it is, and no refusal to close pages is among them. -/
structure Untouching (es : List Exchange) : Prop where
  final_eq : ∀ {space final : Space}, space.Evolves es final → final = space
  not_sealRefused : ¬ SealRefused es

theorem untouching_of_idle {es : List Exchange} (h : ∀ e ∈ es, e.request.Idle) : Untouching es :=
  ⟨fun hevolves => hevolves.eq_of_idle h, not_sealRefused_of_idle h⟩

/-- A flush touches no memory either. -/
theorem Untouching.cons_flush {es : List Exchange} {a : Address} {n : Nat} (h : Untouching es) :
    Untouching (⟨.flush a n, ()⟩ :: es) where
  final_eq := by
    rintro space final ⟨_, rfl, hevolves⟩
    exact h.final_eq hevolves
  not_sealRefused := by simpa [Exchange.refusesSeal] using h.not_sealRefused

/-! ## Pages of the code -/

/-- Every page of the region can be read and executed, and not written. -/
def Space.Seals (space : Space) (region : Region) : Prop :=
  ∀ a, region.base ≤ a → a < region.base + region.size → space.protectionAt a = some .readExecute

/-- A page of the region can be written, and not executed. -/
def Space.Exposes (space : Space) (region : Region) : Prop :=
  ∃ a, region.base ≤ a ∧ a < region.base + region.size ∧ space.protectionAt a = some .readWrite

/-- The region is this mapping of a well-formed space. -/
structure Space.MapsTo (space : Space) (region : Region) (m : Mapping) : Prop where
  wellFormed : space.WellFormed
  mem : m ∈ space
  base : m.base = region.base
  size : m.size = region.size
  stop_lt : m.stop < Word.count

/-- The pages of a region that protecting a range changes: from the first one up to, but without, the second one. -/
def Region.window (region : Region) (a : Address) (n : Nat) : Nat × Nat :=
  ((pageFloor a - region.base) / pageBytes, (pageFloor (a + n + pageBytes - 1) - region.base) / pageBytes)

namespace Space.MapsTo

variable {space : Space} {region : Region} {m m' : Mapping} {a : Address} {bytes : Bytes}

theorem of_holds (h : space.Holds region bytes) : ∃ m, space.MapsTo region m := by
  obtain ⟨m, hm, hbase, hsize, -, hstop⟩ := h.mapping
  exact ⟨m, h.wellFormed, hm, hbase, hsize, hstop⟩

theorem covers (h : space.MapsTo region m) (h1 : region.base ≤ a) (h2 : a < region.base + region.size) : m.Covers a := by
  rw [Mapping.Covers, Mapping.stop, h.base, h.size]
  exact ⟨h1, h2⟩

/-- The protection at an address of the region is that of its page. -/
theorem protectionAt_eq (h : space.MapsTo region m) (ha : m.Covers a) : space.protectionAt a = m.pages[m.pageOf a]? :=
  h.wellFormed.protectionAt_of_covers h.mem h.stop_lt ha

/-- The region is sealed if all pages of its mapping are. -/
theorem seals_iff (h : space.MapsTo region m) : space.Seals region ↔ ∀ p ∈ m.pages, p = .readExecute := by
  have hsize := (h.wellFormed.mappings m h.mem).size_eq
  constructor
  · intro hseals p hp
    obtain ⟨i, hi, rfl⟩ := Array.mem_iff_getElem.1 hp
    have hlt : i * pageBytes < m.size := by
      rw [hsize]
      exact Nat.mul_lt_mul_of_pos_right hi Mapping.pageBytes_pos
    have hcovers : m.Covers (m.base + i * pageBytes) := ⟨Nat.le_add_right _ _, Nat.add_lt_add_left hlt _⟩
    have hpage : m.pageOf (m.base + i * pageBytes) = i := by
      rw [Mapping.pageOf, Nat.add_sub_cancel_left, Nat.mul_div_cancel _ Mapping.pageBytes_pos]
    have hprotection := hseals (m.base + i * pageBytes) (h.base ▸ hcovers.1) (by rw [← h.base, ← h.size]; exact hcovers.2)
    rw [h.protectionAt_eq hcovers, hpage, Array.getElem?_eq_getElem hi] at hprotection
    exact Option.some.inj hprotection
  · intro hpages a h1 h2
    rw [h.protectionAt_eq (h.covers h1 h2)]
    exact Space.page_of_uniform hsize hpages (h.covers h1 h2)

/-- The region may be exchanged for a mapping of the same shape. -/
theorem update (h : space.MapsTo region m) (hshape : m.SameShape m') : (space.update m').MapsTo region m' where
  wellFormed := h.wellFormed.update h.mem hshape
  mem := mem_update_self h.mem hshape.base
  base := hshape.base.trans h.base
  size := hshape.size.trans h.size
  stop_lt := hshape.stop ▸ h.stop_lt

/-- Protecting a range that meets the region protects pages of its mapping, that of a common address among them. -/
theorem protect {next : Space} {p : Protection} {n : Nat} {target : Address} (h : space.MapsTo region m)
    (htarget : m.Covers target) (ha : a ≤ target) (hn : target < a + n) (hdone : space.protect a n p = .done next) :
    next.MapsTo region (m.withProtection (region.window a n).1 (region.window a n).2 p) ∧
      (region.window a n).1 ≤ m.pageOf target ∧ m.pageOf target < (region.window a n).2 := by
  have hwindow := h.wellFormed.update_of_protect_covered h.mem htarget ha hn hdone
  have hfirst : m.pageOf (pageFloor a) = (region.window a n).1 := by rw [Mapping.pageOf, h.base, Region.window]
  have hlast : m.pageOf (pageFloor (a + n + pageBytes - 1)) = (region.window a n).2 := by
    rw [Mapping.pageOf, h.base, Region.window]
  rw [hfirst, hlast] at hwindow
  obtain ⟨rfl, hpage⟩ := hwindow
  exact ⟨h.update (Mapping.sameShape_withProtection m _ _ p), hpage⟩

/-- Writing into the region writes into its mapping. -/
theorem store {next : Space} (h : space.MapsTo region m) (ha : m.Covers a) (hpos : 0 < bytes.size)
    (hdone : space.store a bytes = .done next) : next.MapsTo region (m.withBytes a bytes) := by
  obtain ⟨rfl, hstop⟩ := h.wellFormed.update_of_store_covered h.mem ha hpos hdone
  exact h.update (Mapping.sameShape_withBytes ha.1 hstop)

/-- The region is exposed by a page that can be written. -/
theorem exposes (h : space.MapsTo region m) (ha : m.Covers a) (hpage : m.pages[m.pageOf a]? = some .readWrite) :
    space.Exposes region := by
  refine ⟨a, h.base ▸ ha.1, ?_, (h.protectionAt_eq ha).trans hpage⟩
  rw [← h.base, ← h.size]
  exact ha.2

end Space.MapsTo

/-- A mapping while a patch of it is under way: the pages of the window are open, and bytes were written at the target. -/
def Mapping.opened (m : Mapping) (window : Nat × Nat) (target : Address) (bytes : Bytes) : Mapping :=
  (m.withProtection window.1 window.2 .readWrite).withBytes target bytes

theorem Mapping.opened_empty (m : Mapping) (window : Nat × Nat) (target : Address) :
    m.opened window target #[] = m.withProtection window.1 window.2 .readWrite := Mapping.withBytes_empty _ target

namespace Space.MapsTo

variable {space next : Space} {region : Region} {m : Mapping} {a target : Address} {n : Nat} {window : Nat × Nat} {bytes : Bytes}

/-- The pages of a range that holds the target are opened, that of the target among them. -/
theorem opened (h : space.MapsTo region m) (h1 : region.base ≤ target) (h2 : target < region.base + region.size) (ha : a ≤ target)
    (hn : target < a + n) (hdone : space.protect a n .readWrite = .done next) :
    next.MapsTo region (m.opened (region.window a n) target #[]) ∧
      ∀ bytes, (m.opened (region.window a n) target bytes).pages[m.pageOf target]? = some .readWrite := by
  obtain ⟨hmaps, hwindow⟩ := h.protect (h.covers h1 h2) ha hn hdone
  have hlt := (h.wellFormed.mappings m h.mem).pageOf_lt (h.covers h1 h2)
  refine ⟨m.opened_empty _ target ▸ hmaps, fun bytes => ?_⟩
  have hpage := Mapping.getElem?_withProtection m (region.window a n).1 (region.window a n).2 (m.pageOf target) .readWrite
  rw [if_pos hwindow, Array.getElem?_eq_getElem hlt] at hpage
  exact hpage

/-- Bytes are written while the pages are open. -/
theorem written (h : space.MapsTo region (m.opened window target #[])) (h1 : region.base ≤ target)
    (h2 : target < region.base + region.size) (hpos : 0 < bytes.size) (hdone : space.store target bytes = .done next) :
    next.MapsTo region (m.opened window target bytes) := by
  have hnext := h.store (h.covers h1 h2) hpos hdone
  rw [m.opened_empty window target] at hnext
  exact hnext

/-- The pages that were opened are closed again, and the region is sealed as before. -/
theorem closed (h : space.MapsTo region (m.opened (region.window a n) target bytes)) (hsealed : ∀ p ∈ m.pages, p = .readExecute)
    (h1 : region.base ≤ target) (h2 : target < region.base + region.size) (ha : a ≤ target) (hn : target < a + n)
    (hdone : space.protect a n .readExecute = .done next) : next.Seals region := by
  have hnext := (h.protect (h.covers h1 h2) ha hn hdone).1
  rw [Mapping.opened, Mapping.withProtection_withBytes_withProtection hsealed] at hnext
  exact hnext.seals_iff.2 hsealed

end Space.MapsTo

/-- What becomes of a sealed region: it is sealed still; or the kernel refused to close a page of it, which is open, and the
error is that of the refusal or that of the write before. -/
inductive Region.LeftIn (region : Region) (space : Space) (error? : Option Error) (es : List Exchange) : Prop where
  | closed (hnot : ¬ SealRefused es) (h : space.Seals region)
  | exposed (hrefused : SealRefused es) (h : space.Exposes region) (code : KernelCode)
      (herror : error? = some (.ofKernel .writeTarget code) ∨ error? = some (.ofKernel .sealTarget code))

section

variable {space final : Space} {region : Region} {m : Mapping} {target : Address} {bytes : Bytes} {span : PageSpan}
  {result : Except Error Unit} {es es₁ es₂ : List Exchange} {strict : Bool} {error? : Option Error}

/-- Without an error the region is sealed. -/
theorem Region.LeftIn.of_none (h : region.LeftIn space none es) : region.LeftIn space error? es := by
  cases h with
  | closed hnot h => exact .closed hnot h
  | exposed _ _ code herror => rcases herror with herror | herror <;> cases herror

/-- What comes before and behind makes no difference if it touches no memory. -/
theorem Region.leftIn_between (h₁ : Untouching es₁) (h₂ : Untouching es₂) (hevolves : space.Evolves (es₁ ++ (es ++ es₂)) final)
    (h : space.Evolves es final → region.LeftIn final error? es) : region.LeftIn final error? (es₁ ++ (es ++ es₂)) := by
  have hrefused : SealRefused (es₁ ++ (es ++ es₂)) ↔ SealRefused es := by
    simp [h₁.not_sealRefused, h₂.not_sealRefused]
  obtain ⟨_, hevolves₁, hrest⟩ := Space.evolves_append.1 hevolves
  obtain ⟨_, hevolves, hevolves₂⟩ := Space.evolves_append.1 hrest
  cases h₁.final_eq hevolves₁
  cases h₂.final_eq hevolves₂
  cases h hevolves with
  | closed hnot hseals => exact .closed (fun h => hnot (hrefused.1 h)) hseals
  | exposed h hexposes code herror => exact .exposed (hrefused.2 h) hexposes code herror

/-- The write of a patch leaves the code closed unless the kernel refuses that. -/
theorem WritesCode.leftIn (h : WritesCode target bytes span result es) (hmaps : space.MapsTo region m)
    (hsealed : ∀ p ∈ m.pages, p = .readExecute) (hbase : region.base ≤ target) (hpos : 0 < bytes.size)
    (hend : target + bytes.size ≤ region.base + region.size) (hstart : span.start ≤ target)
    (hstop : target < span.start + span.size) (hevolves : space.Evolves es final) : region.LeftIn final (errorOf? result) es := by
  have hlt : target < region.base + region.size := by lia
  cases h with
  | locked code =>
    have hlocked : Protection.readWrite ≠ .readExecute := by decide
    obtain ⟨_, rfl, rfl⟩ := hevolves
    exact .closed (by simp [refusesSeal_protect, hlocked]) (hmaps.seals_iff.2 hsealed)
  | unwritten code closed =>
    obtain ⟨opened, hopen, _, rfl, final, hclose, rfl⟩ := hevolves
    obtain ⟨hopened, hpage⟩ := hmaps.opened hbase hlt hstart hstop hopen
    cases closed with
    | error code' =>
      cases hclose
      exact .exposed (by simp [refusesSeal_protect]) (hopened.exposes (hopened.covers hbase hlt) (hpage _)) code (Or.inl rfl)
    | ok => exact .closed (by simp [Exchange.refusesSeal]) (hopened.closed hsealed hbase hlt hstart hstop hclose)
  | unsealed code =>
    obtain ⟨opened, hopen, written, hwrite, _, rfl, rfl⟩ := hevolves
    obtain ⟨hopened, hpage⟩ := hmaps.opened hbase hlt hstart hstop hopen
    have hwritten := hopened.written hbase hlt hpos hwrite
    exact .exposed (by simp [refusesSeal_protect]) (hwritten.exposes (hwritten.covers hbase hlt) (hpage _)) code (Or.inr rfl)
  | written =>
    obtain ⟨opened, hopen, written, hwrite, final, hclose, rfl⟩ := hevolves
    have hwritten := (hmaps.opened hbase hlt hstart hstop hopen).1.written hbase hlt hpos hwrite
    exact .closed (by simp [Exchange.refusesSeal]) (hwritten.closed hsealed hbase hlt hstart hstop hclose)

/-- A bracket leaves the code as its change does. -/
theorem Bracketed.leftIn {P : Except Error Unit → List Exchange → Prop} (h : Bracketed strict P result es)
    (hsealed : space.Seals region) (hevolves : space.Evolves es final)
    (hchange : ∀ {result es}, P result es → space.Evolves es final → region.LeftIn final (errorOf? result) es) :
    region.LeftIn final (errorOf? result) es := by
  cases h with
  | before hidle herror =>
    have huntouching := untouching_of_idle hidle
    exact .closed huntouching.not_sealRefused (huntouching.final_eq hevolves ▸ hsealed)
  | around h₁ hgo h h₂ =>
    exact Region.leftIn_between (untouching_of_idle fun e he => (h₁ e he).idle) (untouching_of_idle fun e he => (h₂ e he).idle)
      hevolves (hchange h)
  | unresumed code h₁ hgo h h₂ =>
    exact Region.leftIn_between (untouching_of_idle fun e he => (h₁ e he).idle) (untouching_of_idle fun e he => (h₂ e he).idle)
      hevolves fun hevolves => (hchange h hevolves).of_none

/-- An attempt to patch leaves the code closed unless the kernel refuses that. -/
theorem Image.Overwrites.leftIn {image : Image} {host : Host} {n : Nat} (h : image.Overwrites host n error? es)
    (hmaps : space.MapsTo image.code m) (hseals : space.Seals image.code) (hevolves : space.Evolves es final) :
    image.code.LeftIn final error? es := by
  have hreads : ∀ {es : List Exchange}, (∀ e ∈ es, e.request.IsRead) → Untouching es :=
    fun h => untouching_of_idle fun e he => (h e he).idle
  cases h with
  | untried hsaves herror =>
    exact .closed (hreads hsaves).not_sealRefused ((hreads hsaves).final_eq hevolves ▸ hseals)
  | @tried _ _ _ _ _ es hsaves hin hspan hpos h =>
    obtain ⟨hbase, -, hend⟩ := Region.containsRange_eq_some hin
    obtain ⟨hstart, hstop⟩ := PageSpan.mem_of_covering hspan hpos
    have hwrites : ∀ {result es}, WritesCode _ _ _ result es → space.Evolves es final →
        image.code.LeftIn final (errorOf? result) es :=
      fun hwrites => hwrites.leftIn hmaps (hmaps.seals_iff.1 hseals) hbase hpos hend hstart hstop
    cases h with
    | stopped h =>
      rw [← List.append_nil es] at hevolves ⊢
      exact Region.leftIn_between (hreads hsaves) (hreads (by simp)) hevolves fun hevolves =>
        h.bracketed.leftIn hseals hevolves hwrites
    | written h hverifies =>
      exact Region.leftIn_between (hreads hsaves) (hreads hverifies.reads.1).cons_flush hevolves fun hevolves =>
        (h.bracketed.leftIn hseals hevolves hwrites).of_none

theorem Error.BeforeBracket.isFatal_eq {error : Error} (h : error.BeforeBracket) : error.isFatal = false := by
  unfold Error.BeforeBracket at h
  split at h
  · rfl
  · rfl
  · exact h.elim

theorem Error.OfVerifying.isFatal_eq {error : Error} (h : error.OfVerifying) : error.isFatal = false := by
  unfold Error.OfVerifying at h
  split at h
  · rfl
  · rfl
  · exact h.elim

/-- No error of an attempt to patch is fatal. -/
theorem Image.Overwrites.isFatal_eq {image : Image} {host : Host} {n : Nat} {error : Error}
    (h : image.Overwrites host n (some error) es) : error.isFatal = false := by
  cases h with
  | untried hsaves herror => exact (herror error rfl).isFatal_eq
  | tried hsaves hin hspan hpos h =>
    cases h with
    | stopped h =>
      cases h.bracketed with
      | before hidle herror => exact herror.isFatal_eq
      | around h₁ hgo hwrites h₂ => cases hwrites <;> rfl
      | unresumed => rfl
    | written h hverifies => exact (hverifies.reads.2 error rfl).isFatal_eq

end

/-- An operation that patches leaves every page of the code executable unless the kernel refused to make pages executable again.
After a refusal a page of the code is writable and not executable, although the error of the attempt, like all its errors, is not
fatal. -/
theorem Image.Attempts.seals_unless_refused {α β : Type} {image : Image} {host : Host} {operation : Engine α}
    {attempt : Engine β} {world after : World Testbed} {guards : List Guard} {outcome : Outcome Error β}
    (h : image.Attempts host operation attempt) (hreaches : image.Reaches host world guards)
    (hseals : world.kernel.machine.space.Seals image.code) (hrun : attempt.run world = (outcome, after))
    (hreturns : outcome ≠ .crashed) :
    (¬ SealRefused (operation.exchanges world.kernel) → (operation.run world).2.kernel.machine.space.Seals image.code) ∧
      (SealRefused (operation.exchanges world.kernel) →
        (operation.run world).2.kernel.machine.space.Exposes image.code ∧
          ∃ code, outcome = .failed (.ofKernel .writeTarget code) ∨ outcome = .failed (.ofKernel .sealTarget code)) ∧
      ∀ error, outcome = .failed error → error.isFatal = false := by
  obtain ⟨_, hoverwrites⟩ := h.overwrites hrun hreturns
  obtain ⟨⟨old, hold⟩, -⟩ := hreaches.invariant
  obtain ⟨m, hmaps⟩ := Space.MapsTo.of_holds hold
  refine ⟨fun hnot => ?_, fun hrefused => ?_, fun error herror => ?_⟩
  · cases hoverwrites.leftIn hmaps hseals (Testbed.evolves_run operation world) with
    | closed _ hseals => exact hseals
    | exposed hrefused => exact absurd hrefused hnot
  · cases hoverwrites.leftIn hmaps hseals (Testbed.evolves_run operation world) with
    | closed hnot => exact absurd hrefused hnot
    | exposed _ hexposes code herror =>
      simp only [Outcome.error?_eq_some_iff] at herror
      exact ⟨hexposes, code, herror⟩
  · rw [Outcome.error?_eq_some_iff.2 herror] at hoverwrites
    exact hoverwrites.isFatal_eq

/-- The code of the small process is sealed once it is prepared. -/
theorem Space.seals_preparedPages : Space.preparedPages.Seals Layout.threePages.code := by
  obtain ⟨⟨old, hold⟩, -⟩ := (Image.reaches_preparedPages ⟨.write, 0, .failure⟩).invariant
  obtain ⟨m, hmaps⟩ := Space.MapsTo.of_holds hold
  have hfirst : Mapping.fresh Space.imageBase pageBytes ∈ Space.threePages := by simp [Space.threePages]
  have hcode : (Mapping.fresh Space.imageBase pageBytes).painted .readExecute ∈ Space.preparedPages :=
    List.mem_append_left _ (Space.mem_update_self hfirst rfl)
  cases hmaps.wellFormed.eq_of_base_eq hmaps.mem hcode hmaps.base
  exact hmaps.seals_iff.2 fun p => Mapping.mem_pages_painted

/-- If its write fails, a patch of the small process leaves the code executable. -/
theorem Image.Attempts.seals_unwritten : ∃ after : World Testbed,
    ((Image.threePages {}).patch .other Space.imageBase #[0xcc]).run (.preparedPages ⟨.write, 0, .failure⟩) =
        (.failed (.ofKernel .writeTarget .failure), after) ∧
      after.kernel.machine.space.Seals Layout.threePages.code := by
  obtain ⟨after, hrun⟩ := Image.patch_unwritten
  have hnot : ¬ SealRefused (((Image.threePages {}).patch .other Space.imageBase #[0xcc]).exchanges
      (World.preparedPages ⟨.write, 0, .failure⟩).kernel) := by decide +kernel
  have hseals := (Image.Attempts.seals_unless_refused (.patch Space.imageBase #[0xcc])
    (Image.reaches_preparedPages ⟨.write, 0, .failure⟩) Space.seals_preparedPages hrun nofun).1 hnot
  rw [hrun] at hseals
  exact ⟨after, hrun, hseals⟩

/-- If its pages cannot be closed again, a patch of the small process fails with an error that is not fatal, and leaves code that
cannot be executed. -/
theorem Image.Attempts.exposes_unsealed : ∃ (error : Error) (after : World Testbed),
    (Image.threePages {}).Reaches .other (.preparedPages ⟨.protect, 1, .protectionFailure⟩) [] ∧
      Space.preparedPages.Seals Layout.threePages.code ∧
      ((Image.threePages {}).patch .other Space.imageBase #[0xcc]).run (.preparedPages ⟨.protect, 1, .protectionFailure⟩) =
        (.failed error, after) ∧
      error.isFatal = false ∧
      ¬ ∀ a, Layout.threePages.code.base ≤ a → a < Layout.threePages.code.base + Layout.threePages.code.size →
        ∃ p, after.kernel.machine.space.protectionAt a = some p ∧ p.execute = true := by
  have hreaches := Image.reaches_preparedPages ⟨.protect, 1, .protectionFailure⟩
  obtain ⟨after, hrun⟩ := Image.patch_unsealed
  have hrefused : SealRefused (((Image.threePages {}).patch .other Space.imageBase #[0xcc]).exchanges
      (World.preparedPages ⟨.protect, 1, .protectionFailure⟩).kernel) := by decide +kernel
  refine ⟨_, after, hreaches, Space.seals_preparedPages, hrun, rfl, ?_⟩
  obtain ⟨_, hoverwrites⟩ := (Image.Attempts.patch Space.imageBase #[0xcc]).overwrites hrun nofun
  have hevolves := Testbed.evolves_run ((Image.threePages {}).patch .other Space.imageBase #[0xcc])
    (.preparedPages ⟨.protect, 1, .protectionFailure⟩)
  rw [hrun] at hevolves
  obtain ⟨⟨old, hold⟩, -⟩ := hreaches.invariant
  obtain ⟨m, hmaps⟩ := Space.MapsTo.of_holds hold
  cases hoverwrites.leftIn hmaps Space.seals_preparedPages hevolves with
  | closed hnot => exact absurd hrefused hnot
  | exposed _ hexposes =>
    obtain ⟨a, h1, h2, hopen⟩ := hexposes
    intro hexecutable
    obtain ⟨p, hp, hexecute⟩ := hexecutable a h1 h2
    rw [hopen] at hp
    cases hp
    cases hexecute

end LivePatch
