import LivePatch.Proofs.Engine.Serving
import LivePatch.Proofs.Space.Cells

/-!
# What a successful preparation leaves

A preparation that succeeds adds one mapping, the shadow image, and changes nothing else but the protection of the code, which
can be executed on every page. The shadow image holds the three regions as they lie: one displacement leads from each of their
bytes to its copy.
-/

namespace LivePatch

/-! ## Single bytes -/

/-- A look at an address of a mapping shows its byte. -/
theorem Space.WellFormed.peek_byte {space : Space} {m : Mapping} {a : Address} (h : space.WellFormed) (hs : space.Addressable)
    (hm : m ∈ space) (ha : m.Covers a) : ∃ byte, m.bytes[a - m.base]? = some byte ∧ space.peek a 1 = some #[byte] := by
  have hlt : a - m.base < m.bytes.size := by
    have h1 := ha.1
    have h2 := ha.2
    simp only [Mapping.stop, Mapping.size] at h2
    lia
  have hbyte : m.bytes[a - m.base]? = some m.bytes[a - m.base] := Array.getElem?_eq_getElem hlt
  exact ⟨_, hbyte, (h.byteAt_iff_peek hs).1 ((h.byteAt_iff hm ha).2 hbyte)⟩

/-! ## The memory after a preparation -/

/-- The image stands in the memory `after`, which was `before`: the three regions were found from `base` on, and the shadow image
is the new mapping. -/
structure Image.Established (image : Image) (base : Address) (before after : Space) (code constants data shadow : Mapping) :
    Prop where
  found : before.CodeAt base code
  constants_mem : constants ∈ before
  data_mem : data ∈ before
  code_stop : code.stop = constants.base
  constants_stop : constants.stop = data.base
  code_base : image.code.base = code.base
  code_size : image.code.size = code.size
  shadow_eq : image.shadow = ⟨shadow.base, shadow.size, image.code⟩
  wellFormed : after.WellFormed
  mem_iff : ∀ m, m ∈ after ↔ m = shadow ∨ m = code.painted .readExecute ∨ (m ∈ before ∧ m ≠ code)
  apart : ∀ m ∈ before, m.stop ≤ shadow.base ∨ shadow.stop ≤ m.base
  size_eq : shadow.size = code.size + constants.size + data.size
  sealed : ∀ p ∈ shadow.pages, p = .readExecute
  mirrored : ∀ a, code.base ≤ a → a < data.stop →
    ∃ byte, after.peek a 1 = some #[byte] ∧ after.peek (shadow.base + (a - code.base)) 1 = some #[byte]

section

variable {before : Space} {layout : Layout} {code constants data x : Mapping}

/-- The memory after a preparation is well-formed and addressable. -/
theorem Mapping.Mirrors.prepared (hx : x.Mirrors before code constants data) (hwf : before.WellFormed) (hs : before.Addressable)
    (hcode : code ∈ before) :
    Space.WellFormed (before.update (code.painted .readExecute) ++ [x]) ∧
      Space.Addressable (before.update (code.painted .readExecute) ++ [x]) := by
  have hshape := Mapping.sameShape_painted code .readExecute
  have hmem := List.mem_append_left [x] hcode
  rw [← hx.update_append (m := code.painted .readExecute) hwf hcode rfl]
  exact ⟨(hx.wellFormed_append hwf).update hmem hshape, (hx.addressable_append hs).update hmem hshape⟩

/-- After a preparation the mappings are those from before, with the code executable, and the shadow image. -/
theorem Space.WellFormed.mem_prepared_iff (hwf : before.WellFormed) (hcode : code ∈ before) (m : Mapping) :
    m ∈ before.update (code.painted .readExecute) ++ [x] ↔ m = x ∨ m = code.painted .readExecute ∨ (m ∈ before ∧ m ≠ code) := by
  have hbase : ∀ {m}, m ∈ before → (m.base ≠ (code.painted .readExecute).base ↔ m ≠ code) := fun hm =>
    not_congr ⟨fun h => hwf.eq_of_base_eq hm hcode h, fun h => h ▸ rfl⟩
  rw [List.mem_append, List.mem_singleton, Space.mem_update_iff, or_comm]
  refine or_congr_right (or_congr (and_iff_left ⟨code, hcode, rfl⟩) (and_congr_right hbase))

/-- An address of the three regions lies in one of their mappings, and the byte there is the one that the shadow image has at the
distance of the address from the start of the code. -/
theorem Layout.Maps.exists_covers (hmaps : layout.Maps before code constants data) (hx : x.Mirrors before code constants data)
    {a : Address} (h1 : code.base ≤ a) (h2 : a < data.stop) :
    ∃ m, (m = code ∨ m = constants ∨ m = data) ∧ m.Covers a ∧ x.bytes[a - code.base]? = m.bytes[a - m.base]? := by
  have hbytes : x.bytes = code.bytes ++ (constants.bytes ++ data.bytes) := by
    rw [hx.bytes]
    simp only [Mapping.contents, Array.append_empty]
  have hcode : code.stop = code.base + code.bytes.size := rfl
  have hconstants : constants.stop = constants.base + constants.bytes.size := rfl
  have hnext := hmaps.code_stop
  have hlast := hmaps.constants_stop
  rw [hbytes]
  rcases Nat.lt_or_ge a code.stop with hlt | hge
  · refine ⟨code, Or.inl rfl, ⟨h1, hlt⟩, Array.getElem?_append_left ?_⟩
    lia
  · rw [Array.getElem?_append_right (by lia), show a - code.base - code.bytes.size = a - constants.base by lia]
    rcases Nat.lt_or_ge a constants.stop with hlt | hge'
    · refine ⟨constants, Or.inr (Or.inl rfl), ⟨hnext ▸ hge, hlt⟩, Array.getElem?_append_left ?_⟩
      lia
    · rw [Array.getElem?_append_right (by lia), show a - constants.base - constants.bytes.size = a - data.base by lia]
      exact ⟨data, Or.inr (Or.inr rfl), ⟨hlast ▸ hge', h2⟩, rfl⟩

/-- Every byte of the three regions has its copy at the same distance from the start of the shadow image. -/
theorem Layout.Maps.mirrored (hmaps : layout.Maps before code constants data) (hwf : before.WellFormed) (hs : before.Addressable)
    (hx : x.Mirrors before code constants data) {a : Address} (h1 : code.base ≤ a) (h2 : a < data.stop) :
    ∃ byte, (before.update (code.painted .readExecute) ++ [x]).peek a 1 = some #[byte] ∧
      (before.update (code.painted .readExecute) ++ [x]).peek (x.base + (a - code.base)) 1 = some #[byte] := by
  obtain ⟨hwf', hs'⟩ := hx.prepared hwf hs hmaps.code_mem
  obtain ⟨m, hm, hcovers, hsame⟩ := hmaps.exists_covers hx h1 h2
  -- the mapping is still there, and if it is the code, only its pages changed
  obtain ⟨m', hm', hbase, hbytes⟩ : ∃ m' ∈ before.update (code.painted .readExecute) ++ [x],
      m'.base = m.base ∧ m'.bytes = m.bytes := by
    by_cases hcode : m = code
    · exact ⟨code.painted .readExecute, (hwf.mem_prepared_iff hmaps.code_mem _).2 (Or.inr (Or.inl rfl)), hcode ▸ rfl, hcode ▸ rfl⟩
    · have hmem : m ∈ before := by
        rcases hm with rfl | rfl | rfl
        · exact hmaps.code_mem
        · exact hmaps.constants_mem
        · exact hmaps.data_mem
      exact ⟨m, (hwf.mem_prepared_iff hmaps.code_mem _).2 (Or.inr (Or.inr ⟨hmem, hcode⟩)), rfl, rfl⟩
  have hcovers' : m'.Covers a := by
    rw [Mapping.Covers, Mapping.stop, Mapping.size, hbase, hbytes]
    exact hcovers
  obtain ⟨byte, hbyte, hpeek⟩ := hwf'.peek_byte hs' hm' hcovers'
  rw [hbase, hbytes, ← hsame] at hbyte
  obtain ⟨hlt, -⟩ := Array.getElem?_eq_some_iff.1 hbyte
  have hx' : x ∈ before.update (code.painted .readExecute) ++ [x] := List.mem_append_right _ List.mem_cons_self
  have hcopied : x.Covers (x.base + (a - code.base)) := ⟨Nat.le_add_right _ _, Nat.add_lt_add_left hlt _⟩
  obtain ⟨byte', hbyte', hpeek'⟩ := hwf'.peek_byte hs' hx' hcopied
  rw [Nat.add_sub_cancel_left, hbyte] at hbyte'
  cases hbyte'
  exact ⟨byte, hpeek, hpeek'⟩

end

/-- A preparation that succeeds establishes the image that it gives. -/
theorem Image.prepare_establishes {host : Host} {attempted : Bool} {imageBase : Address} {pageSize : Nat} {config : Config}
    {world after : World Testbed} {image : Image} (hwf : world.kernel.machine.space.WellFormed)
    (hs : world.kernel.machine.space.Addressable)
    (hrun : (Image.prepare host attempted imageBase pageSize config).run world = (.done image, after)) :
    ∃ code constants data shadow, image.Established (config.imageBase.getD imageBase) world.kernel.machine.space
      after.kernel.machine.space code constants data shadow := by
  have hwp : (Image.prepare host attempted imageBase pageSize config).wp
      (fun image bed => ∃ code constants data shadow, image.Established (config.imageBase.getD imageBase)
        world.kernel.machine.space bed.machine.space code constants data shadow) (fun _ _ => True) (fun _ => True)
      world.kernel := by
    refine Testbed.wp_prepare (fun _ => trivial) (Testbed.wp_establish hwf hs
      (fun layout code constants data x bed' _ hl hmaps hx hspace => ?_) (fun _ _ _ _ _ _ => trivial)
      (fun _ _ _ _ _ _ => trivial) (fun _ _ _ _ _ _ _ _ => trivial) fun _ _ => trivial)
    refine ⟨code, constants, data, x, ?_⟩
    rw [hspace]
    exact {
      found := ⟨hmaps.code_mem, layout.code, hl.code, hmaps.code_base⟩
      constants_mem := hmaps.constants_mem
      data_mem := hmaps.data_mem
      code_stop := hmaps.code_stop
      constants_stop := hmaps.constants_stop
      code_base := hmaps.code_base
      code_size := hmaps.code_size
      shadow_eq := rfl
      wellFormed := (hx.prepared hwf hs hmaps.code_mem).1
      mem_iff := hwf.mem_prepared_iff hmaps.code_mem
      apart := fun m hm => Or.inl (Nat.le_trans (Nat.le_add_right _ _) (hx.behind m hm))
      size_eq := by rw [Mapping.size, hx.bytes, Mapping.size_contents]
      sealed := hx.pages
      mirrored := fun a h1 h2 => hmaps.mirrored hwf hs hx h1 h2 }
  exact Program.wp_run_done hwp hrun

/-- A small process is established as such. -/
theorem Image.prepare_threePages_establishes : ∃ (image : Image) (after : World Testbed) (code constants data shadow : Mapping),
    (Image.prepare .other false Space.imageBase pageBytes {}).run { kernel := .threePages } = (.done image, after) ∧
      image.Established Space.imageBase Space.threePages after.kernel.machine.space code constants data shadow := by
  obtain ⟨image, after, hprepared, -⟩ := Testbed.exists_prepared_threePages
  obtain ⟨code, constants, data, shadow, hestablished⟩ :=
    Image.prepare_establishes Space.wellFormed_threePages Space.addressable_threePages hprepared
  exact ⟨image, after, code, constants, data, shadow, hprepared, hestablished⟩

end LivePatch
