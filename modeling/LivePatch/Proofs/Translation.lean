import LivePatch.Engine.Shadow

/-!
# Translation is a partial bijection

A shadow image is as far from the code that it copies in every byte, so an address of the code and the address of its copy
determine each other. The two directions are computed differently: the way to the copy asks whether the address lies in the
code and then moves it, the way back subtracts first and compares the distance with the length of the code. Both are followed
here to one relation between the two addresses, which says where the code is and which distance both keep; what is asked of
the two functions together is read off that relation. The shadow image may lie anywhere, also across the code itself.
-/

namespace LivePatch

namespace Shadow

variable {shadow : Shadow} {a b : Address}

/-- An address in the code and one that is as far from the start of the shadow image as the first from the start of the code. -/
structure Pairs (shadow : Shadow) (a b : Address) : Prop where
  base_le : shadow.code.base ≤ a
  lt_limit : a < shadow.code.base + shadow.code.size
  aligned : a + shadow.base = b + shadow.code.base

namespace Pairs

/-- The copy lies in the stretch of the shadow image that is as long as the code. -/
theorem copy_bounds (h : shadow.Pairs a b) : shadow.base ≤ b ∧ b < shadow.base + shadow.code.size := by
  have hbase := h.base_le
  have hlimit := h.lt_limit
  have haligned := h.aligned
  exact ⟨by lia, by lia⟩

/-- Seen as integers, the two addresses are equally far from where the code and the shadow image start: no subtraction of one
natural number from another is cut off at zero. -/
theorem offset_eq (h : shadow.Pairs a b) : (b : Int) - shadow.base = a - shadow.code.base := by
  have haligned := h.aligned
  lia

end Pairs

/-- Every address of the code has a partner. -/
theorem exists_pairs_iff_code : (∃ b, shadow.Pairs a b) ↔ shadow.code.base ≤ a ∧ a < shadow.code.base + shadow.code.size := by
  constructor
  · rintro ⟨b, h⟩
    exact ⟨h.base_le, h.lt_limit⟩
  · rintro ⟨hbase, hlimit⟩
    exact ⟨shadow.base + (a - shadow.code.base), hbase, hlimit, by lia⟩

/-- So has every address of the stretch of the shadow image that is as long as the code. -/
theorem exists_pairs_iff_copy : (∃ a, shadow.Pairs a b) ↔ shadow.base ≤ b ∧ b < shadow.base + shadow.code.size := by
  constructor
  · rintro ⟨a, h⟩
    exact h.copy_bounds
  · rintro ⟨hbase, hlimit⟩
    exact ⟨shadow.code.base + (b - shadow.base), by lia, by lia, by lia⟩

/-- The way to the copy, if the code and its copy end at addresses: no sum is too large, whatever the address. -/
theorem toCopy_eq (hcode : shadow.code.base + shadow.code.size < Word.count)
    (hcopy : shadow.base + shadow.code.size < Word.count) (a : Address) :
    shadow.toCopy a = some
      (if shadow.code.base ≤ a ∧ a < shadow.code.base + shadow.code.size then some (a - shadow.code.base + shadow.base) else none) := by
  have hlimit : shadow.code.limit = some (shadow.code.base + shadow.code.size) := Word.add_eq_some_iff.2 ⟨rfl, hcode⟩
  unfold toCopy Region.contains
  rw [hlimit]
  by_cases hin : shadow.code.base ≤ a ∧ a < shadow.code.base + shadow.code.size
  · have hsum : Word.add (a - shadow.code.base) shadow.base = some (a - shadow.code.base + shadow.base) :=
      Word.add_eq_some_iff.2 ⟨rfl, by lia⟩
    simp [hin, hsum]
  · simp [hin]

/-- The way back, if the code ends at an address. Where the shadow image lies makes no difference. -/
theorem toCode_eq (hcode : shadow.code.base + shadow.code.size < Word.count) (b : Address) :
    shadow.toCode b = some
      (if shadow.base ≤ b ∧ b - shadow.base < shadow.code.size then some (shadow.code.base + (b - shadow.base)) else none) := by
  unfold toCode
  by_cases hin : shadow.base ≤ b ∧ b - shadow.base < shadow.code.size
  · have hsum : Word.add shadow.code.base (b - shadow.base) = some (shadow.code.base + (b - shadow.base)) :=
      Word.add_eq_some_iff.2 ⟨rfl, by lia⟩
    simp [hin, hsum]
  · simp [hin]

/-- An address is taken to its partner, and only to that. -/
theorem toCopy_eq_some_iff_pairs (hcode : shadow.code.base + shadow.code.size < Word.count)
    (hcopy : shadow.base + shadow.code.size < Word.count) : shadow.toCopy a = some (some b) ↔ shadow.Pairs a b := by
  rw [toCopy_eq hcode hcopy a, Option.some_inj]
  constructor
  · intro h
    obtain ⟨⟨hbase, hlimit⟩, hb⟩ := Option.ite_none_right_eq_some.1 h
    exact ⟨hbase, hlimit, by cases hb; lia⟩
  · rintro ⟨hbase, hlimit, haligned⟩
    rw [if_pos ⟨hbase, hlimit⟩]
    exact congrArg some (by lia)

/-- A partner is taken back to where it came from, and only to that. -/
theorem toCode_eq_some_iff_pairs (hcode : shadow.code.base + shadow.code.size < Word.count) :
    shadow.toCode b = some (some a) ↔ shadow.Pairs a b := by
  rw [toCode_eq hcode b, Option.some_inj]
  constructor
  · intro h
    obtain ⟨⟨hbase, hlt⟩, ha⟩ := Option.ite_none_right_eq_some.1 h
    cases ha
    exact ⟨by lia, by lia, by lia⟩
  · rintro ⟨hbase, hlimit, haligned⟩
    rw [if_pos ⟨by lia, by lia⟩]
    exact congrArg some (by lia)

/-- The two translations are the two directions of one bijection between the code and the stretch of the shadow image that is as
long, and crash on no address. -/
structure Bijective (shadow : Shadow) : Prop where
  /-- Neither direction crashes, on no address at all. -/
  total : ∀ address, (∃ copy, shadow.toCopy address = some copy) ∧ ∃ origin, shadow.toCode address = some origin
  /-- Each direction undoes the other, and is defined where the other one leads. -/
  inverse : ∀ a b, shadow.toCopy a = some (some b) ↔ shadow.toCode b = some (some a)
  /-- Exactly the addresses of the code have copies. -/
  domain : ∀ a, (∃ b, shadow.toCopy a = some (some b)) ↔ shadow.code.base ≤ a ∧ a < shadow.code.base + shadow.code.size
  /-- Exactly the addresses of that stretch are copies. -/
  range : ∀ b, (∃ a, shadow.toCopy a = some (some b)) ↔ shadow.base ≤ b ∧ b < shadow.base + shadow.code.size
  /-- As integers, an address and its copy are equally far from the two starts: no difference was cut off at zero on the way. -/
  offset : ∀ a b, shadow.toCopy a = some (some b) → (b : Int) - shadow.base = a - shadow.code.base
  /-- Distances between addresses are those between their copies. -/
  distance : ∀ a b a' b', shadow.toCopy a = some (some b) → shadow.toCopy a' = some (some b') → (b' : Int) - b = a' - a

/-- If the code and the stretch of the shadow image that is as long end at addresses, the two translations are a bijection between
them. -/
theorem bijective_of_limits (hcode : shadow.code.base + shadow.code.size < Word.count)
    (hcopy : shadow.base + shadow.code.size < Word.count) : shadow.Bijective where
  total := fun address => ⟨⟨_, toCopy_eq hcode hcopy address⟩, ⟨_, toCode_eq hcode address⟩⟩
  inverse := fun a b => by rw [toCopy_eq_some_iff_pairs hcode hcopy, toCode_eq_some_iff_pairs hcode]
  domain := fun a => by simp only [toCopy_eq_some_iff_pairs hcode hcopy, exists_pairs_iff_code]
  range := fun b => by simp only [toCopy_eq_some_iff_pairs hcode hcopy, exists_pairs_iff_copy]
  offset := fun a b h => ((toCopy_eq_some_iff_pairs hcode hcopy).1 h).offset_eq
  distance := by
    intro a b a' b' h h'
    have hoffset := ((toCopy_eq_some_iff_pairs hcode hcopy).1 h).offset_eq
    have hoffset' := ((toCopy_eq_some_iff_pairs hcode hcopy).1 h').offset_eq
    lia

/-- A shadow image that ends right below the last address, across the end of the code that it copies. -/
theorem bijective_across : ∃ shadow : Shadow,
    shadow.code.base + shadow.code.size < Word.count ∧ shadow.base + shadow.code.size = Word.count - 1 ∧
      shadow.base < shadow.code.base + shadow.code.size ∧ shadow.Bijective :=
  have hcode : 0xffffffffffffd000 + 0x2000 < Word.count := by decide
  have hcopy : 0xffffffffffffdfff + 0x2000 < Word.count := by decide
  ⟨⟨0xffffffffffffdfff, 0x2000, ⟨0xffffffffffffd000, 0x2000, .readExecute⟩⟩, hcode, by decide, by decide,
    bijective_of_limits hcode hcopy⟩

end Shadow

end LivePatch
