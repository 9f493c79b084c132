import LivePatch.Proofs.Space.Protections

/-!
# Which ranges may be accessed

A call that reads or writes a range is done exactly if one mapping holds the range and every page that it touches grants the access. If
no mapping holds it, the address is invalid; if one does and a page refuses, it is the protection. A copy asks for its source first.
-/

namespace LivePatch

/-- A call that is done exactly if it is admitted, and otherwise fails with a code for which it is denied. -/
structure Outcome.Decides {α : Type} (outcome : Outcome KernelCode α) (admitted : Prop) (denied : KernelCode → Prop) : Prop where
  returns : outcome ≠ .crashed
  done_iff : (∃ value, outcome = .done value) ↔ admitted
  failed_iff : ∀ code, outcome = .failed code ↔ denied code

namespace Outcome.Decides

variable {α β : Type} {x : Outcome KernelCode α} {admitted admitted' : Prop} {denied denied' : KernelCode → Prop} {code : KernelCode}

/-- To be done where that is admitted, and not denied, is to decide. -/
theorem done (h : admitted) (hdenied : ∀ code, ¬ denied code) (value : α) :
    (Outcome.done value : Outcome KernelCode α).Decides admitted denied where
  returns := nofun
  done_iff := iff_of_true ⟨value, rfl⟩ h
  failed_iff := fun code => iff_of_false nofun (hdenied code)

/-- So is to fail with the only code for which it is denied. -/
theorem failed (h : ¬ admitted) (hdenied : ∀ code', denied code' ↔ code' = code) :
    (Outcome.failed code : Outcome KernelCode α).Decides admitted denied where
  returns := nofun
  done_iff := iff_of_false (by rintro ⟨_, ⟨⟩⟩) h
  failed_iff := fun code' => by rw [hdenied, Outcome.failed.injEq, eq_comm]

/-- What is computed behind a call changes nothing about how it ends. -/
theorem bind_done (h : x.Decides admitted denied) (f : α → β) : (x >>= fun value => .done (f value)).Decides admitted denied := by
  obtain ⟨hreturns, hdone, hfailed⟩ := h
  rcases x with value | code | _
  · exact ⟨nofun, by simpa using hdone, by simpa using hfailed⟩
  · exact ⟨nofun, by simpa using hdone, by simpa using hfailed⟩
  · exact absurd rfl hreturns

/-- Of two calls, the second one is asked for only if the first one is done. -/
theorem bind {f : α → Outcome KernelCode β} (h : x.Decides admitted denied)
    (hf : ∀ value, x = .done value → (f value).Decides admitted' denied') :
    (x >>= f).Decides (admitted ∧ admitted') fun code => denied code ∨ (admitted ∧ denied' code) := by
  obtain ⟨hreturns, hdone, hfailed⟩ := h
  rcases x with value | code | _
  · have hadmitted : admitted := hdone.1 ⟨value, rfl⟩
    have hnone : ∀ code, ¬ denied code := fun code hcode => nomatch (hfailed code).2 hcode
    obtain ⟨hreturns', hdone', hfailed'⟩ := hf value rfl
    rw [Outcome.done_bind]
    refine ⟨hreturns', hdone'.trans (by simp [hadmitted]), fun code => (hfailed' code).trans ?_⟩
    simp [hadmitted, hnone code]
  · have hrefused : ¬ admitted := fun hadmitted => by
      obtain ⟨_, hvalue⟩ := hdone.2 hadmitted
      cases hvalue
    rw [Outcome.failed_bind]
    refine ⟨nofun, by simp [hrefused], fun code' => ?_⟩
    rw [← hfailed code']
    simp [hrefused]
  · exact absurd rfl hreturns

end Outcome.Decides

namespace Space

variable {space : Space} {m : Mapping} {a d s : Address} {n : Nat} {needed : Protection} {bytes : Bytes} {code code' : KernelCode}

/-- One mapping holds the whole range. -/
def Includes (space : Space) (a : Address) (n : Nat) : Prop := ∃ m ∈ space, m.base ≤ a ∧ a + n ≤ m.stop

/-- The pages of all addresses of the range grant the access. -/
def Grants (space : Space) (a : Address) (n : Nat) (needed : Protection) : Prop :=
  ∀ b p, a ≤ b → b < a + n → space.PageAt b p → p.allows needed

/-- One mapping holds the range, and every page that it touches grants the access. -/
structure Admits (space : Space) (a : Address) (n : Nat) (needed : Protection) : Prop where
  included : space.Includes a n
  granted : space.Grants a n needed

/-- What a range is denied with: no mapping holds it, or one does, but a page refuses the access. -/
inductive Denies (space : Space) (a : Address) (n : Nat) (needed : Protection) : KernelCode → Prop where
  | outside (h : ¬ space.Includes a n) : Denies space a n needed .invalidAddress
  | withheld (h : space.Includes a n) (hrefused : ¬ space.Grants a n needed) : Denies space a n needed .protectionFailure

theorem Denies.not_admits (h : space.Denies a n needed code) : ¬ space.Admits a n needed := by
  intro hadmits
  cases h with
  | outside h => exact h hadmits.included
  | withheld _ hrefused => exact hrefused hadmits.granted

theorem Denies.unique (h : space.Denies a n needed code) (h' : space.Denies a n needed code') : code = code' := by
  cases h with
  | outside h =>
    cases h' with
    | outside => rfl
    | withheld h' => exact absurd h' h
  | withheld h =>
    cases h' with
    | outside h' => exact absurd h h'
    | withheld => rfl

/-- To be done where the range is admitted is to decide by that. -/
theorem Admits.decides {α : Type} (h : space.Admits a n needed) (value : α) :
    (Outcome.done value : Outcome KernelCode α).Decides (space.Admits a n needed) (space.Denies a n needed) :=
  .done h (fun _ hdenies => hdenies.not_admits h) value

/-- So is to fail with what the range is denied with. -/
theorem Denies.decides {α : Type} (h : space.Denies a n needed code) :
    (Outcome.failed code : Outcome KernelCode α).Decides (space.Admits a n needed) (space.Denies a n needed) := by
  refine .failed h.not_admits fun code' => ⟨fun hdenies => hdenies.unique h, ?_⟩
  rintro rfl
  exact h

/-- The pages that a range inside a mapping touches are the pages of its addresses. -/
theorem WellFormed.pages_granted_iff (h : space.WellFormed) (needed : Protection) (hm : m ∈ space) (hn : 0 < n) (ha : m.base ≤ a)
    (han : a + n ≤ m.stop) :
    (∀ i, m.pageOf a ≤ i → i ≤ m.pageOf (a + n - 1) → ∀ p, m.pages[i]? = some p → p.allows needed) ↔
      space.Grants a n needed := by
  constructor
  · rintro hpages b p hab hbn ⟨x, hx, hcovers, hp⟩
    cases h.eq_of_covers hx hm hcovers ⟨by lia, by lia⟩
    refine hpages (m.pageOf b) ?_ ?_ p hp
    · exact Nat.div_le_div_right (Nat.sub_le_sub_right hab _)
    · exact Nat.div_le_div_right (Nat.sub_le_sub_right (by lia) _)
  · intro hgranted i hfirst hlast p hp
    -- the first address of the range that the page holds
    have hpage : a ≤ max a (m.base + i * pageBytes) ∧ max a (m.base + i * pageBytes) < a + n ∧
        m.pageOf (max a (m.base + i * pageBytes)) = i := by
      simp only [Mapping.pageOf, pageBytes] at *
      lia
    obtain ⟨hle, hlt, hi⟩ := hpage
    refine hgranted _ p hle hlt ⟨m, hm, ⟨Nat.le_trans ha hle, Nat.lt_of_lt_of_le hlt han⟩, ?_⟩
    rw [hi]
    exact hp

/-- If no mapping holds a range, none is found. -/
theorem holding_eq_failed (hs : space.Addressable) (hend : a + n < Word.count) (h : ¬ space.Includes a n) :
    space.holding a n = .failed .invalidAddress := by
  unfold holding
  split
  · rfl
  · rename_i m hm
    obtain ⟨hmem, hbase⟩ := mem_of_atOrBelow?_eq_some hm
    have hadd : Word.add a n = some (a + n) := Word.add_eq_some_iff.2 ⟨rfl, hend⟩
    have hshort : m.stop < a + n := Nat.lt_of_not_le fun hstop => h ⟨m, hmem, hbase, hstop⟩
    simp [hadd, Mapping.limit_of_lt (hs m hmem), hshort]

/-- Access to a range with bytes is granted exactly if it is admitted. -/
theorem WellFormed.granting_decides (h : space.WellFormed) (hs : space.Addressable) (hn : 0 < n) (hend : a + n < Word.count) :
    (space.granting a n needed).Decides (space.Admits a n needed) (space.Denies a n needed) := by
  by_cases hincludes : space.Includes a n
  · obtain ⟨m, hm, ha, han⟩ := hincludes
    have hiff := h.pages_granted_iff needed hm hn ha han
    by_cases hgrants : space.Grants a n needed
    · rw [h.granting_eq_done hm (hs m hm) hn ha han (hiff.2 hgrants)]
      exact Admits.decides ⟨⟨m, hm, ha, han⟩, hgrants⟩ m
    · rw [h.granting_eq_failed hm (hs m hm) hn ha han (mt hiff.1 hgrants)]
      exact Denies.decides (.withheld ⟨m, hm, ha, han⟩ hgrants)
  · have hfailed : space.granting a n needed = .failed .invalidAddress := by
      rw [granting, holding_eq_failed hs hend hincludes, Outcome.failed_bind]
    rw [hfailed]
    exact Denies.decides (.outside hincludes)

theorem WellFormed.load_decides (h : space.WellFormed) (hs : space.Addressable) (hn : 0 < n) (hend : a + n < Word.count) :
    (space.load a n).Decides (space.Admits a n .readOnly) (space.Denies a n .readOnly) :=
  (h.granting_decides hs hn hend).bind_done _

theorem WellFormed.store_decides (h : space.WellFormed) (hs : space.Addressable) (hn : 0 < bytes.size)
    (hend : a + bytes.size < Word.count) :
    (space.store a bytes).Decides (space.Admits a bytes.size .writeOnly) (space.Denies a bytes.size .writeOnly) :=
  (h.granting_decides hs hn hend).bind_done _

end Space

end LivePatch
