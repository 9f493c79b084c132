import LivePatch.Memory.PageSpan

/-!
# Spans of ranges

What a span is, without the arithmetic by which it is computed: it starts at the last page boundary that is not behind the range,
and it ends where the range ends. A span is there for every page size that is a power of two, if the range ends at an address.
-/

namespace LivePatch.PageSpan

variable {span : PageSpan} {target : Address} {len pageSize : Nat}

/-- The span starts at the last boundary that is not behind the range, and ends where the range ends. -/
structure Spans (span : PageSpan) (target : Address) (len pageSize : Nat) : Prop where
  dvd : pageSize ∣ span.start
  start_le : span.start ≤ target
  greatest : ∀ k, pageSize ∣ k → k ≤ target → k ≤ span.start
  stop_eq : span.start + span.size = target + len

/-- A range that ends at an address has a span. -/
theorem exists_covering (hpageSize : pageSize.isPowerOfTwo) (hend : target + len < Word.count) :
    ∃ span, covering target len pageSize = some span := by
  have hadd : Word.add target len = some (target + len) := Word.add_eq_some_iff.2 ⟨rfl, hend⟩
  rw [covering, if_pos hpageSize, hadd]
  exact ⟨_, rfl⟩

/-- The number below `target` that is computed is the last boundary. -/
theorem le_sub_mod {k : Nat} (hpos : 0 < pageSize) (hdvd : pageSize ∣ k) (hk : k ≤ target) : k ≤ target - target % pageSize := by
  -- with `k = pageSize * q`, the quotient of the target is at least `q`
  obtain ⟨q, rfl⟩ := hdvd
  have hquot : q ≤ target / pageSize := (Nat.le_div_iff_mul_le hpos).2 (Nat.mul_comm _ _ ▸ hk)
  have hmul : pageSize * q ≤ pageSize * (target / pageSize) := Nat.mul_le_mul_left _ hquot
  have hdiv := Nat.div_add_mod target pageSize
  lia

/-- What is computed for a range is its span. -/
theorem spans_of_covering (h : covering target len pageSize = some span) : span.Spans target len pageSize := by
  unfold covering at h
  split at h
  · rename_i hpageSize
    obtain ⟨stop, hstop, rfl⟩ := Option.map_eq_some_iff.1 h
    obtain ⟨rfl, -⟩ := Word.add_eq_some_iff.1 hstop
    have hle : target - target % pageSize ≤ target := Nat.sub_le _ _
    refine ⟨Nat.dvd_sub_mod target, hle, fun k => le_sub_mod (Nat.pos_of_isPowerOfTwo hpageSize), ?_⟩
    dsimp only
    lia
  · cases h

/-- The span of a range holds the whole range. -/
theorem subset_of_covering (h : covering target len pageSize = some span) :
    span.start ≤ target ∧ target + len ≤ span.start + span.size :=
  ⟨(spans_of_covering h).start_le, Nat.le_of_eq (spans_of_covering h).stop_eq.symm⟩

/-- If there are bytes in the range, the span holds the start of it. -/
theorem mem_of_covering (h : covering target len pageSize = some span) (hpos : 0 < len) :
    span.start ≤ target ∧ target < span.start + span.size :=
  ⟨(subset_of_covering h).1, Nat.lt_of_lt_of_le (Nat.lt_add_of_pos_right hpos) (subset_of_covering h).2⟩

/-- If the range has bytes, so has its span. -/
theorem Spans.size_pos (h : span.Spans target len pageSize) (hlen : 0 < len) : 0 < span.size := by
  have hle := h.start_le
  have hstop := h.stop_eq
  lia

end LivePatch.PageSpan
