import LivePatch.Engine.Program

/-!
# Running programs

A program runs in a world: a kernel, which serves its requests, and a journal, which takes its events. Both keep what was
done before an error or a crash.
-/

namespace LivePatch

/-- What a program runs in. -/
structure World (κ : Type) where
  /-- The kernel. -/
  kernel : κ
  /-- The events so far. -/
  journal : Array Event := #[]

/-- Runs a program to its end. -/
def Program.run {κ ε α : Type} [Kernel κ] : Program ε α → World κ → Outcome ε α × World κ
  | done value, world => (.done value, world)
  | failed error, world => (.failed error, world)
  | crashed, world => (.crashed, world)
  | emit event next, world => next.run { world with journal := world.journal.push event }
  | ask request next, world =>
    match Kernel.serve request world.kernel with
    | (some reply, kernel) => (next reply).run { world with kernel := kernel }
    | (none, kernel) => (.crashed, { world with kernel := kernel })

namespace Program

variable {κ ε ε' α β : Type} [Kernel κ]

@[simp] theorem run_done (a : α) (world : World κ) : (done a : Program ε α).run world = (.done a, world) := rfl

@[simp] theorem run_failed (e : ε) (world : World κ) : (failed e : Program ε α).run world = (.failed e, world) := rfl

@[simp] theorem run_crashed (world : World κ) : (crashed : Program ε α).run world = (.crashed, world) := rfl

@[simp] theorem run_emit (event : Event) (next : Program ε α) (world : World κ) :
    (emit event next).run world = next.run { world with journal := world.journal.push event } := rfl

/-- A sequence runs its second part in the world that the first part leaves, unless the first part does not end well. -/
theorem run_bind (x : Program ε α) (f : α → Program ε β) (world : World κ) :
    (x >>= f).run world =
      match x.run world with
      | (.done a, world') => (f a).run world'
      | (.failed e, world') => (.failed e, world')
      | (.crashed, world') => (.crashed, world') := by
  induction x generalizing world with
  | done | failed | crashed => rfl
  | emit event next ih => exact ih _
  | ask request next ih =>
    simp only [ask_bind, run]
    rcases Kernel.serve request world.kernel with ⟨_ | reply, kernel⟩
    · rfl
    · exact ih reply _

/-- A sequence fails in its first part, or in its second part behind a first one that ends well. -/
theorem failed_of_run_bind {x : Program ε α} {f : α → Program ε β} {world after : World κ} {error : ε}
    (h : (x >>= f).run world = (.failed error, after)) :
    x.run world = (.failed error, after) ∨
      ∃ a between, x.run world = (.done a, between) ∧ (f a).run between = (.failed error, after) := by
  rw [run_bind] at h
  rcases hx : x.run world with ⟨a | error' | _, between⟩
  · rw [hx] at h
    exact Or.inr ⟨a, between, rfl, h⟩
  · rw [hx] at h
    cases h
    exact Or.inl rfl
  · rw [hx] at h
    cases h

/-- An attempt does what the program does, and has its error for a value. -/
theorem run_attempt (x : Program ε α) (world : World κ) :
    (x.attempt : Program ε' (Except ε α)).run world =
      match x.run world with
      | (.done a, world') => (.done (.ok a), world')
      | (.failed e, world') => (.done (.error e), world')
      | (.crashed, world') => (.crashed, world') := by
  induction x generalizing world with
  | done | failed | crashed => rfl
  | emit event next ih => exact ih _
  | ask request next ih =>
    simp only [attempt, run]
    rcases Kernel.serve request world.kernel with ⟨_ | reply, kernel⟩
    · rfl
    · exact ih reply _

end Program

end LivePatch
