import LivePatch.Proofs.Simulation.Rules

/-!
# Which calls will fail

Failures are ordered by the number of a call among those of its kind, so before anything is called it is settled which of the next
calls of a kind will fail. Queries count as calls of their kind and do nothing else: after some of them the test bed is the same but
for the record and the counter.
-/

namespace LivePatch

/-- The code with which the `n`-th call of a kind from now on fails, if it is to fail. -/
def Machine.ordered? (machine : Machine) (kind : CallKind) (n : Nat) : Option KernelCode :=
  (machine.injections.find? fun injection => injection.kind = kind ∧ injection.index = machine.counts kind + n).map (·.code)

/-- The test bed after some addresses were queried: the calls were recorded, and nothing else was done. -/
def Testbed.queried (bed : Testbed) (addresses : List Address) : Testbed :=
  { bed with machine := addresses.foldl (fun machine a => machine.recorded (.region a)) bed.machine }

namespace Testbed

variable {bed : Testbed}

theorem queried_concat (addresses : List Address) (a : Address) : bed.queried (addresses ++ [a]) =
    { bed.queried addresses with machine := (bed.queried addresses).machine.recorded (.region a) } := by
  simp [queried, List.foldl_append]

/-- Queries leave the memory and the threads as they were. -/
theorem still_queried (addresses : List Address) : bed.Still (bed.queried addresses) := by
  induction addresses generalizing bed with
  | nil => exact Still.refl bed
  | cons a rest ih => exact (still_recorded bed (.region a)).trans ih

theorem threads_queried (addresses : List Address) : (bed.queried addresses).machine.threads = bed.machine.threads := by
  induction addresses generalizing bed with
  | nil => rfl
  | cons a rest ih => exact @ih { bed with machine := bed.machine.recorded (.region a) }

theorem calls_queried (addresses : List Address) :
    (bed.queried addresses).machine.calls.toList = bed.machine.calls.toList ++ addresses.map .region := by
  induction addresses generalizing bed with
  | nil => exact (List.append_nil _).symm
  | cons a rest ih =>
    have hrest := @ih { bed with machine := bed.machine.recorded (.region a) }
    refine hrest.trans ?_
    simp [Machine.recorded]

theorem counts_queried (addresses : List Address) :
    (bed.queried addresses).machine.counts .region = bed.machine.counts .region + addresses.length := by
  induction addresses generalizing bed with
  | nil => rfl
  | cons a rest ih =>
    have hrest := @ih { bed with machine := bed.machine.recorded (.region a) }
    refine hrest.trans ?_
    simp only [Machine.recorded, Call.kind?, if_true, List.length_cons]
    omega

/-- Which query fails next depends on how many there were. -/
theorem injected?_queried (addresses : List Address) :
    (bed.queried addresses).machine.injected? .region = bed.machine.ordered? .region addresses.length := by
  rw [Machine.injected?, Machine.ordered?, counts_queried, (still_queried addresses).machine.injections]

/-- On a quiet test bed no query fails, however many there are. -/
theorem Quiet.ordered?_eq_none (h : bed.Quiet) (n : Nat) : bed.machine.ordered? .region n = none := by
  have hlater := (h.follows (still_queried (List.replicate n 0)).toFollows).injected?_eq_none .region
  rw [injected?_queried, List.length_replicate] at hlater
  exact hlater

end Testbed

end LivePatch
