/-!
# Outcomes

A computation of the engine ends in one of three ways. It is done and has a value; it has failed, with an error that its
caller may inspect and go on from; or it has crashed, because a sum left the 64-bit addresses, an index left its table or
an assertion was false. A crash is not an error: no caller can recover from it, and nothing runs after it.

Checked quantities are values of `Option`; `Outcome.require` turns a missing one into a crash.
-/

namespace LivePatch

/-- The three ways in which a computation ends. -/
inductive Outcome (ε α : Type) where
  /-- It ended with a value. -/
  | done (value : α)
  /-- It ended with an error that the caller may handle. -/
  | failed (error : ε)
  /-- It cannot go on, and neither can its caller. -/
  | crashed
  deriving DecidableEq, Repr

namespace Outcome

variable {ε α β : Type}

/-- Goes on with the value; an error or a crash passes through. -/
protected def bind (x : Outcome ε α) (f : α → Outcome ε β) : Outcome ε β :=
  match x with
  | .done a => f a
  | .failed e => .failed e
  | .crashed => .crashed

instance : Monad (Outcome ε) where
  pure := .done
  bind := Outcome.bind

@[simp] theorem pure_eq (a : α) : (pure a : Outcome ε α) = .done a := rfl

@[simp] theorem done_bind (a : α) (f : α → Outcome ε β) : (Outcome.done a >>= f) = f a := rfl

@[simp] theorem failed_bind (e : ε) (f : α → Outcome ε β) : (Outcome.failed e >>= f) = .failed e := rfl

@[simp] theorem crashed_bind (f : α → Outcome ε β) : ((Outcome.crashed : Outcome ε α) >>= f) = .crashed := rfl

instance : LawfulMonad (Outcome ε) := LawfulMonad.mk' _
  (fun x => by cases x <;> rfl)
  (fun _ _ => rfl)
  (fun x _ _ => by cases x <;> rfl)

/-- The outcome as a result that a caller can look at; a crash is none. -/
def toExcept? : Outcome ε α → Option (Except ε α)
  | .done a => some (.ok a)
  | .failed e => some (.error e)
  | .crashed => none

theorem toExcept?_eq_some_ok_iff {x : Outcome ε α} {a : α} : x.toExcept? = some (.ok a) ↔ x = .done a := by
  cases x <;> simp [toExcept?]

/-- The value must be there: a missing one is a crash. -/
def require : Option α → Outcome ε α
  | some a => .done a
  | none => .crashed

@[simp] theorem require_some (a : α) : (require (some a) : Outcome ε α) = .done a := rfl

@[simp] theorem require_none : (require (none : Option α) : Outcome ε α) = .crashed := rfl

/-- A value is required exactly when it is there. -/
theorem require_eq_done_iff {o : Option α} {a : α} : (require o : Outcome ε α) = .done a ↔ o = some a := by
  cases o <;> simp [require]

/-- A sequence is done exactly when its first part is done and its second part is done with the value. -/
theorem bind_eq_done_iff {x : Outcome ε α} {f : α → Outcome ε β} {b : β} :
    (x >>= f) = .done b ↔ ∃ a, x = .done a ∧ f a = .done b := by
  cases x <;> simp

end Outcome

end LivePatch
