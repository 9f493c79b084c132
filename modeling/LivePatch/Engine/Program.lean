import LivePatch.Diagnosis.Event
import LivePatch.Effect.Outcome

/-!
# Programs of the engine

What the engine does is a program: a tree of kernel requests and events, in which every request is followed by one branch for
each reply that may come back. A program ends with a value, with an error, or by crashing. It knows nothing of the kernel
that will serve it, so that what it may ask for, and in which order, can be read off the tree.

`attempt` is the only way to see an error and go on. No program sees a crash.
-/

namespace LivePatch

/-- A program that ends with a value of type `α` or an error of type `ε`. -/
inductive Program (ε α : Type) : Type where
  /-- Ends with a value. -/
  | done (value : α)
  /-- Ends with an error. -/
  | failed (error : ε)
  /-- Ends at once, together with whoever runs the program. -/
  | crashed
  /-- Writes an event into the journal and goes on. -/
  | emit (event : Event) (next : Program ε α)
  /-- Makes a request and goes on with the reply. -/
  | ask (request : Request) (next : request.Reply → Program ε α)

namespace Program

variable {ε ε' α β γ : Type}

/-- Goes on with the value of the first program. -/
protected def bind : Program ε α → (α → Program ε β) → Program ε β
  | done value, f => f value
  | failed error, _ => failed error
  | crashed, _ => crashed
  | emit event next, f => emit event (next.bind f)
  | ask request next, f => ask request fun reply => (next reply).bind f

instance : Monad (Program ε) where
  pure := done
  bind := Program.bind

@[simp] theorem pure_eq (a : α) : (pure a : Program ε α) = done a := rfl

@[simp] theorem done_bind (a : α) (f : α → Program ε β) : (done a >>= f) = f a := rfl

@[simp] theorem failed_bind (e : ε) (f : α → Program ε β) : (failed e >>= f) = failed e := rfl

@[simp] theorem crashed_bind (f : α → Program ε β) : ((crashed : Program ε α) >>= f) = crashed := rfl

@[simp] theorem emit_bind (event : Event) (next : Program ε α) (f : α → Program ε β) :
    (emit event next >>= f) = emit event (next >>= f) := rfl

@[simp] theorem ask_bind (request : Request) (next : request.Reply → Program ε α) (f : α → Program ε β) :
    (ask request next >>= f) = ask request fun reply => next reply >>= f := rfl

instance : LawfulMonad (Program ε) := LawfulMonad.mk' _
  (fun x => by
    change x >>= (fun a => done (id a)) = x
    induction x with
    | done | failed | crashed => rfl
    | emit event next ih => rw [emit_bind, ih]
    | ask request next ih => rw [ask_bind, funext ih])
  (fun _ _ => rfl)
  (fun x f g => by
    induction x with
    | done | failed | crashed => rfl
    | emit event next ih => rw [emit_bind, emit_bind, emit_bind, ih]
    | ask request next ih => rw [ask_bind, ask_bind, ask_bind, funext ih])

/-- The value must be there: a missing one is a crash. -/
def require : Option α → Program ε α
  | some a => done a
  | none => crashed

@[simp] theorem require_some (a : α) : (require (some a) : Program ε α) = done a := rfl

@[simp] theorem require_none : (require (none : Option α) : Program ε α) = crashed := rfl

/-- Ends as the outcome says. -/
def ofOutcome : Outcome ε α → Program ε α
  | .done a => done a
  | .failed e => failed e
  | .crashed => crashed

/-- Ends with the value, or with the error. -/
def ofExcept : Except ε α → Program ε α
  | .ok a => done a
  | .error e => failed e

/-- Makes a request. -/
def request (request : Request) : Program ε request.Reply := ask request done

/-- Writes an event into the journal. -/
def note (event : Event) : Program ε Unit := emit event (done ())

/-- Writes events into the journal. -/
def noteAll (events : List Event) : Program ε Unit := events.foldr emit (done ())

/-- Hands an error over as a value. A crash stays a crash. -/
def attempt : Program ε α → Program ε' (Except ε α)
  | done value => done (.ok value)
  | failed error => done (.error error)
  | crashed => crashed
  | emit event next => emit event next.attempt
  | ask request next => ask request fun reply => (next reply).attempt

/-- A request made as a step of the engine: its failure is an error that names the step. -/
def during (step : Step) (x : Program Error (Except KernelCode α)) : Program Error α := do
  match ← x with
  | .ok value => done value
  | .error code => failed (.ofKernel step code)

end Program

/-- A program of the engine proper, the errors of which are those of the engine. -/
abbrev Engine : Type → Type := Program Error

/-- What the journal says about a failed operation. -/
def failureEvents (operation : Operation) (error : Error) : List Event :=
  .operationFailed operation error :: if error.isFatal then [.codeLost] else []

/-- Writes a failure of the operation into the journal and hands the error on. -/
def reporting {α : Type} (operation : Operation) (x : Engine α) : Engine α := do
  match ← x.attempt with
  | .ok value => .done value
  | .error error => do
    Program.noteAll (failureEvents operation error)
    .failed error

end LivePatch
