import LivePatch.Engine.Shadow
import LivePatch.Proofs.Engine.Transcript

/-!
# Calls in their order

An operation makes its calls in a fixed order, and each goes on with the next one only after the reply that it needs. A stage is a
call at its place in such an order. `Cut` says how far the calls get if one of them does not go as it has to, and which error that
is: the error of the first such call, with the step that the call is made for.
-/

namespace LivePatch

/-- The step that asks where a part is. -/
def Part.queryStep : Part → Step
  | code => .queryCode
  | constants => .queryConstants
  | data => .queryData

/-- A call at its place: the step that it is made for, if it can end the operation, and the exchange as it is if it does not. -/
structure Stage where
  step? : Option Step
  exchange : Exchange

/-- The code of a request that failed. -/
def Exchange.failure? : Exchange → Option KernelCode
  | ⟨.region _, .error code⟩ | ⟨.allocate .., .error code⟩ | ⟨.deallocate .., .error code⟩ | ⟨.protect .., .error code⟩
  | ⟨.copy .., .error code⟩ | ⟨.write .., .error code⟩ | ⟨.read .., .error code⟩ | ⟨.threads, .error code⟩
  | ⟨.suspend _, .error code⟩ | ⟨.resume _, .error code⟩ => some code
  | _ => none

/-- How an exchange ends an operation at a step where another one was to be, and the error that the operation ends with: the
request failed; a part of the image is not where it was expected; the memory for the code was mapped somewhere else; or what was
written is not what was read back. -/
inductive Stops : Step → Exchange → Exchange → Error → Prop where
  | refused {step : Step} {planned actual : Exchange} {code : KernelCode} (hrequest : actual.request = planned.request)
      (hcode : actual.failure? = some code) : Stops step planned actual (.ofKernel step code)
  | misplaced {part : Part} {expected : Address} {found : Region} {reply : Except KernelCode Region} (hpart : part ≠ .code)
      (hne : found.base ≠ expected) :
      Stops part.queryStep ⟨.region expected, reply⟩ ⟨.region expected, .ok found⟩ (.layoutViolated part expected found.base)
  | relocated {address actual : Address} {size : Nat} {reply : Except KernelCode Address} (hne : actual ≠ address) :
      Stops .remapCode ⟨.allocate (.fixed address) size, reply⟩ ⟨.allocate (.fixed address) size, .ok actual⟩
        (.relocated address actual)
  | spoilt {target : Address} {bytes actual : Bytes} (hne : actual ≠ bytes) :
      Stops .verifyTarget ⟨.read target bytes.size, .ok bytes⟩ ⟨.read target bytes.size, .ok actual⟩
        (.verificationFailed target)

/-- The calls go as they have to until one of them ends the operation. -/
inductive Cut : List Stage → Step → Error → List Exchange → Prop where
  | here {step : Step} {planned actual : Exchange} {stages : List Stage} {error : Error}
      (h : Stops step planned actual error) : Cut (⟨some step, planned⟩ :: stages) step error [actual]
  | later {stage : Stage} {stages : List Stage} {step : Step} {error : Error} {es : List Exchange}
      (h : Cut stages step error es) : Cut (stage :: stages) step error (stage.exchange :: es)

/-- All calls go as they have to and lead to the value, or one of them ends the operation. -/
def Walks {α : Type} (stages : List Stage) (value : α) : Except Error α → List Exchange → Prop
  | .ok found, es => found = value ∧ es = stages.map Stage.exchange
  | .error error, es => ∃ step, Cut stages step error es

section

variable {stages stages' : List Stage} {step : Step} {error : Error} {es : List Exchange}

/-- What ends an operation early ends a longer one there. -/
theorem Cut.append_right (h : Cut stages step error es) : Cut (stages ++ stages') step error es := by
  induction h with
  | here h => exact .here h
  | later h ih => exact .later ih

/-- Behind calls that go as they have to an operation ends as if it started there. -/
theorem Cut.append_left (h : Cut stages' step error es) : Cut (stages ++ stages') step error (stages.map Stage.exchange ++ es) := by
  induction stages with
  | nil => exact h
  | cons stage stages ih => exact .later ih

/-- An operation is ended by one of its calls, at the step of that call. -/
theorem Cut.step_mem (h : Cut stages step error es) : some step ∈ stages.map Stage.step? := by
  induction h with
  | here h => exact List.mem_cons_self
  | later h ih => exact List.mem_cons_of_mem _ ih

theorem Walks.cons {α : Type} {stage : Stage} {value : α} {result : Except Error α} (h : Walks stages value result es) :
    Walks (stage :: stages) value result (stage.exchange :: es) := by
  cases result with
  | ok found => exact ⟨h.1, congrArg (_ :: ·) h.2⟩
  | error error => exact h.imp fun _ => .later

/-- Parts that go as their stages say make a whole that does. -/
theorem walks_bind {α β : Type} {x : Engine α} {f : α → Engine β} {value : α} {value' : β} (hx : x.Yields (Walks stages value))
    (hf : (f value).Yields (Walks stages' value')) : (x >>= f).Yields (Walks (stages ++ stages') value') := by
  rw [Program.yields_bind]
  refine hx.mono fun result es h => ?_
  cases result with
  | error error => exact h.imp fun _ => Cut.append_right
  | ok found =>
    obtain ⟨rfl, rfl⟩ := h
    refine hf.mono fun result es h => ?_
    cases result with
    | error error => exact h.imp fun _ => Cut.append_left
    | ok found => exact ⟨h.1, by rw [h.2, List.map_append]⟩

theorem walks_protect {a : Address} {n : Nat} {p : Protection} :
    ((Program.request (.protect a n p)).during step).Yields (Walks [⟨some step, ⟨.protect a n p, .ok ()⟩⟩] ()) := by
  rintro (code | ⟨⟩)
  · exact ⟨step, .here (.refused rfl rfl)⟩
  · exact ⟨rfl, rfl⟩

theorem walks_copy {source destination : Address} {n : Nat} :
    ((Program.request (.copy source n destination)).during step).Yields
      (Walks [⟨some step, ⟨.copy source n destination, .ok ()⟩⟩] ()) := by
  rintro (code | ⟨⟩)
  · exact ⟨step, .here (.refused rfl rfl)⟩
  · exact ⟨rfl, rfl⟩

/-- The error is that of the call that ended the operation. -/
theorem Cut.stops (h : Cut stages step error es) : ∃ planned actual, Stops step planned actual error := by
  induction h with
  | here h => exact ⟨_, _, h⟩
  | later h ih => exact ih

/-- The calls before the one that ended an operation went as they were planned. -/
theorem Cut.split (h : Cut stages step error es) : ∃ ahead planned behind actual, stages = ahead ++ ⟨some step, planned⟩ :: behind ∧
    es = ahead.map Stage.exchange ++ [actual] ∧ Stops step planned actual error := by
  induction h with
  | here h => exact ⟨[], _, _, _, rfl, rfl, h⟩
  | @later stage _ _ _ _ h ih =>
    obtain ⟨ahead, planned, behind, actual, rfl, rfl, hstops⟩ := ih
    exact ⟨stage :: ahead, planned, behind, actual, rfl, rfl, hstops⟩

/-- A request that ends an operation only if it fails. -/
def Request.EndsRefused : Request → Prop
  | .allocate .anywhere _ | .protect .. | .copy .. => True
  | _ => False

theorem Stops.refused_of_request {planned actual : Exchange} (h : Stops step planned actual error)
    (hplanned : planned.request.EndsRefused) : ∃ code, actual.failure? = some code ∧ error = .ofKernel step code := by
  cases h with
  | refused hrequest hcode => exact ⟨_, hcode, rfl⟩
  | misplaced | relocated | spoilt => exact hplanned.elim

/-- Where only failed requests end an operation, the last one of a part that was cut failed, and the error tells of it. -/
theorem Cut.refused (h : Cut stages step error es) (hstages : ∀ stage ∈ stages, stage.exchange.request.EndsRefused) :
    ∃ made stopped code, es = made ++ [stopped] ∧ (∀ e ∈ made, e ∈ stages.dropLast.map Stage.exchange) ∧
      stopped.failure? = some code ∧ error = .ofKernel step code := by
  obtain ⟨ahead, planned, behind, actual, rfl, rfl, hstops⟩ := h.split
  obtain ⟨code, hcode, herror⟩ := hstops.refused_of_request (hstages ⟨some step, planned⟩ (by simp))
  refine ⟨_, actual, code, rfl, fun e he => ?_, hcode, herror⟩
  rw [List.dropLast_append_cons, List.map_append]
  exact List.mem_append_left _ he

/-- Each call that was made is one of those that were planned. -/
theorem Cut.request_mem (h : Cut stages step error es) {e : Exchange} (he : e ∈ es) :
    e.request ∈ stages.map fun stage => stage.exchange.request := by
  induction h with
  | here h =>
    cases List.mem_singleton.1 he
    cases h with
    | refused hrequest hcode => exact hrequest ▸ List.mem_cons_self
    | misplaced | relocated | spoilt => exact List.mem_cons_self
  | later h ih =>
    rcases List.mem_cons.1 he with rfl | he
    · exact List.mem_cons_self
    · exact List.mem_cons_of_mem _ (ih he)

end

end LivePatch
