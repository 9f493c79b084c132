import LivePatch.Proofs.Atomicity
import LivePatch.Proofs.Engine.Survey

/-!
# Whether rewritten code is flushed

An operation that rewrites code flushes it only if the bracket of the change succeeds. So on every kernel rewritten code is left
without a flush exactly by the failures between the rewriting and the end of the bracket: pages that cannot be made executable,
and a failed list for resuming.
-/

namespace LivePatch

/-! ## Rewriting and flushing -/

/-- A range of memory: where it starts and how long it is. -/
abbrev Range := Address × Nat

/-- The first range lies in the second one. -/
def Range.Within (range outer : Range) : Prop := outer.1 ≤ range.1 ∧ range.1 + range.2 ≤ outer.1 + outer.2

theorem Range.Within.refl (range : Range) : range.Within range := ⟨Nat.le_refl _, Nat.le_refl _⟩

/-- Where an exchange mapped memory at a fixed place, if it did. -/
def Exchange.placed? : Exchange → Option Range
  | ⟨.allocate (.fixed _) size, .ok base⟩ => some (base, size)
  | _ => none

/-- The exchange rewrote code: a write that was served, or a copy that was served into memory mapped at a fixed place. -/
def Exchange.Rewrites (placed : List Range) (range : Range) : Exchange → Prop
  | ⟨.write target bytes, .ok ()⟩ => range = (target, bytes.size)
  | ⟨.copy _ size destination, .ok ()⟩ => range = (destination, size) ∧ ∃ region ∈ placed, range.Within region
  | _ => False

/-- The exchange flushed the range as a whole. -/
def Exchange.Flushes (range : Range) : Exchange → Prop
  | ⟨.flush start size, ()⟩ => range.Within (start, size)
  | _ => False

/-- A range was rewritten and is not flushed behind that. -/
def Stale (placed : List Range) (range : Range) (es : List Exchange) : Prop :=
  ∃ ahead e behind, es = ahead ++ e :: behind ∧ e.Rewrites (placed ++ ahead.filterMap Exchange.placed?) range ∧
    ∀ e' ∈ behind, ¬ e'.Flushes range

/-- Some rewritten range is left without a flush. -/
def LeavesStale (es : List Exchange) : Prop := ∃ range, Stale [] range es

section

variable {placed : List Range} {range : Range} {e : Exchange} {es es' : List Exchange}

@[simp] theorem not_stale_nil : ¬ Stale placed range [] := by
  rintro ⟨ahead, e, behind, h, -⟩
  exact List.append_ne_nil_of_right_ne_nil ahead (List.cons_ne_nil e behind) h.symm

theorem stale_cons : Stale placed range (e :: es) ↔
    (e.Rewrites placed range ∧ ∀ e' ∈ es, ¬ e'.Flushes range) ∨ Stale (placed ++ e.placed?.toList) range es := by
  constructor
  · rintro ⟨_ | ⟨first, ahead⟩, e', behind, h, hrewrites, hbehind⟩
    · obtain ⟨rfl, rfl⟩ := List.cons.inj h
      exact Or.inl ⟨by simpa using hrewrites, hbehind⟩
    · obtain ⟨rfl, rfl⟩ := List.cons.inj h
      refine Or.inr ⟨ahead, e', behind, rfl, ?_, hbehind⟩
      cases hplaced : e.placed? <;> simpa [List.filterMap_cons, hplaced] using hrewrites
  · rintro (⟨hrewrites, hbehind⟩ | ⟨ahead, e', behind, rfl, hrewrites, hbehind⟩)
    · exact ⟨[], e, es, rfl, by simpa using hrewrites, hbehind⟩
    · refine ⟨e :: ahead, e', behind, rfl, ?_, hbehind⟩
      cases hplaced : e.placed? <;> simpa [List.filterMap_cons, hplaced] using hrewrites

theorem stale_append : Stale placed range (es ++ es') ↔
    (Stale placed range es ∧ ∀ e ∈ es', ¬ e.Flushes range) ∨ Stale (placed ++ es.filterMap Exchange.placed?) range es' := by
  induction es generalizing placed with
  | nil => simp
  | cons e es ih =>
    have hplaced : placed ++ (e :: es).filterMap Exchange.placed? =
        placed ++ e.placed?.toList ++ es.filterMap Exchange.placed? := by
      cases h : e.placed? <;> simp [h]
    rw [List.cons_append, stale_cons, stale_cons, ih, hplaced, List.forall_mem_append]
    constructor
    · rintro (⟨hrewrites, hes, hes'⟩ | ⟨hstale, hes'⟩ | hstale)
      · exact Or.inl ⟨Or.inl ⟨hrewrites, hes⟩, hes'⟩
      · exact Or.inl ⟨Or.inr hstale, hes'⟩
      · exact Or.inr hstale
    · rintro (⟨⟨hrewrites, hes⟩ | hstale, hes'⟩ | hstale)
      · exact Or.inl ⟨hrewrites, hes, hes'⟩
      · exact Or.inr (Or.inl ⟨hstale, hes'⟩)
      · exact Or.inr (Or.inr hstale)

/-- The exchange neither maps memory at a fixed place nor rewrites nor flushes anything. -/
structure Exchange.Neutral (placed : List Range) (e : Exchange) : Prop where
  placed?_eq : e.placed? = none
  not_rewrites : ∀ range, ¬ e.Rewrites placed range
  not_flushes : ∀ range, ¬ e.Flushes range

theorem Request.Idle.neutral (h : e.request.Idle) : e.Neutral placed := by
  obtain ⟨request, reply⟩ := e
  cases request with
  | region _ | read _ _ | threads | currentThread | release _ | suspend _ | resume _ => exact ⟨rfl, fun _ => id, fun _ => id⟩
  | allocate _ _ | deallocate _ _ | protect _ _ _ | copy _ _ _ | write _ _ | flush _ _ => exact h.elim

/-- As long as nothing was mapped at a fixed place, a survey rewrites no code. -/
theorem Request.OfSurvey.neutral (h : e.request.OfSurvey) : e.Neutral [] := by
  obtain ⟨request, reply⟩ := e
  cases request with
  | allocate placement size =>
    cases placement with
    | anywhere => exact ⟨rfl, fun _ => id, fun _ => id⟩
    | fixed => exact h.elim
  | copy source size destination =>
    refine ⟨rfl, fun range hrewrites => ?_, fun _ => id⟩
    cases reply with
    | error => exact hrewrites
    | ok =>
      obtain ⟨-, _, hmem, -⟩ := hrewrites
      exact List.not_mem_nil hmem
  | region | deallocate | protect => exact ⟨rfl, fun _ => id, fun _ => id⟩
  | read | threads | currentThread | release | suspend | resume | write | flush => exact h.elim

/-- Neutral exchanges in front make no difference. -/
theorem stale_append_of_neutral_left (h : ∀ e ∈ es, e.Neutral placed) :
    Stale placed range (es ++ es') ↔ Stale placed range es' := by
  induction es with
  | nil => rfl
  | cons e es ih =>
    obtain ⟨he, hes⟩ := List.forall_mem_cons.1 h
    rw [List.cons_append, stale_cons, he.placed?_eq, Option.toList_none, List.append_nil, ih hes]
    exact or_iff_right fun h => he.not_rewrites range h.1

theorem not_stale_of_neutral (h : ∀ e ∈ es, e.Neutral placed) : ¬ Stale placed range es := by
  rw [← List.append_nil es, stale_append_of_neutral_left h]
  exact not_stale_nil

/-- Neither do neutral exchanges behind. -/
theorem stale_append_of_neutral_right (h : ∀ e ∈ es', e.Neutral (placed ++ es.filterMap Exchange.placed?)) :
    Stale placed range (es ++ es') ↔ Stale placed range es := by
  rw [stale_append, or_iff_left (not_stale_of_neutral h)]
  exact and_iff_left fun e he => (h e he).not_flushes range

end

/-! ## Errors -/

/-- The errors of an operation that come between the rewriting of code and its flush, if strict mode calls the change off or
not. -/
def Error.SkipsFlush (calledOff : Prop) : Error → Prop
  | .kernelFailed _ .sealTarget _ | .kernelFailed _ .sealCode _ => True
  | .kernelFailed _ .resumeThreads _ => ¬ calledOff
  | _ => False

section

variable {calledOff : Prop} {error : Error}

theorem Error.BeforeChange.not_skipsFlush (h : error.BeforeChange calledOff) : ¬ error.SkipsFlush calledOff := by
  unfold Error.BeforeChange at h
  split at h
  · exact id
  · exact id
  · exact fun hnot => hnot h
  · exact id
  · exact h.elim

theorem Error.BeforeBracket.not_skipsFlush (h : error.BeforeBracket) : ¬ error.SkipsFlush calledOff := by
  unfold Error.BeforeBracket at h
  split at h
  · exact id
  · exact id
  · exact h.elim

theorem Error.OfVerifying.not_skipsFlush (h : error.OfVerifying) : ¬ error.SkipsFlush calledOff := by
  unfold Error.OfVerifying at h
  split at h
  · exact id
  · exact id
  · exact h.elim

theorem Error.BeforeRecreating.not_skipsFlush (h : error.BeforeRecreating) : ¬ error.SkipsFlush calledOff := by
  unfold Error.SkipsFlush
  split
  · simp [Error.BeforeRecreating] at h
  · simp [Error.BeforeRecreating] at h
  · simp [Error.BeforeRecreating] at h
  · exact id

end

/-! ## Changes -/

/-- A change rewrites one range and flushes nothing, and its error says whether it came to that. -/
structure Rewriting (range : Range) (calledOff : Prop) (result : Except Error Unit) (es : List Exchange) : Prop where
  stale_iff : ∀ r, Stale [] r es ↔ r = range ∧ ∀ error ∈ errorOf? result, error.SkipsFlush calledOff
  not_refused : ¬ Refused .suspend es

section

variable {calledOff : Prop} {result : Except Error Unit} {es : List Exchange}

theorem WritesCode.rewriting {target : Address} {bytes : Bytes} {span : PageSpan} (h : WritesCode target bytes span result es) :
    Rewriting (target, bytes.size) calledOff result es := by
  constructor
  · intro r
    cases h <;> simp [stale_cons, Exchange.Rewrites, Exchange.Flushes, errorOf?, Error.ofKernel, Error.SkipsFlush]
  · cases h <;> simp [Refused, ThreadRequest.asked]

theorem ReplacesCode.rewriting {code : Region} {shadowBase : Address} (h : ReplacesCode code shadowBase result es) :
    Rewriting (code.base, code.size) calledOff result es := by
  constructor
  · intro r
    -- the copy goes into the memory that was mapped just before
    have hwithin : r = (code.base, code.size) → r.Within (code.base, code.size) := fun h => h ▸ .refl _
    cases h with
    | unsealed | filled =>
      simpa [stale_cons, Exchange.Rewrites, Exchange.Flushes, Exchange.placed?, errorOf?, Error.ofKernel, Error.SkipsFlush]
        using hwithin
    | _ => simp [stale_cons, Exchange.Rewrites, Exchange.Flushes, errorOf?, Error.ofKernel, Error.SkipsFlush]
  · cases h <;> simp [Refused, ThreadRequest.asked]

/-- A bracket leaves stale what its change does, unless a failed list for resuming hides that the change was made. -/
theorem Bracketed.rewriting {strict : Bool} {P : Except Error Unit → List Exchange → Prop} {range : Range}
    (h : Bracketed strict P result es) (hP : ∀ {calledOff result es}, P result es → Rewriting range calledOff result es)
    (r : Range) :
    Stale [] r es ↔ r = range ∧ ∀ error ∈ errorOf? result, error.SkipsFlush (strict = true ∧ Refused .suspend es) := by
  have haround : ∀ {result es₁ es es₂}, (∀ e ∈ es₁, e.request.OfSweep .suspend) → P result es →
      (∀ e ∈ es₂, e.request.OfSweep .resume) →
      (Refused .suspend (es₁ ++ (es ++ es₂)) ↔ Refused .suspend es₁) ∧ ∀ calledOff, (Stale [] r (es₁ ++ (es ++ es₂)) ↔
        r = range ∧ ∀ error ∈ errorOf? result, error.SkipsFlush calledOff) := by
    intro result es₁ es es₂ h₁ h h₂
    constructor
    · have hrefused : ¬ Refused .suspend es₂ := not_refused h₂ fun _ _ h => nomatch h
      rw [refused_append, refused_append, or_iff_left]
      exact not_or.2 ⟨(@hP True _ _ h).not_refused, hrefused⟩
    · intro calledOff
      rw [stale_append_of_neutral_left fun e he => (h₁ e he).idle.neutral,
        stale_append_of_neutral_right fun e he => (h₂ e he).idle.neutral]
      exact (hP h).stale_iff r
  cases h with
  | before hidle herror =>
    refine iff_of_false (not_stale_of_neutral fun e he => (hidle e he).neutral) fun h => ?_
    exact herror.not_skipsFlush (h.2 _ rfl)
  | around h₁ hgo h h₂ => exact (haround h₁ h h₂).2 _
  | unresumed code h₁ hgo h h₂ =>
    obtain ⟨hrefused, hstale⟩ := haround h₁ h h₂
    rw [hstale True, hrefused]
    simp [errorOf?, Error.ofKernel, Error.SkipsFlush, hgo]

/-- Behind neutral exchanges, a bracket that fails leaves code stale as its error says. -/
theorem leavesStale_of_stopped {strict : Bool} {P : Except Error Unit → List Exchange → Prop} {range : Range} {error : Error}
    {ahead : List Exchange} (hahead : ∀ e ∈ ahead, e.Neutral []) (hcalm : ¬ Refused .suspend ahead)
    (h : Bracketed strict P (.error error) es)
    (hP : ∀ {calledOff result es}, P result es → Rewriting range calledOff result es) :
    LeavesStale (ahead ++ es) ↔ error.SkipsFlush (strict = true ∧ Refused .suspend (ahead ++ es)) := by
  have hstale : ∀ r, Stale [] r (ahead ++ es) ↔ r = range ∧ error.SkipsFlush (strict = true ∧ Refused .suspend es) := by
    intro r
    rw [stale_append_of_neutral_left hahead, h.rewriting hP]
    simp [errorOf?]
  rw [LeavesStale, refused_append, or_iff_right hcalm]
  simp [hstale]

/-- A bracket that succeeds, with a flush behind it, leaves nothing stale. -/
theorem not_leavesStale_of_flushed {strict : Bool} {P : Except Error Unit → List Exchange → Prop} {range : Range}
    {ahead behind : List Exchange} (hahead : ∀ e ∈ ahead, e.Neutral []) (h : Bracketed strict P (.ok ()) es)
    (hP : ∀ {calledOff result es}, P result es → Rewriting range calledOff result es) (hbehind : ∀ e ∈ behind, e.request.Idle) :
    ¬ LeavesStale (ahead ++ (es ++ ⟨.flush range.1 range.2, ()⟩ :: behind)) := by
  rintro ⟨r, hstale⟩
  rw [stale_append_of_neutral_left hahead, stale_append, h.rewriting hP, stale_cons] at hstale
  rcases hstale with ⟨⟨rfl, -⟩, hflushes⟩ | ⟨hrewrites, -⟩ | hstale
  · exact hflushes _ List.mem_cons_self (.refl r)
  · exact hrewrites
  · exact not_stale_of_neutral (fun e he => (hbehind e he).neutral) hstale

end

/-! ## Operations -/

section

variable {error? : Option Error} {es : List Exchange}

theorem Request.IsRead.not_refused (h : ∀ e ∈ es, e.request.IsRead) : ¬ Refused .suspend es :=
  LivePatch.not_refused h fun _ _ => id

theorem Request.OfSurvey.not_refused (h : ∀ e ∈ es, e.request.OfSurvey) : ¬ Refused .suspend es :=
  LivePatch.not_refused h fun _ _ => id

/-- An attempt to patch leaves code stale exactly if its error comes between the write and the flush. -/
theorem Image.Overwrites.leavesStale_iff_skipsFlush {image : Image} {host : Host} {n : Nat}
    (h : image.Overwrites host n error? es) :
    LeavesStale es ↔ ∃ error ∈ error?, error.SkipsFlush (image.config.strictThreads = true ∧ Refused .suspend es) := by
  have hneutral : ∀ {es : List Exchange}, (∀ e ∈ es, e.request.IsRead) → ∀ e ∈ es, e.Neutral [] :=
    fun h e he => (h e he).idle.neutral
  cases h with
  | untried hsaves herror =>
    refine iff_of_false ?_ fun ⟨error, hmem, hskips⟩ => (herror error hmem).not_skipsFlush hskips
    rintro ⟨r, hstale⟩
    exact not_stale_of_neutral (hneutral hsaves) hstale
  | tried hsaves hin hspan hpos h =>
    cases h with
    | stopped h =>
      rw [leavesStale_of_stopped (hneutral hsaves) (Request.IsRead.not_refused hsaves) h.bracketed WritesCode.rewriting]
      simp
    | written h hverifies =>
      obtain ⟨hreads, herror⟩ := hverifies.reads
      refine iff_of_false ?_ fun ⟨error, hmem, hskips⟩ => (herror error hmem).not_skipsFlush hskips
      exact not_leavesStale_of_flushed (hneutral hsaves) h.bracketed WritesCode.rewriting fun e he => (hreads e he).idle

/-- A preparation leaves code stale exactly if its error comes between the copy of the code and the flush. -/
theorem Config.Prepares.leavesStale_iff_skipsFlush {config : Config} {host : Host} {base : Address}
    (h : config.Prepares host base error? es) :
    LeavesStale es ↔ ∃ error ∈ error?, error.SkipsFlush (config.strictThreads = true ∧ Refused .suspend es) := by
  have hneutral : ∀ {es : List Exchange}, (∀ e ∈ es, e.request.OfSurvey) → ∀ e ∈ es, e.Neutral [] :=
    fun h e he => (h e he).neutral
  cases h with
  | again hhost =>
    refine iff_of_false ?_ (by simp [Error.SkipsFlush])
    rintro ⟨r, hstale⟩
    exact not_stale_nil hstale
  | surveyed h =>
    refine iff_of_false ?_ (by simpa using h.beforeRecreating.not_skipsFlush)
    rintro ⟨r, hstale⟩
    exact not_stale_of_neutral (hneutral h.ofSurvey) hstale
  | stopped hsurvey h =>
    rw [leavesStale_of_stopped (hneutral hsurvey.ofSurvey) (Request.OfSurvey.not_refused hsurvey.ofSurvey) h.bracketed
      ReplacesCode.rewriting]
    simp
  | prepared hsurvey h =>
    refine iff_of_false ?_ (by simp)
    exact not_leavesStale_of_flushed (hneutral hsurvey.ofSurvey) h.bracketed ReplacesCode.rewriting (List.forall_mem_nil _)

end

/-- The operations that rewrite code, each with what it tries and whether that is in strict mode. -/
inductive Recodes : {α β : Type} → Bool → Engine α → Engine β → Prop where
  | prepare (host : Host) (attempted : Bool) (imageBase : Address) (pageSize : Nat) (config : Config) :
      Recodes config.strictThreads (Image.prepare host attempted imageBase pageSize config)
        (Image.prepare host attempted imageBase pageSize config)
  | attempt {α β : Type} {image : Image} {host : Host} {operation : Engine α} {attempt : Engine β}
      (h : image.Attempts host operation attempt) : Recodes image.config.strictThreads operation attempt

/-- On every kernel, an operation that returns leaves code stale that it rewrote exactly if it was stopped between the rewriting
and the flush: the new code could not be made executable, or there was no list for resuming although strict mode did not call the
change off. -/
theorem Recodes.leavesStale_iff {κ α β : Type} [Kernel κ] {strict : Bool} {operation : Engine α} {attempt : Engine β}
    {world after : World κ} {outcome : Outcome Error β} (h : Recodes strict operation attempt)
    (hrun : attempt.run world = (outcome, after)) (hreturns : outcome ≠ .crashed) :
    LeavesStale (operation.exchanges world.kernel) ↔ ∃ error, outcome = .failed error ∧
      error.SkipsFlush (strict = true ∧ Refused .suspend (operation.exchanges world.kernel)) := by
  simp only [← Outcome.error?_eq_some_iff]
  cases h with
  | prepare => exact (yields_prepare.of_run_error? hrun hreturns).leavesStale_iff_skipsFlush
  | attempt h =>
    obtain ⟨_, hoverwrites⟩ := h.overwrites hrun hreturns
    exact hoverwrites.leavesStale_iff_skipsFlush

/-- A patch of the small process that succeeds leaves nothing stale. -/
theorem Recodes.not_leavesStale_first_byte : ∃ (image : Image) (world after : World Testbed),
    image.Reaches .other world [] ∧ (image.patch .other Space.imageBase #[0xcc]).run world = (.done (), after) ∧
      ¬ LeavesStale ((image.patch .other Space.imageBase #[0xcc]).exchanges world.kernel) := by
  obtain ⟨image, world, after, hreaches, hrun⟩ := Image.exists_patched_threePages
  refine ⟨image, world, after, hreaches, hrun, fun hstale => ?_⟩
  obtain ⟨error, herror, -⟩ := (Recodes.leavesStale_iff (.attempt (.patch Space.imageBase #[0xcc])) hrun nofun).1 hstale
  cases herror

/-- If its pages cannot be closed again, a patch of the small process leaves its bytes in the code without a flush. -/
theorem Recodes.leavesStale_unsealed : ∃ (error : Error) (after : World Testbed),
    (Image.threePages {}).Reaches .other (.preparedPages ⟨.protect, 1, .protectionFailure⟩) [] ∧
      ((Image.threePages {}).patch .other Space.imageBase #[0xcc]).run (.preparedPages ⟨.protect, 1, .protectionFailure⟩) =
        (.failed error, after) ∧
      LeavesStale (((Image.threePages {}).patch .other Space.imageBase #[0xcc]).exchanges
        (World.preparedPages ⟨.protect, 1, .protectionFailure⟩).kernel) := by
  obtain ⟨after, hrun⟩ := Image.patch_unsealed
  obtain ⟨_, hoverwrites⟩ := (Image.Attempts.patch Space.imageBase #[0xcc]).overwrites hrun nofun
  exact ⟨_, after, Image.reaches_preparedPages _, hrun, hoverwrites.leavesStale_iff_skipsFlush.2 ⟨_, rfl, trivial⟩⟩

end LivePatch
