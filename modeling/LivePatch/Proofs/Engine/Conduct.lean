import LivePatch.Engine.Guard
import LivePatch.Proofs.Engine.Pause

/-!
# How patches go

What a patch, with a guard or without, asks of its kernel and how it ends, for every kernel. Each part is listed once, case by case,
with the exchanges that lead to its result; what such a transcript is good for is decided elsewhere.
-/

namespace LivePatch

open Program (request)

/-! ## Writing a patch -/

/-- How a write to the pages of a span goes: the pages cannot be opened; the write is refused, whatever becomes of the pages;
the pages cannot be closed again after it; or all is done. -/
inductive WritesCode (target : Address) (bytes : Bytes) (span : PageSpan) : Except Error Unit → List Exchange → Prop where
  | locked (code : KernelCode) : WritesCode target bytes span (.error (.ofKernel .unlockTarget code))
      [⟨.protect span.start span.size .readWrite, .error code⟩]
  | unwritten (code : KernelCode) (closed : Except KernelCode Unit) :
      WritesCode target bytes span (.error (.ofKernel .writeTarget code))
        [⟨.protect span.start span.size .readWrite, .ok ()⟩, ⟨.write target bytes, .error code⟩,
          ⟨.protect span.start span.size .readExecute, closed⟩]
  | unsealed (code : KernelCode) : WritesCode target bytes span (.error (.ofKernel .sealTarget code))
      [⟨.protect span.start span.size .readWrite, .ok ()⟩, ⟨.write target bytes, .ok ()⟩,
        ⟨.protect span.start span.size .readExecute, .error code⟩]
  | written : WritesCode target bytes span (.ok ())
      [⟨.protect span.start span.size .readWrite, .ok ()⟩, ⟨.write target bytes, .ok ()⟩,
        ⟨.protect span.start span.size .readExecute, .ok ()⟩]

theorem yields_writeCode (target : Address) (bytes : Bytes) (span : PageSpan) :
    (writeCode target bytes span).Yields (WritesCode target bytes span) := by
  rintro (code | ⟨⟩)
  · exact .locked code
  · rintro (code | ⟨⟩) (code' | ⟨⟩)
    · exact .unwritten code (.error code')
    · exact .unwritten code (.ok ())
    · exact .unsealed code'
    · exact .written

/-! ## Attempts to patch -/

/-- The errors of an attempt that ends before its bracket: the range is not in the code, or what it holds was not saved. -/
def Error.BeforeBracket : Error → Prop
  | .outOfRange .. | .kernelFailed _ .saveTarget _ => True
  | _ => False

/-- The errors of a patch that was made and then read back. -/
def Error.OfVerifying : Error → Prop
  | .verificationFailed _ | .kernelFailed _ .verifyTarget _ => True
  | _ => False

/-- How a look at what was written goes, if the image is to look: it fails, it shows something else, or it shows what was
written. -/
inductive Image.Verifies (image : Image) (target : Address) (bytes : Bytes) : Option Error → List Exchange → Prop where
  | skipped (hconfig : image.config.verifyWrites = false) : Verifies image target bytes none []
  | unread (hconfig : image.config.verifyWrites = true) (code : KernelCode) :
      Verifies image target bytes (some (.ofKernel .verifyTarget code)) [⟨.read target bytes.size, .error code⟩]
  | spoilt (hconfig : image.config.verifyWrites = true) {actual : Bytes} (hne : actual ≠ bytes) :
      Verifies image target bytes (some (.verificationFailed target)) [⟨.read target bytes.size, .ok actual⟩]
  | verified (hconfig : image.config.verifyWrites = true) :
      Verifies image target bytes none [⟨.read target bytes.size, .ok bytes⟩]

/-- How the patch of a range in the code goes, on the pages of its span: its bracket fails; or the bracket succeeds, and a flush
follows and perhaps a look at what was written. -/
inductive Image.Edits (image : Image) (host : Host) (target : Address) (bytes : Bytes) (span : PageSpan) :
    Option Error → List Exchange → Prop where
  | stopped {error : Error} {es : List Exchange}
      (h : Paused host image.config.strictThreads (WritesCode target bytes span) (.error error) es) :
      Edits image host target bytes span (some error) es
  | written {error? : Option Error} {es reads : List Exchange}
      (h : Paused host image.config.strictThreads (WritesCode target bytes span) (.ok ()) es)
      (hverifies : image.Verifies target bytes error? reads) :
      Edits image host target bytes span error? (es ++ ⟨.flush target bytes.size, ()⟩ :: reads)

/-- How an attempt to write so many bytes through an image goes, behind the reads that save what they replace: it must not write,
or has nothing to; or it patches. -/
inductive Image.Overwrites (image : Image) (host : Host) : Nat → Option Error → List Exchange → Prop where
  | untried {n : Nat} {error? : Option Error} {saves : List Exchange} (hsaves : ∀ e ∈ saves, e.request.IsRead)
      (herror : ∀ error ∈ error?, error.BeforeBracket) (hidle : error?.isSome ∨ n = 0) : Overwrites image host n error? saves
  | tried {target : Address} {bytes : Bytes} {span : PageSpan} {error? : Option Error} {saves es : List Exchange}
      (hsaves : ∀ e ∈ saves, e.request.IsRead) (hin : image.code.containsRange target bytes.size = some true)
      (hspan : PageSpan.covering target bytes.size image.pageSize = some span) (hpos : 0 < bytes.size)
      (h : image.Edits host target bytes span error? es) : Overwrites image host bytes.size error? (saves ++ es)

/-- The error of a result, if it is one. -/
def errorOf? {ε α : Type} : Except ε α → Option ε
  | .ok _ => none
  | .error error => some error

/-- The error of an outcome, if it is one. -/
def Outcome.error? {ε α : Type} : Outcome ε α → Option ε
  | .failed error => some error
  | .done _ | .crashed => none

theorem Outcome.error?_eq_some_iff {ε α : Type} {outcome : Outcome ε α} {error : ε} :
    outcome.error? = some error ↔ outcome = .failed error := by
  cases outcome <;> simp [error?]

/-- What is yielded of errors holds of the error of every run that does not crash. -/
theorem Program.Yields.of_run_error? {κ ε α : Type} [Kernel κ] {x : Program ε α} {P : Option ε → List Exchange → Prop}
    {world after : World κ} {outcome : Outcome ε α} (h : x.Yields fun result es => P (errorOf? result) es)
    (hrun : x.run world = (outcome, after)) (hreturns : outcome ≠ .crashed) : P outcome.error? (x.exchanges world.kernel) := by
  rcases outcome with value | error | _
  · exact h.of_run hrun rfl
  · exact h.of_run hrun rfl
  · exact absurd rfl hreturns

section

variable {image : Image} {host : Host} {target : Address} {bytes : Bytes}

/-- A look makes requests to read alone, and its errors are those of a look. -/
theorem Image.Verifies.reads {error? : Option Error} {es : List Exchange} (h : image.Verifies target bytes error? es) :
    (∀ e ∈ es, e.request.IsRead) ∧ ∀ error ∈ error?, error.OfVerifying := by
  cases h with
  | skipped => exact ⟨by simp, by simp⟩
  | unread => exact ⟨by simp [Request.IsRead], by simp [Error.OfVerifying, Error.ofKernel]⟩
  | spoilt => exact ⟨by simp [Request.IsRead], by simp [Error.OfVerifying]⟩
  | verified => exact ⟨by simp [Request.IsRead], by simp⟩

/-- What is read back is found to be written, or the patch fails. -/
theorem yields_verify (hconfig : image.config.verifyWrites = true) :
    (Image.verify target bytes).Yields fun result es => image.Verifies target bytes (errorOf? result) es := by
  rw [Image.verify, Program.yields_bind, Program.yields_during, Program.yields_request]
  rintro (code | actual)
  · exact .unread hconfig code
  · dsimp only
    split
    · rename_i hactual
      cases hactual
      exact .verified hconfig
    · rename_i hne
      exact .spoilt hconfig hne

/-- Overwriting goes as its bracket, and a flush and perhaps a look follow if that succeeds. -/
theorem yields_overwrite : (image.overwrite host target bytes).Yields fun result es => ∃ span,
    PageSpan.covering target bytes.size image.pageSize = some span ∧
      image.Edits host target bytes span (errorOf? result) es := by
  rw [Image.overwrite, overwriteCode, bind_assoc, Program.yields_bind, Program.yields_require]
  intro span hspan
  dsimp only
  rw [Program.yields_bind]
  refine (yields_runRoutine (yields_writeCode target bytes span)).mono fun result es h => ?_
  cases result with
  | error error => exact ⟨span, hspan, .stopped h⟩
  | ok =>
    have hwritten : ∀ {error? : Option Error} {reads : List Exchange}, image.Verifies target bytes error? reads →
        image.Edits host target bytes span error? (es ++ ⟨.flush target bytes.size, ()⟩ :: reads) := .written h
    dsimp only
    rw [Program.yields_request_bind]
    rintro ⟨⟩
    split
    · rename_i hconfig
      rw [Program.yields_bind]
      refine (yields_verify hconfig).mono fun result reads hverifies => ?_
      cases result with
      | error error => exact ⟨span, hspan, hwritten hverifies⟩
      | ok =>
        rw [← List.append_nil reads] at hverifies
        exact ⟨span, hspan, hwritten hverifies⟩
    · rename_i hconfig
      exact ⟨span, hspan, hwritten (.skipped (by simpa using hconfig))⟩

/-- The patch of a range in the code goes as its bracket. -/
theorem yields_patch_inside (hin : image.code.containsRange target bytes.size = some true) (hpos : 0 < bytes.size) :
    (image.patch host target bytes).Yields fun result es => ∃ span,
      PageSpan.covering target bytes.size image.pageSize = some span ∧
        image.Edits host target bytes span (errorOf? result) es := by
  have hsome : ¬ bytes.isEmpty = true := by
    rw [Array.isEmpty_iff]
    rintro rfl
    exact Nat.lt_irrefl 0 hpos
  rw [Image.patch, if_neg hsome, hin, Program.require_some, Program.done_bind, if_pos rfl, Program.yields_reporting]
  exact yields_overwrite

theorem yields_patch :
    (image.patch host target bytes).Yields fun result es => image.Overwrites host bytes.size (errorOf? result) es := by
  by_cases hpos : 0 < bytes.size
  · by_cases hin : image.code.containsRange target bytes.size = some true
    · refine (yields_patch_inside hin hpos).mono fun result es h => ?_
      obtain ⟨span, hspan, h⟩ := h
      exact @Image.Overwrites.tried image host target bytes span _ [] es (by simp) hin hspan hpos h
    · rw [Image.patch, if_neg (by simpa [Array.isEmpty_iff_size_eq_zero, Nat.pos_iff_ne_zero] using hpos), Program.yields_bind,
        Program.yields_require]
      intro inside hinside
      dsimp only
      rw [if_neg (by rintro rfl; exact hin hinside), Program.yields_bind, Program.yields_require]
      intro error herror
      dsimp only
      rw [Program.yields_reporting, Program.yields_failed]
      obtain ⟨limit, -, rfl⟩ := Option.map_eq_some_iff.1 herror
      exact .untried (by simp) (by simp [errorOf?, Error.BeforeBracket]) (Or.inl rfl)
  · rw [Image.patch, if_pos (by simpa [Array.isEmpty_iff_size_eq_zero] using hpos)]
    exact .untried (by simp) (by simp [errorOf?]) (Or.inr (Nat.eq_zero_of_not_pos hpos))

/-- Saving bytes reads them, or fails before there is a patch. -/
theorem yields_save {len : Nat} : (image.save target len).Yields fun result es =>
    (∀ e ∈ es, e.request.IsRead) ∧ ∀ error ∈ errorOf? result, error.BeforeBracket := by
  rw [Image.save]
  split
  · exact ⟨by simp, by simp [errorOf?]⟩
  · rw [Program.yields_bind, Program.yields_require]
    intro inside hinside
    dsimp only
    split
    · rw [Program.yields_during, Program.yields_request]
      rintro (code | saved)
      · exact ⟨by simp [Request.IsRead], by simp [errorOf?, Error.BeforeBracket, Error.ofKernel]⟩
      · exact ⟨by simp [Request.IsRead], by simp [errorOf?]⟩
    · rw [Program.yields_bind, Program.yields_require]
      intro error herror
      obtain ⟨limit, -, rfl⟩ := Option.map_eq_some_iff.1 herror
      exact ⟨by simp, by simp [errorOf?, Error.BeforeBracket]⟩

/-- Reads in front of an attempt belong to it. -/
theorem Image.Overwrites.append {n : Nat} {error? : Option Error} {reads es : List Exchange}
    (hreads : ∀ e ∈ reads, e.request.IsRead) (h : image.Overwrites host n error? es) :
    image.Overwrites host n error? (reads ++ es) := by
  have hboth : ∀ {saves : List Exchange}, (∀ e ∈ saves, e.request.IsRead) → ∀ e ∈ reads ++ saves, e.request.IsRead :=
    fun hsaves e he => (List.mem_append.1 he).elim (hreads e) (hsaves e)
  cases h with
  | untried hsaves herror hidle => exact .untried (hboth hsaves) herror hidle
  | tried hsaves hin hspan hpos h =>
    rw [← List.append_assoc]
    exact .tried (hboth hsaves) hin hspan hpos h

theorem yields_guardedPatch :
    (image.guardedPatch host target bytes).Yields fun result es => image.Overwrites host bytes.size (errorOf? result) es := by
  rw [Image.guardedPatch, Program.yields_bind]
  refine yields_save.mono fun result saves h => ?_
  obtain ⟨hsaves, herror⟩ := h
  cases result with
  | error error => exact .untried hsaves herror (Or.inl rfl)
  | ok saved =>
    dsimp only
    rw [Program.yields_bind]
    refine yields_patch.mono fun result es h => ?_
    have h := h.append hsaves
    cases result with
    | error error => exact h
    | ok =>
      rw [← List.append_nil es] at h
      exact h

end

/-! ## Operations that patch -/

/-- The operations that patch through an image, each with the attempt that it makes. A release keeps what comes of its attempt to
itself. -/
inductive Image.Attempts (image : Image) (host : Host) : {α β : Type} → Engine α → Engine β → Prop where
  | patch (target : Address) (bytes : Bytes) : Attempts image host (image.patch host target bytes) (image.patch host target bytes)
  | guarded (target : Address) (bytes : Bytes) :
      Attempts image host (image.guardedPatch host target bytes) (image.guardedPatch host target bytes)
  | release (guard : Guard) (himage : guard.image = image) :
      Attempts image host (guard.release host) (guard.image.patch host guard.target guard.saved)

namespace Image.Attempts

variable {κ α β : Type} [Kernel κ] {image : Image} {host : Host} {operation : Engine α} {attempt : Engine β}
  {world after : World κ} {outcome : Outcome Error β}

/-- An operation asks for what its attempt asks for. -/
theorem exchanges_eq (h : image.Attempts host operation attempt) (world : World κ) :
    operation.exchanges world.kernel = attempt.exchanges world.kernel := by
  cases h with
  | patch | guarded => rfl
  | release guard himage =>
    rw [Guard.release, Program.exchanges_bind, Program.exchanges_attempt, Program.run_attempt]
    rcases (guard.image.patch host guard.target guard.saved).run world with ⟨_ | error | _, after⟩
    all_goals exact List.append_nil _

/-- The attempt of an operation goes as attempts do. -/
theorem overwrites (h : image.Attempts host operation attempt) (hrun : attempt.run world = (outcome, after))
    (hreturns : outcome ≠ .crashed) : ∃ n, image.Overwrites host n outcome.error? (operation.exchanges world.kernel) := by
  rw [h.exchanges_eq world]
  cases h with
  | patch target bytes => exact ⟨bytes.size, yields_patch.of_run_error? hrun hreturns⟩
  | guarded target bytes => exact ⟨bytes.size, yields_guardedPatch.of_run_error? hrun hreturns⟩
  | release guard himage =>
    cases himage
    exact ⟨guard.saved.size, yields_patch.of_run_error? hrun hreturns⟩

end Image.Attempts

end LivePatch
