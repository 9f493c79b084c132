import LivePatch.Proofs.Atomicity
import LivePatch.Proofs.Engine.Conduct
import LivePatch.Proofs.Engine.Journal

/-!
# What failures leave in the journal

Preparing and patching write one record at the error level for each failure, which gives the operation, the number of the error and
its message, and a second one if the error is fatal; they write no such record if they do not fail. A patch under a guard keeps the
failures of saving to itself: a range that is not in the code and a failed read of what is there leave no record at all.
-/

namespace LivePatch

/-- The messages of the records at the error level. -/
def errorRecords (events : List Event) : List String := (events.filter (·.level = .error)).map Event.describe

/-- The records that tell a failure of an operation. -/
def Operation.diagnosis (operation : Operation) (error : Error) : List String :=
  (operation.describe ++ " failed (error " ++ toString error.number ++ "): " ++ error.describe) ::
    if error.isFatal then [Event.codeLost.describe] else []

/-- The operations that report, the name that they report their failures under, and the failures that they keep to themselves.
Preparing the image of the engine itself reports at the first attempt. -/
inductive Reports (host : Host) : {α : Type} → Engine α → Operation → (Error → Prop) → Prop where
  | prepare {attempted : Bool} (hfirst : host = .other ∨ attempted = false) (imageBase : Address) (pageSize : Nat)
      (config : Config) :
      Reports host (Image.prepare host attempted imageBase pageSize config) .initialization fun _ => False
  | patch (image : Image) (target : Address) (bytes : Bytes) :
      Reports host (image.patch host target bytes) .patch fun _ => False
  | guarded (image : Image) (target : Address) (bytes : Bytes) :
      Reports host (image.guardedPatch host target bytes) .patch Error.BeforeBracket

/-- The events of a run tell how it ended: they are missing behind a failure that is kept, they hold the records of any other
failure, and they hold no record at the error level if nothing failed. -/
structure Told {α : Type} (operation : Operation) (kept : Error → Prop) (outcome : Outcome Error α) (events : List Event) :
    Prop where
  untold : ∀ error, outcome = .failed error → kept error → events = []
  failed : ∀ error, outcome = .failed error → ¬ kept error → errorRecords events = operation.diagnosis error
  returned : (∀ error, outcome ≠ .failed error) → errorRecords events = []

/-- A failure is told by the events that it is reported with. -/
theorem errorRecords_failureEvents (operation : Operation) (error : Error) :
    errorRecords (failureEvents operation error) = operation.diagnosis error := by
  unfold errorRecords failureEvents Operation.diagnosis
  cases error.isFatal <;> rfl

/-- Mild events leave no record at the error level. -/
theorem errorRecords_eq_nil {events : List Event} (h : ∀ event ∈ events, event.Mild) : errorRecords events = [] := by
  have hfilter : events.filter (·.level = .error) = [] :=
    List.filter_eq_nil_iff.2 fun event hevent => by simpa [Event.Mild] using h event hevent
  rw [errorRecords, hfilter, List.map_nil]

theorem errorRecords_append (es es' : List Event) : errorRecords (es ++ es') = errorRecords es ++ errorRecords es' := by
  rw [errorRecords, List.filter_append, List.map_append]
  rfl

section

variable {κ α : Type} [Kernel κ] {operation : Operation} {x : Engine α} {events : List Event}

/-- A failure that is not kept is told by its records. -/
theorem told_failed {kept : Error → Prop} {error : Error} (hnot : ¬ kept error)
    (hrecords : errorRecords events = operation.diagnosis error) :
    Told operation kept (.failed error : Outcome Error α) events where
  untold _ h hkept := by
    cases h
    exact absurd hkept hnot
  failed _ h _ := by
    cases h
    exact hrecords
  returned h := absurd rfl (h error)

/-- What has a value tells no failure. -/
theorem told_done {kept : Error → Prop} {value : α} :
    Told operation kept (.done value : Outcome Error α) events ↔ errorRecords events = [] :=
  ⟨fun h => h.returned nofun, fun hrecords => ⟨nofun, nofun, fun _ => hrecords⟩⟩

/-- Neither does what crashed. -/
theorem told_crashed {kept : Error → Prop} :
    Told operation kept (.crashed : Outcome Error α) events ↔ errorRecords events = [] :=
  ⟨fun h => h.returned nofun, fun hrecords => ⟨nofun, nofun, fun _ => hrecords⟩⟩

/-- What notes no error itself and is reported is told. -/
theorem told_reporting (hx : x.Notes Event.Mild) (world : World κ) :
    Told operation (fun _ => False) ((reporting operation x).run world).1 ((reporting operation x).events world.kernel) := by
  have hmild : errorRecords (x.events world.kernel) = [] := errorRecords_eq_nil hx.of_mem_events
  rw [reporting, Program.run_bind, Program.events_bind, Program.events_attempt, Program.run_attempt]
  rcases x.run world with ⟨value | error | _, after⟩
  · refine told_done.2 ?_
    rw [errorRecords_append, hmild]
    rfl
  · have hends : ((Program.noteAll (failureEvents operation error) >>= fun _ => (.failed error : Engine α)).run after).1 =
        .failed error := by
      rw [failureEvents]
      split <;> rfl
    dsimp only
    rw [hends]
    refine told_failed id ?_
    rw [errorRecords_append, hmild, List.nil_append, Program.events_noteAll_failed, errorRecords_failureEvents]
  · exact told_crashed.2 (by rw [List.append_nil, hmild])

end

section

variable {κ : Type} [Kernel κ] {image : Image} {host : Host} {target : Address} {bytes : Bytes}

/-- The failure of a preparation that is not refused outright is told. -/
theorem Image.told_prepare {attempted : Bool} {imageBase : Address} {pageSize : Nat} {config : Config}
    (hfirst : host = .other ∨ attempted = false) (world : World κ) :
    Told .initialization (fun _ => False) ((Image.prepare host attempted imageBase pageSize config).run world).1
      ((Image.prepare host attempted imageBase pageSize config).events world.kernel) := by
  unfold Image.prepare
  split
  · simp at hfirst
  · exact told_reporting Image.mild_establish world

/-- The failure of a patch is told. -/
theorem Image.told_patch (world : World κ) : Told .patch (fun _ => False) ((image.patch host target bytes).run world).1
    ((image.patch host target bytes).events world.kernel) := by
  rw [Image.patch]
  split
  · exact told_done.2 rfl
  · rcases image.code.containsRange target bytes.size with _ | inside
    · exact told_crashed.2 rfl
    · rw [Program.require_some, Program.done_bind]
      split
      · exact told_reporting Image.mild_overwrite world
      · rcases image.rangeError target bytes.size with _ | error
        · exact told_crashed.2 rfl
        · exact told_reporting Program.notes_failed world

/-- The errors of the patch of a range in the code are not those of an attempt that ended before its bracket. -/
theorem Image.Edits.not_beforeBracket {span : PageSpan} {error : Error} {es : List Exchange}
    (h : image.Edits host target bytes span (some error) es) : ¬ error.BeforeBracket := by
  cases h with
  | stopped h =>
    cases h.bracketed with
    | before hidle herror =>
      unfold Error.BeforeChange at herror
      split at herror
      all_goals first | exact id | exact herror.elim
    | around h₁ hgo hwrites h₂ => cases hwrites <;> exact id
    | unresumed => exact id
  | written h hverifies =>
    have herror := hverifies.reads.2 error rfl
    unfold Error.OfVerifying at herror
    split at herror
    all_goals first | exact id | exact herror.elim

/-- Saving bytes notes nothing. -/
theorem Image.events_save {len : Nat} (kernel : κ) : (image.save target len).events kernel = [] := by
  refine Program.Notes.events_eq_nil ?_ kernel
  rw [Image.save]
  split
  · trivial
  · refine Program.notes_require.bind fun inside => ?_
    split
    · exact Program.notes_request.during
    · exact Program.notes_require.bind fun _ => trivial

/-- Bytes that are saved lie in the code, if there are any. -/
theorem Image.containsRange_of_save {len : Nat} {saved : Bytes} {world after : World κ} (hlen : 0 < len)
    (hrun : (image.save target len).run world = (.done saved, after)) : image.code.containsRange target len = some true := by
  rw [Image.save, if_neg (Nat.ne_of_gt hlen)] at hrun
  rcases hin : image.code.containsRange target len with _ | _ | _
  · rw [hin] at hrun
    cases hrun
  · rw [hin, Program.require_some, Program.done_bind, if_neg (by simp)] at hrun
    rcases herror : image.rangeError target len with _ | error
    all_goals
      rw [herror] at hrun
      cases hrun
  · rfl

/-- A patch of saved bytes does not fail before its bracket. -/
theorem Image.not_beforeBracket_of_save {saved : Bytes} {world between after : World κ} {error : Error}
    (hsave : (image.save target bytes.size).run world = (.done saved, between))
    (hrun : (image.patch host target bytes).run between = (.failed error, after)) : ¬ error.BeforeBracket := by
  by_cases hpos : 0 < bytes.size
  · obtain ⟨span, -, h⟩ := (yields_patch_inside (containsRange_of_save hpos hsave) hpos).of_run hrun rfl
    exact h.not_beforeBracket
  · rw [Image.patch, if_pos (by simpa [Array.isEmpty_iff_size_eq_zero] using hpos)] at hrun
    cases hrun

/-- The failure of a guarded patch is told, unless it is one of saving; then nothing is. -/
theorem Image.told_guardedPatch (world : World κ) :
    Told .patch Error.BeforeBracket ((image.guardedPatch host target bytes).run world).1
      ((image.guardedPatch host target bytes).events world.kernel) := by
  rw [Image.guardedPatch, Program.run_bind, Program.events_bind, Image.events_save, List.nil_append]
  rcases hsave : (image.save target bytes.size).run world with ⟨saved | error | _, between⟩
  · have hpatch := @Image.told_patch κ _ image host target bytes between
    dsimp only
    rw [Program.run_bind, Program.events_bind]
    rcases hrest : (image.patch host target bytes).run between with ⟨value | error | _, last⟩
    all_goals rw [hrest] at hpatch
    · refine told_done.2 ?_
      rw [errorRecords_append, told_done.1 hpatch]
      rfl
    · refine told_failed (not_beforeBracket_of_save hsave hrest) ?_
      rw [List.append_nil, hpatch.failed error rfl id]
    · exact told_crashed.2 (by rw [List.append_nil, told_crashed.1 hpatch])
  · have hbefore : error.BeforeBracket := (yields_save.of_run hsave rfl).2 error rfl
    exact ⟨fun _ _ _ => rfl, fun _ h hnot => by cases h; exact absurd hbefore hnot, fun _ => rfl⟩
  · exact told_crashed.2 rfl

end

/-- On every kernel, what an operation leaves in the journal tells how it ended: the records of its failure and no other ones at
the error level, and none if it does not fail. Behind a failure that it keeps to itself the journal is as it was. -/
theorem Reports.told {κ α : Type} [Kernel κ] {host : Host} {x : Engine α} {operation : Operation} {kept : Error → Prop}
    {world after : World κ} {outcome : Outcome Error α} (h : Reports host x operation kept)
    (hrun : x.run world = (outcome, after)) :
    Told operation kept outcome (after.journal.extract world.journal.size).toList := by
  have htold : Told operation kept (x.run world).1 (x.events world.kernel) := by
    cases h with
    | prepare hfirst => exact Image.told_prepare hfirst world
    | patch => exact Image.told_patch world
    | guarded => exact Image.told_guardedPatch world
  rw [← x.extract_journal_run world, hrun] at htold
  exact htold

/-- A guarded patch of the small process whose write fails leaves one record, with the number and the message of the error. -/
theorem Reports.told_unwritten : ∃ after : World Testbed,
    ((Image.threePages {}).guardedPatch .other Space.imageBase #[0xcc]).run (.preparedPages ⟨.write, 0, .failure⟩) =
        (.failed (.ofKernel .writeTarget .failure), after) ∧
      errorRecords (after.journal.extract 0).toList =
        ["patch failed (error 5): write patch bytes: copy failed with 5 (KERN_FAILURE)"] := by
  obtain ⟨after, hrun⟩ := Image.guardedPatch_unwritten
  have htold := Reports.told (.guarded (.threePages {}) Space.imageBase #[0xcc]) hrun
  have hdiagnosis : Operation.patch.diagnosis (.ofKernel .writeTarget .failure) =
      ["patch failed (error 5): write patch bytes: copy failed with 5 (KERN_FAILURE)"] := by decide +kernel
  exact ⟨after, hrun, (htold.failed _ rfl id).trans hdiagnosis⟩

/-- A guarded patch across the end of the code of the small process fails and leaves no record of that. -/
theorem Reports.untold_outOfRange : ∃ after : World Testbed,
    (Image.threePages {}).Reaches .other (.preparedPages ⟨.write, 0, .failure⟩) [] ∧
      ((Image.threePages {}).guardedPatch .other 0x100000ffc (Array.replicate 8 0x90)).run
          (.preparedPages ⟨.write, 0, .failure⟩) =
        (.failed (.outOfRange 0x100000ffc 8 0x100000000 0x100001000), after) ∧
      errorRecords (after.journal.extract 0).toList = [] ∧
      errorRecords (after.journal.extract 0).toList ≠
        Operation.patch.diagnosis (.outOfRange 0x100000ffc 8 0x100000000 0x100001000) := by
  obtain ⟨after, hrun⟩ : ∃ after, ((Image.threePages {}).guardedPatch .other 0x100000ffc (Array.replicate 8 0x90)).run
      (.preparedPages ⟨.write, 0, .failure⟩) =
        (.failed (.outOfRange 0x100000ffc 8 0x100000000 0x100001000), after) :=
    Program.exists_run_eq (by decide +kernel)
  have hevents := ((Image.threePages {}).guardedPatch .other 0x100000ffc (Array.replicate 8 0x90)).extract_journal_run
    (.preparedPages ⟨.write, 0, .failure⟩)
  have hkept := @Image.told_guardedPatch _ _ (.threePages {}) .other 0x100000ffc (Array.replicate 8 0x90)
    (.preparedPages ⟨.write, 0, .failure⟩)
  rw [hrun] at hevents hkept
  have hnil : (after.journal.extract 0).toList = [] := hevents.trans (hkept.untold _ rfl trivial)
  refine ⟨after, Image.reaches_preparedPages _, hrun, ?_⟩
  rw [hnil]
  exact ⟨rfl, nofun⟩

end LivePatch
