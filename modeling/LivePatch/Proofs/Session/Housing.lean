import LivePatch.Proofs.Session.Keeping

/-!
# Sessions on the code of the engine itself

A session that changes the code of the engine itself is taken command by command against one that changes another image and is
alike in all else. As long as the shadow images carry the routines, a command answers the same in both and leaves states that
are alike again. No answer of the other session tells of a routine, so none of the first one does.
-/

namespace LivePatch.Session

namespace State

variable {κ α : Type} {state plain : State κ} {host : Host}

/-- The session with other code to change. -/
def hostedBy (state : State κ) (host : Host) : State κ := { state with host := host }

/-- What an answer and a new state are with other code to change. -/
def hosted (host : Host) (outcome : Answer × State κ) : Answer × State κ := (outcome.1, outcome.2.hostedBy host)

variable [Kernel κ]

/-! ## Commands of both sessions -/

/-- A program that runs alike in both sessions leaves them alike, if what is kept of its value does. -/
theorem perform_hostedBy (plain : State κ) {x y : Engine α} {keep keep' : α → State κ → Answer × State κ}
    (hrun : y.run plain.world = x.run plain.world)
    (hkeep : ∀ value world, x.run plain.world = (.done value, world) →
      keep' value ({ plain with world := world }.hostedBy host) = hosted host (keep value { plain with world := world })) :
    (plain.hostedBy host).perform y keep' = hosted host (plain.perform x keep) := by
  have hworld : (plain.hostedBy host).world = plain.world := rfl
  rw [perform, perform, hworld, hrun]
  rcases hx : x.run plain.world with ⟨value | error | _, world⟩
  · exact hkeep value world hx
  · rfl
  · rfl

theorem release_hostedBy (hplain : plain.host = .other) (h : plain.Keeps (·.shadow.Carries host)) (name : String)
    (answer : Answer) : (plain.hostedBy host).release name answer = hosted host (plain.release name answer) := by
  have hguards : (plain.hostedBy host).guards = plain.guards := rfl
  rw [release, release, hguards]
  split
  · rfl
  · rename_i guard hguard
    refine perform_hostedBy { plain with guards := plain.guards.erase name } ?_ fun _ _ _ => rfl
    dsimp only
    rw [hplain, ← Guard.release_eq_of_carries (h.guard hguard)]
    rfl

theorem keepGuard_hostedBy {plain : State κ} (h : plain.Keeps (·.shadow.Carries host)) (hplain : plain.host = .other)
    (name : String) (guard : Guard) : (plain.hostedBy host).keepGuard name guard = hosted host (plain.keepGuard name guard) := by
  have hguards : (plain.hostedBy host).guards = plain.guards := rfl
  rw [keepGuard, keepGuard, hguards]
  split
  · rfl
  · rename_i old hold
    refine perform_hostedBy { plain with guards := plain.guards.put name guard } ?_ fun _ _ _ => rfl
    dsimp only
    rw [hplain, ← Guard.release_eq_of_carries (h.guard hold)]
    rfl

/-- What is not a preparation goes alike in both sessions. -/
theorem operate_hostedBy {operation : Operation} (hplain : plain.host = .other) (h : plain.Keeps (·.shadow.Carries host))
    (hnot : operation.isPreparation = false) :
    (plain.hostedBy host).operate operation = hosted host (plain.operate operation) := by
  have himages : (plain.hostedBy host).images = plain.images := rfl
  cases operation with
  | prepare config => cases hnot
  | locate base =>
    rw [operate, operate]
    exact perform_hostedBy plain rfl fun _ _ _ => rfl
  | build source =>
    have hlayout : (plain.hostedBy host).layout? source = plain.layout? source := rfl
    rw [operate, operate, hlayout]
    split
    · rfl
    · exact perform_hostedBy plain rfl fun _ _ _ => rfl
  | toCopies source addresses | toCode source addresses => rfl
  | patch i target bytes =>
    rw [operate, operate, himages]
    split
    · rfl
    · rename_i image hi
      refine perform_hostedBy plain ?_ fun _ _ _ => rfl
      rw [hplain, ← Image.patch_eq_of_carries (h.image hi)]
      rfl
  | guard i name target bytes =>
    rw [operate, operate, himages]
    split
    · rfl
    · rename_i image hi
      refine perform_hostedBy plain ?_ fun guard world _ =>
        keepGuard_hostedBy (h.withWorld world) hplain name guard
      rw [hplain, ← Image.guardedPatch_eq_of_carries (h.image hi)]
      rfl
  | release name => exact release_hostedBy hplain h name .nothing
  | sweep kind report =>
    rw [operate, operate, sweepInto, sweepInto]
    exact perform_hostedBy plain rfl fun result _ _ => by cases result <;> rfl

/-- A first preparation goes alike in both sessions if the routines lie in the code that it finds. -/
theorem prepare_hostedBy {config : Config} (hplain : plain.host = .other) (hfirst : plain.attempted = false)
    (h : ∀ layout located, (locate (config.imageBase.getD (Kernel.imageBase plain.world.kernel))).run plain.world =
      (.done layout, located) → host.LiesIn layout.code) :
    (plain.hostedBy host).prepare config = hosted host (plain.prepare config) := by
  rw [prepare, prepare]
  refine perform_hostedBy { plain with attempted := true } ?_ fun _ _ _ => rfl
  have hattempted : (plain.hostedBy host).attempted = plain.attempted := rfl
  rw [hattempted, hplain, hfirst]
  exact Image.run_prepare_eq_of_liesIn h

end State

/-! ## Answers of sessions that change another image -/

/-- The answer is not the error of a routine that lies outside of the code. -/
def Answer.Inside (answer : Answer) : Prop := ∀ error, answer = .failure error → error.Inside

section

variable {κ : Type} [Kernel κ]

/-- Single requests do not end in errors of the engine. -/
theorem yields_single (request : Request) : (single request).Yields fun result _ =>
    ∀ answer, result = .ok answer → ∀ error, answer ≠ .failure error := by
  cases request with
  | currentThread | release _ | flush _ _ =>
    rintro reply _ ⟨⟩
    rintro _ ⟨⟩
  | region _ | allocate _ _ | deallocate _ _ | protect _ _ _ | copy _ _ _ | write _ _ | suspend _ | resume _ =>
    rintro (code | reply) _ ⟨⟩
    · rintro _ ⟨⟩
    · rintro _ ⟨⟩
  | read address len =>
    rw [single, Program.yields_bind, Program.yields_require]
    rintro len - (code | reply) _ ⟨⟩
    · rintro _ ⟨⟩
    · rintro _ ⟨⟩
  | threads =>
    rintro (code | list)
    · rintro _ ⟨⟩
      rintro _ ⟨⟩
    · rintro _ _ ⟨⟩
      rintro _ ⟨⟩

/-- No sweep ends in an error. -/
theorem yields_sweep_ok {kind : ThreadRequest} {report : SweepReport} :
    (sweep kind report : Engine (Except KernelCode SweepReport)).Yields fun result _ => ∃ value, result = .ok value := by
  refine yields_sweep_into.mono fun result es h => ?_
  rcases h with ⟨code, rfl, -⟩ | ⟨swept, rfl, -⟩
  · exact ⟨_, rfl⟩
  · exact ⟨_, rfl⟩

/-- Giving a guard up never ends in an error. -/
theorem yields_release {guard : Guard} {host : Host} : (guard.release host).Yields fun result _ => result = .ok () := by
  rw [Guard.release, Program.yields_bind, Program.yields_attempt]
  refine yields_patch.mono fun result _ _ => ?_
  cases result with
  | ok => rfl
  | error => rfl

end

namespace State

variable {κ α : Type} [Kernel κ] {plain : State κ}

/-- A program whose errors are inside, and whose values are kept with answers that are, is performed with such an answer. -/
theorem inside_perform {x : Engine α} {keep : α → State κ → Answer × State κ}
    (hx : x.Yields fun result _ => ∀ error ∈ errorOf? result, error.Inside)
    (hkeep : ∀ value after, (keep value after).1.Inside) : (plain.perform x keep).1.Inside := by
  rcases perform_cases plain x keep with ⟨value, world, -, h⟩ | ⟨error, world, hrun, h⟩ | ⟨world, -, h⟩
  · rw [h]
    exact hkeep _ _
  · rw [h]
    rintro _ ⟨⟩
    exact hx.of_run hrun rfl error rfl
  · rw [h]
    rintro _ ⟨⟩

theorem inside_call (request : Request) : (plain.call request).1.Inside := by
  intro error herror
  unfold call at herror
  rcases hrun : (single request).run plain.world with ⟨answer | impossible | _, world⟩
  · rw [hrun] at herror
    exact absurd herror ((yields_single request).of_run hrun rfl answer rfl error)
  · exact impossible.elim
  · rw [hrun] at herror
    cases herror

theorem inside_release {name : String} {answer : Answer} (h : answer.Inside) : (plain.release name answer).1.Inside := by
  unfold release
  split
  · rintro _ ⟨⟩
  · refine inside_perform (yields_release.mono fun result _ hresult => ?_) fun _ _ => h
    rw [hresult]
    rintro _ ⟨⟩

theorem inside_keepGuard (name : String) (guard : Guard) : (plain.keepGuard name guard).1.Inside := by
  rw [keepGuard]
  split
  · rintro _ ⟨⟩
  · refine inside_perform (yields_release.mono fun result _ hresult => ?_) fun _ _ => by rintro _ ⟨⟩
    rw [hresult]
    rintro _ ⟨⟩

theorem inside_counterparts (shadow : Option Shadow) (counterpart : Shadow → Address → Option (Option Address))
    (addresses : List Address) : (counterparts shadow counterpart addresses).Inside := by
  unfold counterparts
  split
  · rintro _ ⟨⟩
  · split
    · rintro _ ⟨⟩
    · rintro _ ⟨⟩

/-- No operation of a session that changes another image ends in the error of a routine. -/
theorem inside_operate (hplain : plain.host = .other) (operation : Operation) : (plain.operate operation).1.Inside := by
  cases operation with
  | locate base =>
    refine inside_perform (yields_locate.mono fun result _ h => ?_) fun _ _ => by rintro _ ⟨⟩
    obtain ⟨layout, -, hwalks⟩ := h
    cases result with
    | ok => rintro _ ⟨⟩
    | error error =>
      rintro _ ⟨⟩
      obtain ⟨_, hcut⟩ := hwalks
      exact hcut.inside
  | build source =>
    rw [operate]
    split
    · rintro _ ⟨⟩
    · refine inside_perform ((yields_buildShadow _).mono fun result _ h => ?_) fun _ _ => by rintro _ ⟨⟩
      cases result with
      | ok => rintro _ ⟨⟩
      | error error =>
        rintro _ ⟨⟩
        obtain ⟨_, _, _, _, -, hcut, -⟩ := h
        exact hcut.inside
  | toCopies source addresses => exact inside_counterparts _ _ addresses
  | toCode source addresses => exact inside_counterparts _ _ addresses
  | prepare config =>
    refine inside_perform (yields_prepare.mono fun result _ h error herror => ?_) fun _ _ => by rintro _ ⟨⟩
    rw [hplain, Option.mem_def.1 herror] at h
    exact h.inside
  | patch i target bytes =>
    rw [operate]
    split
    · rintro _ ⟨⟩
    · refine inside_perform (yields_patch.mono fun result _ h error herror => ?_) fun _ _ => by rintro _ ⟨⟩
      rw [hplain, Option.mem_def.1 herror] at h
      exact h.inside
  | guard i name target bytes =>
    rw [operate]
    split
    · rintro _ ⟨⟩
    · refine inside_perform (yields_guardedPatch.mono fun result _ h error herror => ?_) fun guard _ => inside_keepGuard name guard
      rw [hplain, Option.mem_def.1 herror] at h
      exact h.inside
  | release name => exact inside_release (by rintro _ ⟨⟩)
  | sweep kind report =>
    refine inside_perform (yields_sweep_ok.mono fun result _ h => ?_) fun result _ => by cases result <;> rintro _ ⟨⟩
    obtain ⟨value, rfl⟩ := h
    rintro _ ⟨⟩

/-- No command of a session that changes another image does. -/
theorem inside_take {plain : State Testbed} (hplain : plain.host = .other) (command : Command) :
    (plain.take command).1.Inside := by
  cases command with
  | setUp preparation =>
    rw [take]
    split
    · rintro _ ⟨⟩
    · rintro _ ⟨⟩
  | call request => exact inside_call request
  | inspect inspection =>
    have hsome : ∀ {γ : Type} (f : γ → Answer) (seen : Option γ), (∀ value, (f value).Inside) →
        ((f <$> seen).getD .crashed).Inside := by
      intro _ _ seen h
      cases seen with
      | none => rintro _ ⟨⟩
      | some value => exact h value
    cases inspection with
    | bytes | protection | isMapped | pages => exact hsome _ _ fun _ => by rintro _ ⟨⟩
  | operate operation => exact inside_operate hplain operation

end State

end LivePatch.Session
