import LivePatch.Proofs.Session.Registry
import LivePatch.Session.Simulated
import Mathlib.Data.List.Forall2

/-!
# Histories of sessions

The history of a session is its entries, each with the state that it leaves. How a command is taken is left open, so that a session
can be held against one in which some commands are taken in another way. Two sessions that a relation keeps together, command by
command and guard by guard, have histories that correspond moment by moment.
-/

namespace LivePatch.Session

/-- A moment of a session: an entry, and the state that it leaves. -/
abbrev Moment := Entry Call × State Testbed

/-- A way to take commands. -/
abbrev Taking := State Testbed → Command → Answer × State Testbed

namespace State

/-- The moment that an answer and a new state make of a state. -/
def moment (before : State Testbed) (outcome : Answer × State Testbed) : Moment :=
  (entry before outcome.2 outcome.1, outcome.2)

/-- The moments in which the guards with these names are given up in turn. -/
def dropHistory (state : State Testbed) : List String → List Moment
  | [] => []
  | name :: rest =>
    let outcome := state.release name (.dropped name)
    if outcome.1 = .crashed then [state.moment outcome] else state.moment outcome :: dropHistory outcome.2 rest

/-- The moments of a session in which commands are taken as `take` says. -/
def history (take : Taking) (state : State Testbed) : List Command → List Moment
  | [] => state.dropHistory (state.guards.map (·.1))
  | command :: rest =>
    let outcome := take state command
    if outcome.1 = .crashed then [state.moment outcome] else state.moment outcome :: history take outcome.2 rest

theorem map_fst_dropHistory (names : List String) (state : State Testbed) :
    (state.dropHistory names).map Prod.fst = state.dropGuards names := by
  induction names generalizing state with
  | nil => rfl
  | cons name rest ih =>
    rw [dropHistory, dropGuards]
    dsimp only
    split
    · rfl
    · rw [List.map_cons, ih]
      rfl

/-- The entries of a session are those of its history. -/
theorem map_fst_history (state : State Testbed) (commands : List Command) :
    (state.history take commands).map Prod.fst = state.run commands := by
  induction commands generalizing state with
  | nil => exact map_fst_dropHistory _ state
  | cons command rest ih =>
    rw [history, run]
    dsimp only
    split
    · rfl
    · rw [List.map_cons, ih]
      rfl

/-! ## Sessions side by side -/

/-- What two states come to corresponds, and the states that they come to stay together unless they crash. -/
structure Abreast (R : State Testbed → State Testbed → Prop) (V : Moment → Moment → Prop) (before before' : State Testbed)
    (outcome outcome' : Answer × State Testbed) : Prop where
  moments : V (before.moment outcome) (before'.moment outcome')
  crashed : outcome.1 = .crashed ↔ outcome'.1 = .crashed
  together : outcome.1 ≠ .crashed → R outcome.2 outcome'.2

/-- Guards that are given up in turn in two sessions correspond if a relation keeps the sessions together. -/
theorem forall₂_dropHistory {R : State Testbed → State Testbed → Prop} {V : Moment → Moment → Prop}
    (hdrop : ∀ name {state state'}, R state state' →
      Abreast R V state state' (state.release name (.dropped name)) (state'.release name (.dropped name)))
    (names : List String) {state state' : State Testbed} (h : R state state') :
    List.Forall₂ V (state.dropHistory names) (state'.dropHistory names) := by
  induction names generalizing state state' with
  | nil => exact .nil
  | cons name rest ih =>
    have habreast := hdrop name h
    rw [dropHistory, dropHistory]
    by_cases hcrashed : (state.release name (.dropped name)).1 = .crashed
    · rw [if_pos hcrashed, if_pos (habreast.crashed.1 hcrashed)]
      exact .cons habreast.moments .nil
    · rw [if_neg hcrashed, if_neg (mt habreast.crashed.2 hcrashed)]
      exact .cons habreast.moments (ih (habreast.together hcrashed))

/-- Sessions that a relation keeps together correspond moment by moment. The relation may depend on the commands that are left. -/
theorem forall₂_history {take take' : Taking} {R : List Command → State Testbed → State Testbed → Prop}
    {V : Moment → Moment → Prop}
    (hguards : ∀ {state state'}, R [] state state' → state.guards.map (·.1) = state'.guards.map (·.1))
    (hdrop : ∀ name {state state'}, R [] state state' →
      Abreast (R []) V state state' (state.release name (.dropped name)) (state'.release name (.dropped name)))
    (hstep : ∀ command rest {state state'}, R (command :: rest) state state' →
      Abreast (R rest) V state state' (take state command) (take' state' command))
    {commands : List Command} {state state' : State Testbed} (h : R commands state state') :
    List.Forall₂ V (state.history take commands) (state'.history take' commands) := by
  induction commands generalizing state state' with
  | nil =>
    rw [history, history, hguards h]
    exact forall₂_dropHistory hdrop _ h
  | cons command rest ih =>
    have habreast := hstep command rest h
    rw [history, history]
    by_cases hcrashed : (take state command).1 = .crashed
    · rw [if_pos hcrashed, if_pos (habreast.crashed.1 hcrashed)]
      exact .cons habreast.moments .nil
    · rw [if_neg hcrashed, if_neg (mt habreast.crashed.2 hcrashed)]
      exact .cons habreast.moments (ih (habreast.together hcrashed))

/-- What holds along a session holds of each of its moments. It may depend on the commands that are left. -/
theorem forall_history {take : Taking} {R : List Command → State Testbed → Prop} {V : Moment → Prop}
    (hdrop : ∀ name {state}, R [] state → V (state.moment (state.release name (.dropped name))) ∧
      ((state.release name (.dropped name)).1 ≠ .crashed → R [] (state.release name (.dropped name)).2))
    (hstep : ∀ command rest {state}, R (command :: rest) state → V (state.moment (take state command)) ∧
      ((take state command).1 ≠ .crashed → R rest (take state command).2))
    {commands : List Command} {state : State Testbed} (h : R commands state) :
    ∀ moment ∈ state.history take commands, V moment := by
  -- the session stays together with itself
  have hself : List.Forall₂ (fun moment _ => V moment) (state.history take commands) (state.history take commands) := by
    refine forall₂_history (R := fun commands state state' => state' = state ∧ R commands state) ?_ ?_ ?_ ⟨rfl, h⟩
    · rintro state _ ⟨rfl, -⟩
      rfl
    · rintro name state _ ⟨rfl, h⟩
      exact ⟨(hdrop name h).1, Iff.rfl, fun hnot => ⟨rfl, (hdrop name h).2 hnot⟩⟩
    · rintro command rest state _ ⟨rfl, h⟩
      exact ⟨(hstep command rest h).1, Iff.rfl, fun hnot => ⟨rfl, (hstep command rest h).2 hnot⟩⟩
  exact (@List.forall₂_same _ (fun moment _ => V moment) _).1 hself

end State

end LivePatch.Session
