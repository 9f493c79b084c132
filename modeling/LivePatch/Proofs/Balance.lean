import Mathlib.Data.List.Count
import LivePatch.Proofs.Engine.Completion
import LivePatch.Proofs.Engine.Serving
import LivePatch.Proofs.Engine.Survey
import LivePatch.Proofs.Simulation.Replay

/-!
# Whether threads are resumed

An operation lists the threads twice, and the threads may change in between. It suspends each of the others as often as the first
list names it, and resumes it as often as the second one does, whatever the threads answer and whatever becomes of the change. The
code is changed between the two rounds and at no other time. So nobody stays suspended while the list stays the same, and if there
is no second list, the operation says so by failing.
-/

namespace LivePatch

/-! ## Lists of threads and requests to threads -/

/-- The reply to a request for the list of threads. -/
def Exchange.listing? : Exchange → Option (Except KernelCode ThreadList)
  | ⟨.threads, reply⟩ => some reply
  | _ => none

/-- The replies to the requests for the list of threads. -/
def listings (es : List Exchange) : List (Except KernelCode ThreadList) := es.filterMap Exchange.listing?

/-- The request to a thread. -/
def ThreadRequest.request : ThreadRequest → Thread → Request
  | .suspend, thread => .suspend thread
  | .resume, thread => .resume thread

/-- How often a thread is asked. -/
def asks (kind : ThreadRequest) (thread : Thread) (es : List Exchange) : Nat :=
  (es.map Exchange.request).count (kind.request thread)

/-- The request has nothing to do with threads. -/
def Request.Calm : Request → Prop
  | .threads | .currentThread | .suspend _ | .resume _ => False
  | _ => True

section

variable {kind kind' : ThreadRequest} {thread : Thread} {e : Exchange} {es es' : List Exchange}

@[simp] theorem listings_append : listings (es ++ es') = listings es ++ listings es' := List.filterMap_append

@[simp] theorem asks_append : asks kind thread (es ++ es') = asks kind thread es + asks kind thread es' := by
  rw [asks, List.map_append, List.count_append, asks, asks]

theorem listings_of_calm (h : ∀ e ∈ es, e.request.Calm) : listings es = [] := by
  rw [listings, List.filterMap_eq_nil_iff]
  rintro ⟨request, reply⟩ he
  cases request with
  | threads => exact (h _ he).elim
  | _ => rfl

theorem asks_of_calm (h : ∀ e ∈ es, e.request.Calm) : asks kind thread es = 0 := by
  rw [asks, List.count_eq_zero]
  intro hmem
  obtain ⟨e, he, hrequest⟩ := List.mem_map.1 hmem
  have hcalm := h e he
  rw [hrequest] at hcalm
  cases kind <;> exact hcalm

/-- Each of the others is asked as often as it is listed, and the thread that makes the sweep is not. -/
theorem asks_exchanges (sweep : Sweep) :
    asks kind thread (sweep.exchanges kind) = if thread = sweep.caller then 0 else sweep.list.threads.count thread := by
  have hround : asks kind thread (sweep.round.map fun asked => kind.asked asked.1 asked.2) =
      (sweep.round.map Prod.fst).count thread := by
    have hinjective : Function.Injective kind.request := by
      intro t t' h
      cases kind <;> cases h <;> rfl
    have hrequest : (sweep.round.map fun asked => kind.asked asked.1 asked.2).map Exchange.request =
        (sweep.round.map Prod.fst).map kind.request := by
      rw [List.map_map, List.map_map]
      refine List.map_congr_left fun asked _ => ?_
      cases kind <;> rfl
    rw [asks, hrequest, List.count_map_of_injective _ _ hinjective]
  have hends : asks kind thread (sweep.exchanges kind) =
      asks kind thread (sweep.round.map fun asked => kind.asked asked.1 asked.2) := by
    simp only [Sweep.exchanges, Sweep.tail, asks, List.map_cons, List.map_append, List.map_nil, List.count_cons, List.count_append,
      List.count_nil]
    cases kind <;> simp [ThreadRequest.request]
  rw [hends, hround, sweep.round_eq]
  split
  · rename_i h
    rw [List.count_eq_zero]
    simp [h]
  · rename_i h
    rw [List.count_filter (by simpa using h)]

/-- Nobody is asked for anything else. -/
theorem asks_exchanges_of_ne (sweep : Sweep) (hne : kind ≠ kind') : asks kind thread (sweep.exchanges kind') = 0 := by
  rw [asks, List.count_eq_zero]
  intro hmem
  obtain ⟨e, he, hrequest⟩ := List.mem_map.1 hmem
  have hsweep := sweep.ofSweep_of_mem_exchanges e he
  rw [hrequest] at hsweep
  cases kind <;> cases kind' <;> simp_all [Request.OfSweep, ThreadRequest.request]

/-- A sweep lists the threads once, before it asks anybody. -/
theorem listings_exchanges (sweep : Sweep) : listings (sweep.exchanges kind) = [.ok sweep.list] := by
  have hround : ∀ round : List (Thread × Except KernelCode Unit),
      listings (round.map fun asked => kind.asked asked.1 asked.2) = [] := by
    intro round
    rw [listings, List.filterMap_eq_nil_iff]
    intro e he
    obtain ⟨asked, -, rfl⟩ := List.mem_map.1 he
    cases kind <;> rfl
  have hcons : listings (sweep.exchanges kind) = .ok sweep.list ::
      listings ((sweep.round.map fun asked => kind.asked asked.1 asked.2) ++ [⟨.release sweep.list, ()⟩]) := rfl
  rw [hcons, listings_append, hround]
  rfl

end

/-! ## Changes of the code -/

/-- The pages of a range may reach into the region. -/
def Region.Touches (region : Region) (a : Address) (n : Nat) : Prop :=
  pageFloor a < region.base + region.size ∧ region.base < a + n + pageBytes

/-- The exchange may change the region: it maps, unmaps, protects or fills memory on pages that reach into it. A request to do that
counts even if it fails, but for one to map memory, which touches nothing then. -/
def Exchange.Alters (region : Region) : Exchange → Prop
  | ⟨.allocate _ size, .ok base⟩ => region.Touches base size
  | ⟨.deallocate a size, _⟩ => region.Touches a size
  | ⟨.protect a size _, _⟩ => region.Touches a size
  | ⟨.copy _ size destination, _⟩ => region.Touches destination size
  | ⟨.write a bytes, _⟩ => region.Touches a bytes.size
  | _ => False

theorem Request.Idle.not_alters {e : Exchange} (h : e.request.Idle) (region : Region) : ¬ e.Alters region := by
  obtain ⟨request, reply⟩ := e
  cases request with
  | region | read | threads | currentThread | release | suspend | resume => exact id
  | allocate | deallocate | protect | copy | write | flush => exact h.elim

/-! ## Balance -/

/-- What an operation does to the threads, if `caller` is the calling one, the regions of the code are those that `IsCode` says, and
`Vacuous` says that there is nothing to change. It does not list them, and then it fails unless there is nothing to change, and
neither asks anybody nor changes the code; or it does not get the first list, and fails the same way; or it gets one. Then each of
the others is suspended as often as it is on this list and resumed as often as it is on the second one, the code is changed behind
the first round and ahead of the second list, and the operation fails if there is no second list. -/
inductive Balanced (caller : Thread) (IsCode : Region → Prop) (Vacuous : Prop) (error? : Option Error) (es : List Exchange) :
    Prop where
  | unlisted (hlistings : listings es = []) (hasks : ∀ kind thread, asks kind thread es = 0)
      (hcode : ∀ region, IsCode region → ∀ e ∈ es, ¬ e.Alters region) (hidle : error?.isSome ∨ Vacuous)
  | refused (cause : KernelCode) (hlistings : listings es = [.error cause]) (hasks : ∀ kind thread, asks kind thread es = 0)
      (hcode : ∀ region, IsCode region → ∀ e ∈ es, ¬ e.Alters region) (herror : error?.isSome)
  | paused (first : ThreadList) (second : Except KernelCode ThreadList) (hlistings : listings es = [.ok first, second])
      (hsuspends : ∀ thread, asks .suspend thread es = if thread = caller then 0 else first.threads.count thread)
      (hresumes : ∀ list, second = .ok list →
        ∀ thread, asks .resume thread es = if thread = caller then 0 else list.threads.count thread)
      (hunresumed : ∀ cause, second = .error cause → (∀ thread, asks .resume thread es = 0) ∧ error?.isSome)
      (hcode : ∀ region, IsCode region → ∀ ahead e behind, es = ahead ++ e :: behind → e.Alters region →
        listings ahead = [.ok first] ∧ listings behind = [second] ∧
          ∀ thread, asks .suspend thread behind = 0 ∧ asks .resume thread ahead = 0)

/-- While the list of threads stays the same, everybody is resumed as often as suspended. -/
theorem Balanced.asks_eq {caller : Thread} {IsCode : Region → Prop} {Vacuous : Prop} {error? : Option Error} {es : List Exchange}
    (h : Balanced caller IsCode Vacuous error? es) {first second : ThreadList} (hlistings : listings es = [.ok first, .ok second])
    (hsame : second.threads = first.threads) (thread : Thread) : asks .suspend thread es = asks .resume thread es := by
  cases h with
  | unlisted h => simp [h] at hlistings
  | refused cause h => simp [h] at hlistings
  | paused first' second' h hsuspends hresumes =>
    rw [h] at hlistings
    obtain ⟨rfl, rfl⟩ : first' = first ∧ second' = .ok second := by simpa using hlistings
    rw [hsuspends, hresumes second rfl, hsame]

/-- An operation that succeeds and has something to change gets both lists. It suspends each of the others as often as the first one
names it, and resumes it as often as the second one does. -/
theorem Balanced.exists_listings {caller : Thread} {IsCode : Region → Prop} {Vacuous : Prop} {es : List Exchange}
    (h : Balanced caller IsCode Vacuous none es) (hchange : ¬ Vacuous) : ∃ first second : ThreadList,
      listings es = [.ok first, .ok second] ∧
      (∀ thread, asks .suspend thread es = if thread = caller then 0 else first.threads.count thread) ∧
      ∀ thread, asks .resume thread es = if thread = caller then 0 else second.threads.count thread := by
  cases h with
  | unlisted _ _ _ hidle => exact absurd (hidle.resolve_left (by simp)) hchange
  | refused _ _ _ _ herror => simp at herror
  | paused first second hlistings hsuspends hresumes hunresumed =>
    cases second with
    | error cause => simp at hunresumed
    | ok second => exact ⟨first, second, hlistings, hsuspends, hresumes second rfl⟩

section

variable {es es' ahead behind : List Exchange} {e : Exchange} {p : Exchange → Prop}

/-- An exchange that is none of those in front of a list is one of the list. -/
theorem exists_of_append_left (hes : ∀ e ∈ es, ¬ p e) (he : p e) (h : es ++ es' = ahead ++ e :: behind) :
    ∃ ahead', ahead = es ++ ahead' ∧ es' = ahead' ++ e :: behind := by
  rcases List.append_eq_append_iff.1 h with ⟨ahead', hahead, hes'⟩ | ⟨between, hes', hbehind⟩
  · exact ⟨ahead', hahead, hes'⟩
  · cases between with
    | nil =>
      rw [List.append_nil] at hes'
      exact ⟨[], by rw [List.append_nil, hes'], hbehind.symm⟩
    | cons e' between =>
      obtain ⟨rfl, -⟩ := List.cons.inj hbehind
      exact absurd he (hes e (by simp [hes']))

/-- Neither is one that is none of those behind it. -/
theorem exists_of_append_right (hes' : ∀ e ∈ es', ¬ p e) (he : p e) (h : es ++ es' = ahead ++ e :: behind) :
    ∃ behind', behind = behind' ++ es' ∧ es = ahead ++ e :: behind' := by
  rcases List.append_eq_append_iff.1 h with ⟨ahead', rfl, hes''⟩ | ⟨between, rfl, hbehind⟩
  · exact absurd he (hes' e (by simp [hes'']))
  · cases between with
    | nil =>
      rw [List.nil_append] at hbehind
      exact absurd he (hes' e (by simp [← hbehind]))
    | cons e' between =>
      obtain ⟨rfl, rfl⟩ := List.cons.inj hbehind
      exact ⟨between, rfl, rfl⟩

end

section

variable {host : Host} {strict : Bool} {P : Except Error Unit → List Exchange → Prop} {result : Except Error Unit}
  {es ahead behind : List Exchange} {caller : Thread} {IsCode : Region → Prop} {Vacuous : Prop} {error? : Option Error}

theorem listings_sweepExchanges (kind : ThreadRequest) (swept : Except KernelCode Sweep) :
    listings (sweepExchanges kind swept) = [swept.map Sweep.list] := by
  cases swept with
  | error cause => rfl
  | ok sweep => exact listings_exchanges sweep

theorem asks_sweepExchanges_of_ne {kind kind' : ThreadRequest} {thread : Thread} (hne : kind ≠ kind')
    (swept : Except KernelCode Sweep) : asks kind thread (sweepExchanges kind' swept) = 0 := by
  cases swept with
  | error cause => cases kind <;> rfl
  | ok sweep => exact asks_exchanges_of_ne sweep hne

/-- Two sweeps with nothing but a change between them, and calm exchanges in front and behind, are balanced. -/
theorem balanced_of_sweeps (suspended : Sweep) (resumed : Except KernelCode Sweep)
    (hahead : ∀ e ∈ ahead, e.request.Calm) (hes : ∀ e ∈ es, e.request.Calm) (hbehind : ∀ e ∈ behind, e.request.Calm)
    (hcode : ∀ region, IsCode region → ∀ e ∈ ahead ++ behind, ¬ e.Alters region)
    (hsuspended : suspended.caller = caller) (hresumed : MadeBy caller resumed)
    (herror : ∀ cause, resumed = .error cause → error?.isSome) :
    Balanced caller IsCode Vacuous error?
      ((ahead ++ suspended.exchanges .suspend) ++ (es ++ (sweepExchanges .resume resumed ++ behind))) := by
  have hlisted := listings_sweepExchanges .resume resumed
  have hidle : ∀ {kind swept}, ∀ e ∈ sweepExchanges kind swept, e.request.Idle :=
    fun e he => (ofSweep_of_mem_sweepExchanges e he).idle
  refine .paused suspended.list (resumed.map Sweep.list) ?_ (fun thread => ?_) (fun list hlist thread => ?_)
    (fun cause hcause => ?_) fun region hregion before e after hsplit halters => ?_
  · simp [listings_of_calm hahead, listings_of_calm hes, listings_of_calm hbehind, listings_exchanges, hlisted]
  · simp [asks_of_calm hahead, asks_of_calm hes, asks_of_calm hbehind, asks_exchanges, asks_sweepExchanges_of_ne, hsuspended]
  · cases resumed with
    | error cause => cases hlist
    | ok sweep =>
      cases hlist
      simp [asks_of_calm hahead, asks_of_calm hes, asks_of_calm hbehind, asks_exchanges_of_ne, sweepExchanges, asks_exchanges,
        hresumed sweep rfl]
  · cases resumed with
    | error cause' =>
      refine ⟨fun thread => ?_, herror cause' rfl⟩
      have hnobody : asks .resume thread (sweepExchanges .resume (.error cause')) = 0 := rfl
      simp [asks_of_calm hahead, asks_of_calm hes, asks_of_calm hbehind, asks_exchanges_of_ne, hnobody]
    | ok sweep => cases hcause
  · -- neither the sweeps nor what is outside of them touches the code
    have hfront : ∀ e ∈ ahead ++ suspended.exchanges .suspend, ¬ e.Alters region := by
      rw [List.forall_mem_append]
      exact ⟨fun e he => hcode region hregion e (List.mem_append_left _ he),
        fun e he => (@hidle .suspend (.ok suspended) e he).not_alters region⟩
    have hback : ∀ e ∈ sweepExchanges .resume resumed ++ behind, ¬ e.Alters region := by
      rw [List.forall_mem_append]
      exact ⟨fun e he => (hidle e he).not_alters region, fun e he => hcode region hregion e (List.mem_append_right _ he)⟩
    obtain ⟨before', hbefore, hrest⟩ := exists_of_append_left hfront halters hsplit
    obtain ⟨after', hafter, hchange⟩ := exists_of_append_right hback halters hrest
    subst hbefore hafter hchange
    rw [List.forall_mem_append, List.forall_mem_cons] at hes
    obtain ⟨hbefore', -, hafter'⟩ := hes
    refine ⟨?_, ?_, fun thread => ⟨?_, ?_⟩⟩
    · simp [listings_of_calm hahead, listings_of_calm hbefore', listings_exchanges]
    · simp [listings_of_calm hbehind, listings_of_calm hafter', hlisted]
    · simp [asks_of_calm hbehind, asks_of_calm hafter', asks_sweepExchanges_of_ne]
    · simp [asks_of_calm hahead, asks_of_calm hbefore', asks_exchanges_of_ne]

/-- A bracket whose change is calm is balanced, with calm exchanges in front and behind that leave the code alone. -/
theorem Paused.balanced (h : Paused host strict P result es) (hP : ∀ {result es}, P result es → ∀ e ∈ es, e.request.Calm)
    (hahead : ∀ e ∈ ahead, e.request.Calm) (hbehind : ∀ e ∈ behind, e.request.Calm)
    (hcode : ∀ region, IsCode region → ∀ e ∈ ahead ++ behind, ¬ e.Alters region)
    (hcaller : ∀ thread, ⟨.currentThread, thread⟩ ∈ es → thread = caller)
    (herror : ∀ error, result = .error error → error?.isSome) : Balanced caller IsCode Vacuous error? (ahead ++ (es ++ behind)) := by
  have hnobody : ∀ {cause : KernelCode} {kind kind' : ThreadRequest} {thread : Thread},
      asks kind thread (sweepExchanges kind' (.error cause)) = 0 := by
    intro cause kind kind' thread
    cases kind <;> rfl
  cases h with
  | outside =>
    rw [List.nil_append]
    have hcalm : ∀ e ∈ ahead ++ behind, e.request.Calm := List.forall_mem_append.2 ⟨hahead, hbehind⟩
    exact .unlisted (listings_of_calm hcalm) (fun _ _ => asks_of_calm hcalm) hcode (Or.inl (herror _ rfl))
  | unlisted cause =>
    refine .refused cause ?_ (fun kind thread => ?_) (fun region hregion => ?_) (herror _ rfl)
    · simp [listings_of_calm hahead, listings_of_calm hbehind, listings_sweepExchanges, Except.map]
    · simp [asks_of_calm hahead, asks_of_calm hbehind, hnobody]
    · have hcode := hcode region hregion
      rw [List.forall_mem_append] at hcode
      rw [List.forall_mem_append, List.forall_mem_append]
      exact ⟨hcode.1, fun e he => (ofSweep_of_mem_sweepExchanges e he).idle.not_alters region, hcode.2⟩
  | calledOff suspended hstrict hrefused resumed =>
    have hsuspended : suspended.caller = caller := hcaller _ (List.mem_append_left _ suspended.caller_mem_exchanges)
    have hresumed : MadeBy caller resumed := fun sweep hswept =>
      hcaller _ (List.mem_append_right _ (hswept ▸ sweep.caller_mem_exchanges))
    have hfailed : ∀ cause, resumed = .error cause → error?.isSome := by
      rintro cause rfl
      exact herror _ rfl
    have hbalanced := @balanced_of_sweeps [] ahead behind caller IsCode Vacuous error? suspended resumed hahead (List.forall_mem_nil _)
      hbehind hcode hsuspended hresumed hfailed
    simpa using hbalanced
  | @around result es suspended hgo h resumed =>
    have hsuspended : suspended.caller = caller := hcaller _ (List.mem_append_left _ suspended.caller_mem_exchanges)
    have hresumed : MadeBy caller resumed := fun sweep hswept =>
      hcaller _ (List.mem_append_right _ (List.mem_append_right _ (hswept ▸ sweep.caller_mem_exchanges)))
    have hfailed : ∀ cause, resumed = .error cause → error?.isSome := by
      rintro cause rfl
      cases result with
      | error | ok => exact herror _ rfl
    have hbalanced := @balanced_of_sweeps es ahead behind caller IsCode Vacuous error? suspended resumed hahead (hP h) hbehind hcode
      hsuspended hresumed hfailed
    simpa using hbalanced

end

/-! ## Surveys -/

section

variable {host : Host} {base : Address} {result : Except Error Shadow} {es : List Exchange} {bed final : Testbed} {region : Region}

/-- What lies behind a region does not touch it. -/
theorem Region.not_touches {a : Address} {n : Nat} (h : region.base + region.size + Space.allocationGap ≤ a) :
    ¬ region.Touches a n := by
  rintro ⟨hlt, -⟩
  simp only [pageFloor, Space.allocationGap, pageBytes] at *
  lia

/-- The calls that build a shadow image behind a region do not change the region, and neither does discarding it. -/
theorem Layout.not_alters_of_mem {layout : Layout} {shadow : Address}
    (h : region.base + region.size + Space.allocationGap ≤ shadow) {e : Exchange}
    (he : e.request ∈ .deallocate shadow layout.extent :: (layout.shadowing shadow).tail.map fun stage => stage.exchange.request) :
    ¬ e.Alters region := by
  obtain ⟨request, reply⟩ := e
  simp only [Layout.shadowing, List.tail_cons, List.map_cons, List.map_nil, List.mem_cons, List.not_mem_nil, or_false] at he
  rcases he with rfl | rfl | rfl | rfl | rfl | rfl
  all_goals exact Region.not_touches (by lia)

/-- Memory that is not mapped changes nothing. -/
theorem Stops.not_alters {step : Step} {size : Nat} {reply : Except KernelCode Address} {actual : Exchange} {error : Error}
    (h : Stops step ⟨.allocate .anywhere size, reply⟩ actual error) : ¬ actual.Alters region := by
  cases h with
  | @refused _ _ actual code hrequest hcode =>
    obtain ⟨request, answer⟩ := actual
    cases hrequest
    cases answer with
    | error => exact id
    | ok => cases hcode

/-- A survey leaves alone what its test bed reports as the code. -/
theorem Surveys.not_alters (h : Surveys host base result es) (hserved : Program.Served bed es final) {a : Address}
    (hregion : bed.machine.space.region a = .done region) : ∀ e ∈ es, ¬ e.Alters region := by
  have hlocating : ∀ {layout : Layout}, ∀ stage ∈ layout.locating base, stage.exchange.request.Idle := by
    simp [Layout.locating, Request.Idle]
  have hlocated : ∀ {layout : Layout}, ∀ e ∈ (layout.locating base).map Stage.exchange, e.request.Idle :=
    List.forall_mem_map.2 hlocating
  have hidle : ∀ {es : List Exchange}, (∀ e ∈ es, e.request.Idle) → ∀ e ∈ es, ¬ e.Alters region :=
    fun h e he => (h e he).not_alters region
  -- a shadow image that was mapped lies behind the code
  have hbehind : ∀ {layout : Layout} {shadow : Address} {rest : List Exchange},
      Program.Served bed
        ((layout.locating base).map Stage.exchange ++ ⟨.allocate .anywhere layout.extent, .ok shadow⟩ :: rest) final →
      region.base + region.size + Space.allocationGap ≤ shadow := by
    intro layout shadow rest hserved
    obtain ⟨bed', hbed', next, hserve, -⟩ := Program.served_append.1 hserved
    have hspace := (Testbed.evolves_served hbed').eq_of_idle hlocated
    rw [← hspace] at hregion
    obtain ⟨m, hm, hb, hs⟩ := Space.mem_of_region_eq_done hregion
    have hle := Testbed.behind_of_serve_allocate (List.ne_nil_of_mem hm) (by rw [hserve]) m hm
    rw [hb, hs]
    exact hle
  cases h with
  | unlocated hjoined hcut => exact hidle (hcut.forall_request hlocating)
  | outside => exact hidle hlocated
  | @unbuilt layout shadow step error es cleanup hjoined hcut hcleanup =>
    rw [List.forall_mem_append]
    refine ⟨hidle hlocated, ?_⟩
    cases hcut with
    | here hstops =>
      have hnone : layout.discarding shadow .allocateShadow = [] := rfl
      rw [hnone, List.map_eq_nil_iff] at hcleanup
      subst hcleanup
      simpa using hstops.not_alters
    | @later _ _ _ _ es hcut =>
      have hle := hbehind hserved
      rw [List.cons_append, List.forall_mem_cons, List.forall_mem_append]
      refine ⟨Region.not_touches hle, fun e he => ?_, fun e he => ?_⟩
      · exact Layout.not_alters_of_mem hle (List.mem_cons_of_mem _ (hcut.request_mem he))
      · have hmem := List.mem_map_of_mem (f := Exchange.request) he
        rw [hcleanup, Layout.discarding] at hmem
        split at hmem
        · exact Layout.not_alters_of_mem hle (List.mem_cons.2 (Or.inl (List.mem_singleton.1 hmem)))
        · cases hmem
  | @built layout hjoined shadow =>
    have hle := hbehind hserved
    rw [List.forall_mem_append]
    refine ⟨hidle hlocated, ?_⟩
    rw [List.forall_mem_map]
    intro stage hstage
    rcases List.mem_cons.1 hstage with rfl | hstage
    · exact Region.not_touches hle
    · exact Layout.not_alters_of_mem hle (List.mem_cons_of_mem _ (List.mem_map_of_mem hstage))

end

/-! ## Operations -/

theorem Request.OfSurvey.calm {request : Request} (h : request.OfSurvey) : request.Calm := by
  cases request with
  | threads | currentThread | suspend | resume => exact h
  | _ => trivial

theorem Request.IsRead.calm {request : Request} (h : request.IsRead) : request.Calm := by
  cases request with
  | read => trivial
  | _ => exact h.elim

theorem ReplacesCode.calm {code : Region} {shadowBase : Address} {result : Except Error Unit} {es : List Exchange}
    (h : ReplacesCode code shadowBase result es) : ∀ e ∈ es, e.request.Calm := by
  cases h <;> simp [Request.Calm]

theorem WritesCode.calm {target : Address} {bytes : Bytes} {span : PageSpan} {result : Except Error Unit} {es : List Exchange}
    (h : WritesCode target bytes span result es) : ∀ e ∈ es, e.request.Calm := by
  cases h <;> simp [Request.Calm]

section

variable {error? : Option Error} {es : List Exchange} {bed final : Testbed}

/-- A preparation is balanced, and the code is what the test bed reports at the base. -/
theorem Config.Prepares.balanced {config : Config} {host : Host} {base : Address} (h : config.Prepares host base error? es)
    (hserved : Program.Served bed es final) :
    Balanced bed.machine.caller (fun region => bed.machine.space.region base = .done region) False error? es := by
  have hcalm : ∀ {es : List Exchange}, (∀ e ∈ es, e.request.OfSurvey) → ∀ e ∈ es, e.request.Calm := fun h e he => (h e he).calm
  cases h with
  | again => exact .unlisted rfl (fun kind _ => by cases kind <;> rfl) (by simp) (Or.inl rfl)
  | surveyed h =>
    have hes := hcalm h.ofSurvey
    exact .unlisted (listings_of_calm hes) (fun _ _ => asks_of_calm hes) (fun region hregion => h.not_alters hserved hregion)
      (Or.inl rfl)
  | @stopped shadow error survey es hsurvey h =>
    obtain ⟨_, hfirst, -⟩ := Program.served_append.1 hserved
    have hcaller : ∀ thread, ⟨.currentThread, thread⟩ ∈ es → thread = bed.machine.caller :=
      fun thread hmem => Testbed.caller_served hserved (List.mem_append_right _ hmem)
    rw [← List.append_nil es]
    refine h.balanced ReplacesCode.calm (hcalm hsurvey.ofSurvey) (List.forall_mem_nil _) (fun region hregion => ?_) hcaller
      fun _ _ => rfl
    rw [List.append_nil]
    exact hsurvey.not_alters hfirst hregion
  | @prepared shadow survey es hsurvey h =>
    obtain ⟨_, hfirst, -⟩ := Program.served_append.1 hserved
    have hcaller : ∀ thread, ⟨.currentThread, thread⟩ ∈ es → thread = bed.machine.caller :=
      fun thread hmem => Testbed.caller_served hserved (List.mem_append_right _ (List.mem_append_left _ hmem))
    refine h.balanced ReplacesCode.calm (hcalm hsurvey.ofSurvey) (by simp [Request.Calm]) (fun region hregion => ?_) hcaller nofun
    rw [List.forall_mem_append]
    exact ⟨hsurvey.not_alters hfirst hregion, by simp [Exchange.Alters]⟩

/-- So is an attempt to patch, whatever its code is. -/
theorem Image.Overwrites.balanced {image : Image} {host : Host} {n : Nat} (h : image.Overwrites host n error? es)
    (hserved : Program.Served bed es final) (IsCode : Region → Prop) : Balanced bed.machine.caller IsCode (n = 0) error? es := by
  have hcalm : ∀ {es : List Exchange}, (∀ e ∈ es, e.request.IsRead) → ∀ e ∈ es, e.request.Calm := fun h e he => (h e he).calm
  have hidle : ∀ {es : List Exchange} {region : Region}, (∀ e ∈ es, e.request.IsRead) → ∀ e ∈ es, ¬ e.Alters region :=
    fun h e he => (h e he).idle.not_alters _
  cases h with
  | untried hsaves _ hvacuous =>
    exact .unlisted (listings_of_calm (hcalm hsaves)) (fun _ _ => asks_of_calm (hcalm hsaves)) (fun _ _ => hidle hsaves) hvacuous
  | @tried target bytes span _ saves es hsaves hin hspan hpos h =>
    cases h with
    | stopped h =>
      have hcaller : ∀ thread, ⟨.currentThread, thread⟩ ∈ es → thread = bed.machine.caller :=
        fun thread hmem => Testbed.caller_served hserved (List.mem_append_right _ hmem)
      rw [← List.append_nil es]
      refine h.balanced WritesCode.calm (hcalm hsaves) (List.forall_mem_nil _) (fun region _ => ?_) hcaller fun _ _ => rfl
      rw [List.append_nil]
      exact hidle hsaves
    | @written _ es reads h hverifies =>
      have hreads := hverifies.reads.1
      have hcaller : ∀ thread, ⟨.currentThread, thread⟩ ∈ es → thread = bed.machine.caller :=
        fun thread hmem => Testbed.caller_served hserved (List.mem_append_right _ (List.mem_append_left _ hmem))
      refine h.balanced WritesCode.calm (hcalm hsaves) (List.forall_mem_cons.2 ⟨trivial, hcalm hreads⟩) (fun region _ => ?_) hcaller
        nofun
      rw [List.forall_mem_append, List.forall_mem_cons]
      exact ⟨hidle hsaves, id, hidle hreads⟩

end

/-- The operations that change code, each with the attempt that it makes, with what is its code on the test bed, with whether there
is nothing to change, and with what keeps it clear of the end of the address space. -/
inductive Testbed.ChangesCode (bed : Testbed) :
    {α β : Type} → Engine α → Engine β → (IsCode : Region → Prop) → (Vacuous : Prop) → (Clear : Prop) → Prop where
  | prepare (host : Host) (attempted : Bool) (imageBase : Address) (pageSize : Nat) (config : Config) :
      ChangesCode bed (Image.prepare host attempted imageBase pageSize config)
        (Image.prepare host attempted imageBase pageSize config)
        (fun region => bed.machine.space.region (config.imageBase.getD imageBase) = .done region) False
        (bed.Fits (config.imageBase.getD imageBase))
  | patch (image : Image) (host : Host) (target : Address) (bytes : Bytes) :
      ChangesCode bed (image.patch host target bytes) (image.patch host target bytes) (· = image.code) (bytes.size = 0) image.Bounded
  | guarded (image : Image) (host : Host) (target : Address) (bytes : Bytes) :
      ChangesCode bed (image.guardedPatch host target bytes) (image.guardedPatch host target bytes) (· = image.code)
        (bytes.size = 0) image.Bounded
  | release (guard : Guard) (host : Host) :
      ChangesCode bed (guard.release host) (guard.image.patch host guard.target guard.saved) (· = guard.image.code)
        (guard.saved.size = 0) guard.image.Bounded

/-- An operation that changes code and keeps clear of the end of the address space returns, and every one that returns is balanced:
while the list of threads stays the same, it resumes everybody as often as it suspended them. -/
theorem Testbed.ChangesCode.balances {α β : Type} {operation : Engine α} {attempt : Engine β} {IsCode : Region → Prop}
    {Vacuous Clear : Prop} {world after : World Testbed} {outcome : Outcome Error β}
    (h : world.kernel.ChangesCode operation attempt IsCode Vacuous Clear) (hrun : attempt.run world = (outcome, after)) :
    (world.kernel.machine.space.WellFormed → world.kernel.machine.space.Addressable → Clear → outcome ≠ .crashed) ∧
      (outcome ≠ .crashed →
        Balanced world.kernel.machine.caller IsCode Vacuous outcome.error? (operation.exchanges world.kernel) ∧
        ∀ first second, listings (operation.exchanges world.kernel) = [.ok first, .ok second] →
          second.threads = first.threads → ∀ thread, asks .suspend thread (operation.exchanges world.kernel) =
            asks .resume thread (operation.exchanges world.kernel)) := by
  have hreturns : world.kernel.machine.space.WellFormed → world.kernel.machine.space.Addressable → Clear →
      attempt.wp (fun _ _ => True) (fun _ _ => True) (fun _ => False) world.kernel := by
    intro hwf hs hclear
    cases h with
    | prepare => exact Testbed.wp_prepare_returns hwf hs hclear
    | patch image host target bytes => exact Testbed.wp_attempts_returns (.patch target bytes) hwf hs hclear
    | guarded image host target bytes => exact Testbed.wp_attempts_returns (.guarded target bytes) hwf hs hclear
    | release guard => exact Testbed.wp_attempts_returns (.release guard rfl) hwf hs hclear
  have hbalanced : outcome ≠ .crashed →
      Balanced world.kernel.machine.caller IsCode Vacuous outcome.error? (operation.exchanges world.kernel) := by
    intro hne
    have hserved := Program.served_run hrun hne
    cases h with
    | prepare => exact (yields_prepare.of_run_error? hrun hne).balanced hserved
    | patch => exact (yields_patch.of_run_error? hrun hne).balanced hserved _
    | guarded => exact (yields_guardedPatch.of_run_error? hrun hne).balanced hserved _
    | release guard host =>
      rw [(Image.Attempts.release guard rfl).exchanges_eq world]
      exact (yields_patch.of_run_error? hrun hne).balanced hserved _
  refine ⟨fun hwf hs hclear => Program.ne_crashed_of_wp (hreturns hwf hs hclear) hrun, fun hne => ⟨hbalanced hne, ?_⟩⟩
  exact fun first second => (hbalanced hne).asks_eq

/-! ## A list that changes -/

/-- The tables that lists of threads show: those of a script, one after the other, and from then on the last one. -/
def tablesFrom (threads : List Thread) : List (List Thread) → Nat → List (List Thread)
  | _, 0 => []
  | [], n + 1 => threads :: tablesFrom threads [] n
  | table :: rest, n + 1 => table :: tablesFrom table rest n

/-- The first of them is the one that comes with the next list. -/
theorem tablesFrom_succ (bed : Testbed) (n : Nat) : tablesFrom bed.machine.threads bed.script (n + 1) =
    bed.advance.machine.threads :: tablesFrom bed.advance.machine.threads bed.advance.script n := by
  cases hscript : bed.script <;> simp [tablesFrom, Testbed.advance, hscript]

/-- A quiet test bed lists the threads as its script says. -/
theorem listings_served {bed final : Testbed} {es : List Exchange} (h : Program.Served bed es final) (hquiet : bed.Quiet) :
    listings es = (tablesFrom bed.machine.threads bed.script (listings es).length).map fun table => .ok ⟨table, false⟩ := by
  induction es generalizing bed with
  | nil => cases bed.script <;> rfl
  | cons e es ih =>
    obtain ⟨next, hserve, hrest⟩ := h
    have hnext := Testbed.follows_serve e.request bed
    rw [hserve] at hnext
    have hlater := ih hrest (hquiet.follows hnext)
    obtain ⟨request, reply⟩ := e
    by_cases hthreads : request = .threads
    · subst hthreads
      rw [Testbed.serve_threads, hquiet.injected?_eq_none] at hserve
      cases hserve
      have hcons : listings (⟨.threads, .ok ⟨bed.advance.machine.threads, false⟩⟩ :: es) =
          .ok ⟨bed.advance.machine.threads, false⟩ :: listings es := rfl
      rw [hcons, List.length_cons, tablesFrom_succ, List.map_cons]
      exact congrArg _ hlater
    · have hkept : next.machine.threads = bed.machine.threads ∧ next.script = bed.script := by
        have hafter := Testbed.serve_eq hthreads bed
        rw [hserve] at hafter
        cases hafter
        exact ⟨Machine.threads_serve request bed.machine, rfl⟩
      rw [hkept.1, hkept.2] at hlater
      have hcons : listings (⟨request, reply⟩ :: es) = listings es := List.filterMap_cons_none (by cases request <;> trivial)
      rw [hcons]
      exact hlater

/-- So does a run on a quiet test bed. -/
theorem listings_run {ε α : Type} {x : Program ε α} {world after : World Testbed} {outcome : Outcome ε α}
    (hrun : x.run world = (outcome, after)) (hreturns : outcome ≠ .crashed) (hquiet : world.kernel.Quiet) :
    listings (x.exchanges world.kernel) = (tablesFrom world.kernel.machine.threads world.kernel.script
      (listings (x.exchanges world.kernel)).length).map fun table => .ok ⟨table, false⟩ :=
  listings_served (Program.served_run hrun hreturns) hquiet

/-- A small process whose threads change while it is prepared, and one of which cannot be suspended. -/
def Testbed.restless : Testbed := { machine := { space := .threePages, suspendRefusals := [3] }, script := [[1, 2, 3], [3, 1, 3]] }

/-- The restless process is prepared. Its second thread is gone when it is to be resumed. The third one is listed twice by then, so
it is resumed twice, although it was asked but once to suspend and refused. -/
theorem Testbed.ChangesCode.balances_threePages : ∃ (image : Image) (after : World Testbed) (es : List Exchange),
    (Image.prepare .other false Space.imageBase pageBytes {}).run { kernel := Testbed.restless } = (.done image, after) ∧
      (Image.prepare .other false Space.imageBase pageBytes {}).exchanges Testbed.restless = es ∧
      listings es = [.ok ⟨[1, 2, 3], false⟩, .ok ⟨[3, 1, 3], false⟩] ∧
      (asks .suspend 2 es = 1 ∧ asks .resume 2 es = 0) ∧ (asks .suspend 3 es = 1 ∧ asks .resume 3 es = 2) ∧
      Balanced 1 (fun region => Space.threePages.region Space.imageBase = .done region) False none es := by
  have hunhindered : Testbed.restless.Unhindered .other Space.imageBase {} :=
    { Testbed.unhindered_threePages {} rfl with quiet := ⟨nofun, nofun⟩, undiverted := rfl }
  obtain ⟨image, after, hrun, -⟩ := @Testbed.Unhindered.exists_prepared { kernel := .restless } false Space.imageBase {} _
    hunhindered Space.wellFormed_threePages Space.addressable_threePages Layout.locatedIn_threePages
  have h := Testbed.ChangesCode.balances (.prepare .other false Space.imageBase pageBytes {}) hrun
  have hreturns := h.1 Space.wellFormed_threePages Space.addressable_threePages
    (hunhindered.fits Space.wellFormed_threePages Space.addressable_threePages)
  obtain ⟨hbalanced, -⟩ := h.2 hreturns
  obtain ⟨first, second, hlistings, hsuspends, hresumes⟩ := hbalanced.exists_listings id
  have htables := listings_run hrun hreturns hunhindered.quiet
  rw [hlistings] at htables
  obtain ⟨rfl, rfl⟩ : first = ⟨[1, 2, 3], false⟩ ∧ second = ⟨[3, 1, 3], false⟩ := by
    simpa [tablesFrom, Testbed.restless] using htables
  refine ⟨image, after, _, hrun, rfl, hlistings, ⟨?_, ?_⟩, ⟨?_, ?_⟩, hbalanced⟩
  · rw [hsuspends]
    rfl
  · rw [hresumes]
    rfl
  · rw [hsuspends]
    rfl
  · rw [hresumes]
    rfl

end LivePatch
