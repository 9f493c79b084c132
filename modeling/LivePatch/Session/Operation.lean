import LivePatch.Engine.World
import LivePatch.Session.Answer
import LivePatch.Session.Registry

/-!
# Operations

The steps that every kernel serves: single kernel requests, and the operations of the engine. What the engine makes is kept,
so that later steps can use it: layouts, shadow images and images by number, guards and sweep reports by name.
-/

namespace LivePatch.Session

open Program (request require)

/-- Where the layout of a new shadow image comes from. -/
inductive LayoutSource where
  /-- The layout that was located with this number. -/
  | numbered (index : Nat)
  /-- The layout that was located last. -/
  | latest
  /-- A layout of choice. -/
  | given (layout : Layout)
  deriving DecidableEq, Repr

/-- The shadow image whose addresses are asked for. -/
inductive ShadowSource where
  /-- The shadow image that was built with this number. -/
  | built (index : Nat)
  /-- The shadow image of the image with this number. -/
  | ofImage (index : Nat)
  deriving DecidableEq, Repr

/-- An operation of the engine. -/
inductive Operation where
  | locate (base : Address)
  | build (source : LayoutSource)
  /-- Where the copies of code addresses are. -/
  | toCopies (source : ShadowSource) (addresses : List Address)
  /-- Which code addresses the addresses of a shadow image copy. -/
  | toCode (source : ShadowSource) (addresses : List Address)
  | prepare (config : Config)
  | patch (image : Nat) (target : Address) (bytes : Bytes)
  | guard (image : Nat) (name : String) (target : Address) (bytes : Bytes)
  /-- Gives a guard up, which puts its bytes back. -/
  | release (name : String)
  | sweep (kind : ThreadRequest) (report : String)
  deriving DecidableEq, Repr

/-- The world of a session and what its steps so far left behind. -/
structure State (κ : Type) where
  world : World κ
  /-- Whose code is changed. -/
  host : Host := .other
  /-- Whether the process was to be prepared before. -/
  attempted : Bool := false
  layouts : Array Layout := #[]
  shadows : Array Shadow := #[]
  images : Array Image := #[]
  guards : Registry Guard := []
  reports : Registry SweepReport := []

/-- Answers with a value, or with the code of a failure. -/
def Answer.ofResult {α : Type} (answer : α → Answer) : Except KernelCode α → Answer
  | .ok value => answer value
  | .error code => .kernelFailure code

/-- Makes a single request and answers with its reply. A buffer for reading is there before the request is made, and a
thread list is given back. -/
def single : Request → Program Empty Answer
  | .region address => Answer.ofResult .region <$> request (.region address)
  | .allocate placement size => Answer.ofResult .address <$> request (.allocate placement size)
  | .deallocate address size => Answer.ofResult (fun _ => .nothing) <$> request (.deallocate address size)
  | .protect address size protection =>
    Answer.ofResult (fun _ => .nothing) <$> request (.protect address size protection)
  | .copy source size destination =>
    Answer.ofResult (fun _ => .nothing) <$> request (.copy source size destination)
  | .write address bytes => Answer.ofResult (fun _ => .nothing) <$> request (.write address bytes)
  | .read address len => do
    let len ← require (if len ≤ Bytes.maxSize then some len else none)
    Answer.ofResult .bytes <$> request (.read address len)
  | .threads => do
    match ← request .threads with
    | .error code => pure (.kernelFailure code)
    | .ok list => do
      request (.release list)
      pure (.threads list.threads)
  | .currentThread => Answer.thread <$> request .currentThread
  | .release list => (fun _ => .nothing) <$> request (.release list)
  | .suspend thread => Answer.ofResult (fun _ => .nothing) <$> request (.suspend thread)
  | .resume thread => Answer.ofResult (fun _ => .nothing) <$> request (.resume thread)
  | .flush address size => (fun _ => .nothing) <$> request (.flush address size)

namespace State

variable {κ : Type} [Kernel κ]

/-- Runs a program of the engine, and answers with its value after that was kept. -/
def perform {α : Type} (state : State κ) (x : Engine α) (keep : α → State κ → Answer × State κ) :
    Answer × State κ :=
  match x.run state.world with
  | (.done value, world) => keep value { state with world := world }
  | (.failed error, world) => (.failure error, { state with world := world })
  | (.crashed, world) => (.crashed, { state with world := world })

/-- Makes a single request. -/
def call (state : State κ) (request : Request) : Answer × State κ :=
  match (single request).run state.world with
  | (.done answer, world) => (answer, { state with world := world })
  | (.crashed, world) => (.crashed, { state with world := world })

/-- Makes a sweep into the report under the name, a new one if the name is new. -/
def sweepInto (state : State κ) (name : String) (kind : ThreadRequest) : Answer × State κ :=
  let report := (state.reports.get? name).getD {}
  state.perform (sweep kind report) fun result state =>
    match result with
    | .ok report => (.sweep report none, { state with reports := state.reports.put name report })
    | .error code => (.sweep report (some code), { state with reports := state.reports.put name report })

/-- The layout that a source names. -/
def layout? (state : State κ) : LayoutSource → Option Layout
  | .numbered index => state.layouts[index]?
  | .latest => state.layouts.back?
  | .given layout => some layout

/-- The shadow image that a source names. -/
def shadow? (state : State κ) : ShadowSource → Option Shadow
  | .built index => state.shadows[index]?
  | .ofImage index => state.images[index]?.map (·.shadow)

/-- Answers with the counterparts of all addresses. -/
def counterparts (shadow : Option Shadow) (counterpart : Shadow → Address → Option (Option Address))
    (addresses : List Address) : Answer :=
  match shadow with
  | none => .absent
  | some shadow =>
    match addresses.mapM (counterpart shadow) with
    | none => .crashed
    | some results => .addresses results

/-- Gives the guard under the name up. -/
def release (state : State κ) (name : String) (answer : Answer) : Answer × State κ :=
  match state.guards.get? name with
  | none => (.absent, state)
  | some guard =>
    { state with guards := state.guards.erase name }.perform (guard.release state.host) fun _ state => (answer, state)

/-- Keeps a new guard under a name. A guard that had the name is given up for it. -/
def keepGuard (state : State κ) (name : String) (guard : Guard) : Answer × State κ :=
  let answer := Answer.guard guard.target guard.saved
  let kept := { state with guards := state.guards.put name guard }
  match state.guards.get? name with
  | none => (answer, kept)
  | some old => kept.perform (old.release state.host) fun _ state => (answer, state)

/-- Prepares the process. -/
def prepare (state : State κ) (config : Config) : Answer × State κ :=
  let kernel := state.world.kernel
  let program := Image.prepare state.host state.attempted (Kernel.imageBase kernel) (Kernel.pageSize kernel) config
  { state with attempted := true }.perform program fun image state =>
    (.image image, { state with images := state.images.push image })

/-- Runs an operation of the engine. -/
def operate (state : State κ) : Operation → Answer × State κ
  | .locate base => state.perform (locate base) fun layout state =>
    (.layout layout, { state with layouts := state.layouts.push layout })
  | .build source =>
    match state.layout? source with
    | none => (.absent, state)
    | some layout => state.perform (buildShadow layout) fun shadow state =>
      (.shadow shadow, { state with shadows := state.shadows.push shadow })
  | .toCopies source addresses => (counterparts (state.shadow? source) Shadow.toCopy addresses, state)
  | .toCode source addresses => (counterparts (state.shadow? source) Shadow.toCode addresses, state)
  | .prepare config => state.prepare config
  | .patch image target bytes =>
    match state.images[image]? with
    | none => (.absent, state)
    | some image => state.perform (image.patch state.host target bytes) fun _ state => (.nothing, state)
  | .guard image name target bytes =>
    match state.images[image]? with
    | none => (.absent, state)
    | some image =>
      state.perform (image.guardedPatch state.host target bytes) fun guard state => state.keepGuard name guard
  | .release name => state.release name .nothing
  | .sweep kind report => state.sweepInto report kind

end State

end LivePatch.Session
