import LivePatch.Proofs.Session.Keeping
import LivePatch.Session.Trapped

/-!
# Rights to threads

The kernel hands out rights to threads in two ways: with a list of the threads comes a right to each of them and the array that they
stand in, and with the handle of the calling thread comes one more. Whatever the kernel answers, a sweep gives all of them back, each
exactly once, and nothing that it was not given. `Sweeping` lists the traps of a sweep, and `Tended` says of the traps of a whole
session that the threads are left alone but in sweeps.
-/

namespace LivePatch.Mach

/-! ## What the kernel hands out -/

/-- What the kernel is going to hand out: lists of threads, or none, or the refusal to give one; and handles of the calling thread. -/
structure Handouts where
  lists : List (Except KernelCode (Option (List Thread)))
  handles : List Thread

/-- The next list of threads. -/
def Handouts.list (handouts : Handouts) : Except KernelCode (Option (List Thread)) := handouts.lists.headD (.ok (some [1]))

/-- The next handle of the calling thread. -/
def Handouts.handle (handouts : Handouts) : Thread := handouts.handles.headD 1

/-- What is handed out behind a refused list. -/
def Handouts.behindList (handouts : Handouts) : Handouts := { handouts with lists := handouts.lists.tail }

/-- What is handed out behind a list and a handle of the calling thread. -/
def Handouts.behindBoth (handouts : Handouts) : Handouts := ⟨handouts.lists.tail, handouts.handles.tail⟩

/-- What a process is going to be handed out. -/
def Process.handouts (process : Process) : Handouts := ⟨process.script.listThreads, process.script.ownThread⟩

/-! ## What is made of it -/

/-- The trap that asks a thread for something. -/
def Trap.ask : ThreadRequest → Thread → Trap
  | .suspend => .suspend
  | .resume => .resume

/-- The traps that give back a list: the right to each thread in turn, and then the array with four bytes for each. -/
def givingBack (threads : List Thread) : List Trap :=
  threads.map .releaseHandle ++ [.deallocateList ownTask (4 * threads.length)]

/-- The traps of a sweep. If it gets no list it does nothing. Else it takes the handle of the caller, gives that back at once, and
asks the other threads; and a list that is there is given back when all were asked. -/
inductive Sweeping (kind : ThreadRequest) : Handouts → List Trap → Handouts → Prop where
  | refused {task : Handle} {handouts : Handouts} {code : KernelCode} (hlist : handouts.list = .error code) :
      Sweeping kind handouts [.listThreads task] handouts.behindList
  | empty {task : Handle} {handouts : Handouts} (hlist : handouts.list = .ok none) :
      Sweeping kind handouts [.listThreads task, .ownThread, .releaseHandle handouts.handle] handouts.behindBoth
  | listed {task : Handle} {handouts : Handouts} {threads : List Thread} (hlist : handouts.list = .ok (some threads)) :
      Sweeping kind handouts
        (.listThreads task :: .ownThread :: .releaseHandle handouts.handle ::
          ((threads.filter (· ≠ handouts.handle)).map (.ask kind) ++ givingBack threads))
        handouts.behindBoth

/-- A trap that neither hands out rights to threads, nor gives one back, nor asks a thread for something. -/
def Trap.Threadless : Trap → Prop
  | .listThreads _ | .ownThread | .releaseHandle _ | .deallocateList .. | .suspend _ | .resume _ => False
  | _ => True

/-- Traps that have to do with threads in whole sweeps alone. -/
inductive Tended : Handouts → List Trap → Handouts → Prop where
  | nil (handouts : Handouts) : Tended handouts [] handouts
  | other {trap : Trap} {traps : List Trap} {handouts rest : Handouts} (htrap : trap.Threadless)
      (hrest : Tended handouts traps rest) : Tended handouts (trap :: traps) rest
  | sweep {kind : ThreadRequest} {traps traps' : List Trap} {handouts between rest : Handouts}
      (hsweep : Sweeping kind handouts traps between) (hrest : Tended between traps' rest) :
      Tended handouts (traps ++ traps') rest

theorem Tended.append {traps traps' : List Trap} {handouts between rest : Handouts} (h : Tended handouts traps between)
    (h' : Tended between traps' rest) : Tended handouts (traps ++ traps') rest := by
  induction h with
  | nil => exact h'
  | other htrap hrest ih => exact .other htrap (ih h')
  | sweep hsweep hrest ih =>
    rw [List.append_assoc]
    exact .sweep hsweep (ih h')

namespace Process

variable {process process' process'' : Process} {trap : Trap} {traps traps' : List Trap}

/-- The second process is the first one after these traps, which handed out nothing, and holds as many lists. -/
structure Makes (process : Process) (traps : List Trap) (process' : Process) : Prop where
  trace : process'.trace.toList = process.trace.toList ++ traps
  handouts : process'.handouts = process.handouts
  heldLists : process'.heldLists = process.heldLists

theorem Makes.nil (htrace : process'.trace = process.trace) (hhandouts : process'.handouts = process.handouts)
    (hheld : process'.heldLists = process.heldLists) : process.Makes [] process' := ⟨by simp [htrace], hhandouts, hheld⟩

theorem Makes.one (htrace : process'.trace = process.trace.push trap) (hhandouts : process'.handouts = process.handouts)
    (hheld : process'.heldLists = process.heldLists) : process.Makes [trap] process' := ⟨by simp [htrace], hhandouts, hheld⟩

theorem Makes.trans (h : process.Makes traps process') (h' : process'.Makes traps' process'') :
    process.Makes (traps ++ traps') process'' :=
  ⟨by rw [h'.trace, h.trace, List.append_assoc], h'.handouts.trans h.handouts, h'.heldLists.trans h.heldLists⟩

/-- The second process is the first one after the traps of a sweep, and holds as many lists. -/
def Swept (kind : ThreadRequest) (process process' : Process) : Prop :=
  ∃ traps, process'.trace.toList = process.trace.toList ++ traps ∧ Sweeping kind process.handouts traps process'.handouts ∧
    process'.heldLists = process.heldLists

/-- The second process is the first one after traps that have to do with threads in whole sweeps alone, and holds as many lists. -/
def Tends (process process' : Process) : Prop :=
  ∃ traps, process'.trace.toList = process.trace.toList ++ traps ∧ Tended process.handouts traps process'.handouts ∧
    process'.heldLists = process.heldLists

theorem Tends.trans (h : process.Tends process') (h' : process'.Tends process'') : process.Tends process'' := by
  obtain ⟨traps, htrace, htended, hheld⟩ := h
  obtain ⟨traps', htrace', htended', hheld'⟩ := h'
  exact ⟨traps ++ traps', by rw [htrace', htrace, List.append_assoc], htended.append htended', hheld'.trans hheld⟩

theorem Makes.tends (h : process.Makes traps process') (htraps : ∀ trap ∈ traps, trap.Threadless) : process.Tends process' := by
  refine ⟨traps, h.trace, ?_, h.heldLists⟩
  rw [h.handouts]
  clear h
  induction traps with
  | nil => exact .nil _
  | cons trap traps ih =>
    rw [List.forall_mem_cons] at htraps
    exact .other htraps.1 (ih htraps.2)

theorem Tends.refl (process : Process) : process.Tends process := (Makes.nil rfl rfl rfl).tends (List.forall_mem_nil _)

/-! ## Requests -/

/-- A request that is not about threads makes no trap that is. -/
theorem tends_serve (request : Request) (process : Process) (h : ¬ request.OfThreads) :
    process.Tends (Kernel.serve request process).2 := by
  have hone : ∀ {process process' : Process} {trap : Trap}, process.Makes [trap] process' → trap.Threadless →
      process.Tends process' := fun hmakes htrap => hmakes.tends (List.forall_mem_singleton.2 htrap)
  cases request with
  | region | deallocate | protect | copy => exact hone (.one rfl rfl rfl) trivial
  | allocate placement => cases placement <;> exact hone (.one rfl rfl rfl) trivial
  | write a bytes =>
    change process.Tends (process.write a bytes).2
    rw [write]
    split
    · exact (Makes.nil rfl rfl rfl).tends (List.forall_mem_nil _)
    · exact .refl process
  | read a n =>
    change process.Tends (process.read a n).2
    rw [read]
    split <;> exact .refl process
  | flush a n =>
    have htell : ∀ (process : Process) (trap : Trap), process.Makes [trap] (process.tell trap) := fun _ _ => .one rfl rfl rfl
    exact (hone (htell process (.flushData a n)) trivial).trans (hone (htell _ (.invalidateInstructions a n)) trivial)
  | threads | currentThread | release | suspend | resume => exact absurd trivial h

/-! ## Sweeps -/

variable {ε : Type} {kind : ThreadRequest}

theorem run_ask (kind : ThreadRequest) (thread : Thread) (world : World Process) :
    ∃ answer asked, (kind.ask thread : Program ε (Except KernelCode Unit)).run world = (.done answer, { world with kernel := asked }) ∧
      world.kernel.Makes [.ask kind thread] asked := by
  cases kind with
  | suspend => exact ⟨_, (world.kernel.suspend thread).2, rfl, .one rfl rfl rfl⟩
  | resume => exact ⟨_, (world.kernel.resume thread).2, rfl, .one rfl rfl rfl⟩

/-- Asking threads makes the trap for each of them, in their order. -/
theorem run_askAll (kind : ThreadRequest) (threads : List Thread) (report : SweepReport) (world : World Process) :
    ∃ report' asked, (askAll kind threads report : Program ε SweepReport).run world = (.done report', { world with kernel := asked }) ∧
      world.kernel.Makes (threads.map (.ask kind)) asked := by
  induction threads generalizing report world with
  | nil => exact ⟨report, world.kernel, rfl, .nil rfl rfl rfl⟩
  | cons thread rest ih =>
    obtain ⟨answer, first, hfirst, hone⟩ := @run_ask ε kind thread world
    obtain ⟨report', asked, hrun, hmakes⟩ := ih (report.record thread answer) { world with kernel := first }
    refine ⟨report', asked, ?_, hone.trans hmakes⟩
    rw [askAll, Program.run_bind, hfirst]
    exact hrun

theorem makes_releaseHandle (process : Process) (handle : Handle) :
    process.Makes [.releaseHandle handle] (process.releaseHandle handle) := .one rfl rfl rfl

/-- Giving handles back makes the trap for each of them, in their order. -/
theorem makes_releaseHandles (threads : List Thread) (process : Process) :
    process.Makes (threads.map .releaseHandle) (threads.foldl releaseHandle process) := by
  induction threads generalizing process with
  | nil => exact .nil rfl rfl rfl
  | cons thread rest ih => exact (process.makes_releaseHandle thread).trans (ih (process.releaseHandle thread))

/-- Giving a list back makes the traps for that, and one list less is held. -/
theorem makes_release (threads : List Thread) (process : Process) :
    ∃ released, process.Makes (givingBack threads) released ∧
      process.release ⟨threads, true⟩ = { released with heldLists := process.heldLists - 1 } := by
  have harray : ∀ process : Process,
      process.Makes [.deallocateList ownTask (4 * threads.length)] (process.releaseArray threads.length) :=
    fun _ => .one rfl rfl rfl
  have hreleased := (makes_releaseHandles threads process).trans (harray _)
  refine ⟨_, hreleased, ?_⟩
  rw [← hreleased.heldLists]
  rfl

/-- The trap for a list is made, and the list is held if there is one. -/
theorem listThreads_eq (process : Process) : ∃ listed : Process,
    listed.trace.toList = process.trace.toList ++ [.listThreads process.task] ∧ listed.handouts = process.handouts.behindList ∧
      match process.handouts.list with
      | .error code => process.listThreads = (.error code, listed) ∧ listed.heldLists = process.heldLists
      | .ok none => process.listThreads = (.ok ⟨[], false⟩, listed) ∧ listed.heldLists = process.heldLists
      | .ok (some threads) => process.listThreads = (.ok ⟨threads, true⟩, listed) ∧ listed.heldLists = process.heldLists + 1 := by
  have hask : process.ask (.listThreads process.task) .listThreads (some [1]) =
      (process.handouts.list, (process.ask (.listThreads process.task) .listThreads (some [1])).2) := rfl
  rw [listThreads, hask]
  rcases process.handouts.list with code | _ | threads
  · exact ⟨_, Array.toList_push, rfl, rfl, rfl⟩
  · exact ⟨_, Array.toList_push, rfl, rfl, rfl⟩
  · exact ⟨_, Array.toList_push, rfl, rfl, rfl⟩

/-- A sweep that gets its list takes the handle of the caller, gives it back, asks the others and releases the list. -/
theorem run_sweep (kind : ThreadRequest) (report : SweepReport) {list : ThreadList} {world : World Process} {listed : Process}
    (htrace : listed.trace.toList = world.kernel.trace.toList ++ [.listThreads world.kernel.task])
    (hhandouts : listed.handouts = world.kernel.handouts.behindList) (hlist : world.kernel.listThreads = (.ok list, listed)) :
    ∃ asked : Process,
      ((sweep kind report : Program ε (Except KernelCode SweepReport)).run world).2.kernel = asked.release list ∧
        asked.trace.toList = world.kernel.trace.toList ++ (.listThreads world.kernel.task :: .ownThread ::
          .releaseHandle world.kernel.handouts.handle ::
            (list.threads.filter (· ≠ world.kernel.handouts.handle)).map (.ask kind)) ∧
        asked.handouts = world.kernel.handouts.behindBoth ∧ asked.heldLists = listed.heldLists := by
  have hserve : Kernel.serve .threads world.kernel = (some (.ok list), listed) := by
    change reply world.kernel.listThreads = _
    rw [hlist]
    rfl
  have hhandle : listed.handouts.handle = world.kernel.handouts.handle := by
    rw [hhandouts]
    rfl
  have hown : listed.askOwnThread.2.trace.toList = listed.trace.toList ++ [.ownThread] := Array.toList_push
  obtain ⟨report', asked, hrun, hmakes⟩ := @run_askAll ε kind (list.threads.filter (· ≠ listed.handouts.handle)) report
    { world with kernel := listed.currentThread.2 }
  have hafter := (makes_releaseHandle listed.askOwnThread.2 listed.handouts.handle).trans hmakes
  refine ⟨asked, ?_, ?_, ?_, hafter.heldLists⟩
  · rw [sweep, Program.run_bind, Program.request, Program.run, hserve]
    change ((askAll kind (list.threads.filter (· ≠ listed.handouts.handle)) report >>= fun report =>
      Program.request (.release list) >>= fun _ => pure (.ok report) : Program ε (Except KernelCode SweepReport)).run
        { world with kernel := listed.currentThread.2 }).2.kernel = _
    rw [Program.run_bind, hrun]
    rfl
  · rw [hafter.trace, hown, htrace, hhandle]
    simp only [List.append_assoc, List.cons_append, List.nil_append]
  · rw [hafter.handouts]
    change { listed.handouts with handles := listed.handouts.handles.tail } = _
    rw [hhandouts]
    rfl

/-- The traps of a sweep are in order, it makes no others, and no list stays held. -/
theorem leads_sweep (kind : ThreadRequest) (report : SweepReport) :
    (sweep kind report : Program ε (Except KernelCode SweepReport)).Leads (Swept kind) := by
  intro world
  obtain ⟨listed, htrace, hhandouts, hlisted⟩ := world.kernel.listThreads_eq
  rcases hlist : world.kernel.handouts.list with code | _ | threads
  · rw [hlist] at hlisted
    have hserve : Kernel.serve .threads world.kernel = (some (.error code), listed) := by
      change reply world.kernel.listThreads = _
      rw [hlisted.1]
      rfl
    rw [sweep, Program.run_bind, Program.request, Program.run, hserve]
    exact ⟨_, htrace, hhandouts ▸ .refused hlist, hlisted.2⟩
  · rw [hlist] at hlisted
    obtain ⟨asked, hrun, hasked, hboth, hsame⟩ := @run_sweep ε kind report _ _ _ htrace hhandouts hlisted.1
    rw [hrun]
    exact ⟨_, hasked, hboth ▸ Sweeping.empty hlist, hsame.trans hlisted.2⟩
  · rw [hlist] at hlisted
    obtain ⟨asked, hrun, hasked, hboth, hsame⟩ := @run_sweep ε kind report _ _ _ htrace hhandouts hlisted.1
    obtain ⟨released, hreleased, hrelease⟩ := asked.makes_release threads
    rw [hrun, hrelease]
    have htraps := hreleased.trace.trans (congrArg (· ++ givingBack threads) hasked)
    rw [List.append_assoc] at htraps
    refine ⟨_, htraps, (hreleased.handouts.trans hboth) ▸ Sweeping.listed hlist, ?_⟩
    change asked.heldLists - 1 = _
    rw [hsame, hlisted.2, Nat.add_sub_cancel]

/-- Over every program of the engine the threads are tended. -/
theorem passage_tends : Passage Tends where
  refl := .refl
  trans := .trans
  request := tends_serve
  sweep := fun kind report world => by
    obtain ⟨traps, htrace, hsweep, hheld⟩ := leads_sweep kind report world
    exact ⟨traps ++ [], by rw [List.append_nil, htrace], .sweep hsweep (.nil _), hheld⟩

end Process

end LivePatch.Mach

namespace LivePatch.Session.State

open LivePatch.Mach (Process)

variable {state : State Process}

/-- Obtaining the handle of the task has nothing to do with threads, and neither has putting it away. -/
theorem tends_prepareAnew {start : Process} (hstart : start.Tends state.world.kernel) (config : Config) :
    start.Tends (state.prepareAnew config).2.world.kernel := by
  have hmakes : state.world.kernel.Makes [.taskForPid] state.world.kernel.obtainTask.2 := .one rfl rfl rfl
  have hobtained := hstart.trans (hmakes.tends (List.forall_mem_singleton.2 trivial))
  rw [prepareAnew]
  rcases hresult : state.world.kernel.obtainTask with ⟨code | task, obtained⟩
  · rw [hresult] at hobtained
    exact hobtained
  · rw [hresult] at hobtained
    have hprepared := @leads_prepare Process
      (withTask { state with world := { state.world with kernel := obtained } } task) _ _ start Process.passage_tends hobtained config
    exact hprepared

/-- What a command does to run an operation has to do with threads in whole sweeps alone. -/
theorem tends_takeOnProcess {start : Process} (hstart : start.Tends state.world.kernel) (operation : Operation) :
    start.Tends (state.takeOnProcess (.operate operation)).2.world.kernel := by
  cases operation with
  | prepare config => exact tends_prepareAnew hstart config
  | locate | build | toCopies | toCode | patch | guard | release | sweep =>
    exact leads_operate Process.passage_tends hstart _

theorem tends_runOnProcess {start : Process} (operations : List Operation) (hstart : start.Tends state.world.kernel) :
    start.Tends (state.runOnProcess (operations.map .operate)).2.world.kernel := by
  induction operations generalizing state with
  | nil => exact hstart
  | cons operation rest ih =>
    have htaken := tends_takeOnProcess hstart operation
    rw [List.map_cons, runOnProcess]
    rcases hanswer : state.takeOnProcess (.operate operation) with ⟨answer, after⟩
    rw [hanswer] at htaken
    dsimp only
    split
    · exact htaken
    · exact ih htaken

/-- Rights to threads are given back, each exactly once, whatever the kernel answers. The traps of a single sweep are as `Sweeping` says
and there are no others; and operations, one after the other, also if they crash in the end, make no traps that hand out rights to
threads, give them back or ask a thread for something but in such sweeps. -/
theorem threads_tended :
    (∀ (ε : Type) (kind : ThreadRequest) (report : SweepReport),
      (sweep kind report : Program ε (Except KernelCode SweepReport)).Leads (Process.Swept kind)) ∧
    ∀ (state : State Process) (operations : List Operation),
      state.world.kernel.Tends (state.runOnProcess (operations.map .operate)).2.world.kernel :=
  ⟨fun _ => Process.leads_sweep, fun state operations => tends_runOnProcess operations (.refl state.world.kernel)⟩

/-- A thread that is listed twice is asked twice and its right is given back twice, and that of the caller is given back as well. -/
example : ((sweep .suspend {} : Program Error _).run
      ({ kernel := { script := { listThreads := [.ok (some [3, 1, 3])] } } } : World Process)).2.kernel.trace.toList =
    [.listThreads 0, .ownThread, .releaseHandle 1, .suspend 3, .suspend 3, .releaseHandle 3, .releaseHandle 1, .releaseHandle 3,
      .deallocateList Mach.ownTask 12] := by decide

end LivePatch.Session.State
