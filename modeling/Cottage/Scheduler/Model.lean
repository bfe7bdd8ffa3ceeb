import Cottage.Foundations.Transition

/-!
# The scheduler as a step relation

`scheduler.c` is embedded with one transition for every atomic load,
compare-exchange and store of `scheduler_isr`, `get_next_thread`,
`enqueue_thread` and `scheduler_dequeue_thread`.  A processor is either outside
`scheduler_isr` (running the thread its GS base points at, or idle) or at one
of the program points of `Pc`.  The registers of a processor hold the position
of the running thread inside the scheduler calls it makes itself;
`scheduler_isr` saves them to `cpu_state` and restores them from there, so a
thread picked by two processors really does continue twice.

Calls of `enqueue_thread` are not tied to a processor: they are made by threads
and by interrupt handlers alike, and any number may be in progress.
-/

namespace Cottage.Scheduler

open Transition Function

abbrev Tid := ℕ

abbrev Cpu := ℕ

def maxThreads : ℕ := 512

/-- `waiting_event_count`, which nothing in the kernel ever changes. -/
def waitingEventCount : ℕ := 0

/-- The position of a thread inside the scheduler calls it makes on itself:
`scheduler_dequeue_thread` (from `sem_wait`, or from
`scheduler_dequeue_and_die` when the flag is set) and `scheduler_yield`. -/
inductive Prog
  | code
  | dequeueFlag (die : Bool)
  | dequeueSlot (die : Bool) (i : ℕ)
  | dequeueClear (die : Bool)
  | yieldLock
  | yieldWait
  | yieldRelease
  | yieldDie
  | halted
  deriving DecidableEq, Repr

/-- The program points of `scheduler_isr`.  `cpu` is the record found by
`cpu_get_current`, `number` the processor number `get_next_thread` compares
`cpuid` with. -/
inductive Pc
  | outside
  | getCpu
  | clearIdle (cpu : Cpu)
  | scanStart (cpu : Cpu) (current : Option Tid)
  | scanSlot (cpu : Cpu) (current : Option Tid) (number : Cpu) (index checked : ℕ)
  | scanOwner (cpu : Cpu) (current : Option Tid) (number : Cpu) (index checked : ℕ) (t : Tid)
  | scanLock (cpu : Cpu) (current : Option Tid) (number : Cpu) (index checked : ℕ) (t : Tid)
  | selected (cpu : Cpu) (current new : Option Tid) (index : ℕ)
  | sameThread (cpu : Cpu) (t : Tid) (index : ℕ)
  | saveState (cpu : Cpu) (t : Tid) (new : Option Tid) (index : ℕ)
  | clearCpuid (cpu : Cpu) (t : Tid) (new : Option Tid) (index : ℕ)
  | releaseLock (cpu : Cpu) (t : Tid) (new : Option Tid) (index : ℕ)
  | decWorking (cpu : Cpu) (new : Option Tid) (index : ℕ)
  | goIdle (cpu : Cpu)
  | heartbeatWorking
  | heartbeatStartup
  | incWorking (cpu : Cpu) (t : Tid) (index : ℕ)
  | restoreGs (cpu : Cpu) (t : Tid) (index : ℕ)
  | setCpuid (cpu : Cpu) (t : Tid)
  | resume (t : Tid)
  | panicked
  deriving DecidableEq, Repr

inductive EnqueueCall
  | loadFlag (t : Tid) (bySignal : Bool)
  | storeSignal (t : Tid) (bySignal : Bool)
  | slot (t : Tid) (i : ℕ)
  | storeFlag (t : Tid)
  | wake (i : ℕ)
  | storeStartup
  | returned (result : Bool)
  deriving DecidableEq, Repr

/-- The GS base of a processor points at a thread, or at a processor's record:
the one in `record`. -/
structure State where
  queue : ℕ → Option Tid
  lock : Tid → Bool
  yieldAwait : Tid → Bool
  cpuid : Tid → Option Cpu
  isInQueue : Tid → Bool
  enqueuedBySignal : Tid → Bool
  cpuState : Tid → Prog
  isIdle : Cpu → Bool
  lastRunQueueIndex : Cpu → ℕ
  workingCpus : UInt64
  startupPhaseIgnoreHeartbeat : Bool
  gs : Cpu → Option Tid
  record : Cpu → Cpu
  regs : Cpu → Prog
  pc : Cpu → Pc
  calls : ℕ → Option EnqueueCall

namespace State

def setPc (s : State) (c : Cpu) (p : Pc) : State :=
  { s with pc := update s.pc c p }

def setRegs (s : State) (c : Cpu) (p : Prog) : State :=
  { s with regs := update s.regs c p }

def setCall (s : State) (k : ℕ) (p : EnqueueCall) : State :=
  { s with calls := update s.calls k (some p) }

section Updates

variable (s : State) (c : Cpu) (k : ℕ)

@[simp] lemma setPc_pc (p : Pc) : (s.setPc c p).pc = update s.pc c p := rfl

@[simp] lemma setPc_gs (p : Pc) : (s.setPc c p).gs = s.gs := rfl

@[simp] lemma setPc_lock (p : Pc) : (s.setPc c p).lock = s.lock := rfl

@[simp] lemma setPc_cpuid (p : Pc) : (s.setPc c p).cpuid = s.cpuid := rfl

@[simp] lemma setRegs_pc (p : Prog) : (s.setRegs c p).pc = s.pc := rfl

@[simp] lemma setRegs_gs (p : Prog) : (s.setRegs c p).gs = s.gs := rfl

@[simp] lemma setRegs_lock (p : Prog) : (s.setRegs c p).lock = s.lock := rfl

@[simp] lemma setRegs_cpuid (p : Prog) : (s.setRegs c p).cpuid = s.cpuid := rfl

@[simp] lemma setCall_pc (p : EnqueueCall) : (s.setCall k p).pc = s.pc := rfl

@[simp] lemma setCall_gs (p : EnqueueCall) : (s.setCall k p).gs = s.gs := rfl

@[simp] lemma setCall_lock (p : EnqueueCall) : (s.setCall k p).lock = s.lock := rfl

@[simp] lemma setCall_cpuid (p : EnqueueCall) : (s.setCall k p).cpuid = s.cpuid := rfl

end Updates

end State

/-- `cpu_get_current` reads the word at GS:0.  That word is the processor
number when GS points at a record and the thread's `cpuid` field when it points
at a thread; `none` is the out-of-bounds access `local_cpus[-1]`. -/
def cpuGetCurrent (s : State) (c : Cpu) : Option Cpu :=
  match s.gs c with
  | none => some (s.record c)
  | some t => s.cpuid t

/-- The rest of one iteration of the loop of `get_next_thread` that did not
pick a thread. -/
def scanNext (cpu : Cpu) (current : Option Tid) (number : Cpu) (index checked : ℕ) : Pc :=
  if checked + 1 < maxThreads then
    .scanSlot cpu current number (if index + 1 ≥ maxThreads then 0 else index + 1) (checked + 1)
  else .selected cpu current none 0

/-- Where `scheduler_isr` continues once the old thread has been put away. -/
def dispatch (cpu : Cpu) (new : Option Tid) (index : ℕ) : Pc :=
  match new with
  | none => .goIdle cpu
  | some t => .incWorking cpu t index

def schedulerIsr (s : State) (c : Cpu) : Option State :=
  match s.pc c with
  | .outside | .panicked => none
  | .getCpu => (cpuGetCurrent s c).map fun cpu => s.setPc c (.clearIdle cpu)
  | .clearIdle cpu =>
    some ({ s with isIdle := update s.isIdle cpu false }.setPc c (.scanStart cpu (s.gs c)))
  | .scanStart cpu current =>
    (cpuGetCurrent s c).map fun number =>
      s.setPc c (.scanSlot cpu current number
        (if s.lastRunQueueIndex cpu + 1 ≥ maxThreads then 0
          else s.lastRunQueueIndex cpu + 1) 0)
  | .scanSlot cpu current number index checked =>
    match s.queue index with
    | none => some (s.setPc c (scanNext cpu current number index checked))
    | some t => some (s.setPc c (.scanOwner cpu current number index checked t))
  | .scanOwner cpu current number index checked t =>
    if s.cpuid t = some number then some (s.setPc c (.selected cpu current (some t) index))
    else some (s.setPc c (.scanLock cpu current number index checked t))
  | .scanLock cpu current number index checked t =>
    if s.lock t = false then
      some ({ s with lock := update s.lock t true }.setPc c (.selected cpu current (some t) index))
    else some (s.setPc c (scanNext cpu current number index checked))
  | .selected cpu none new index => some (s.setPc c (dispatch cpu new index))
  | .selected cpu (some t) new index =>
    some ({ s with yieldAwait := update s.yieldAwait t false }.setPc c
      (if new = some t then .sameThread cpu t index else .saveState cpu t new index))
  | .sameThread cpu t index =>
    if s.isInQueue t then some (s.setPc c .outside)
    else some (s.setPc c (.saveState cpu t (some t) index))
  | .saveState cpu t new index =>
    some ({ s with cpuState := update s.cpuState t (s.regs c) }.setPc c
      (.clearCpuid cpu t new index))
  | .clearCpuid cpu t new index =>
    some ({ s with cpuid := update s.cpuid t none }.setPc c (.releaseLock cpu t new index))
  | .releaseLock cpu t new index =>
    some ({ s with lock := update s.lock t false }.setPc c (.decWorking cpu new index))
  | .decWorking cpu new index =>
    some ({ s with workingCpus := s.workingCpus - 1 }.setPc c (dispatch cpu new index))
  | .goIdle cpu =>
    some (({ s with
      gs := update s.gs c none
      record := update s.record c cpu
      lastRunQueueIndex := update s.lastRunQueueIndex cpu 0
      isIdle := update s.isIdle cpu true }.setRegs c .halted).setPc c .heartbeatWorking)
  | .heartbeatWorking =>
    if waitingEventCount = 0 ∧ s.workingCpus = 0 then some (s.setPc c .heartbeatStartup)
    else some (s.setPc c .outside)
  | .heartbeatStartup =>
    if s.startupPhaseIgnoreHeartbeat then some (s.setPc c .outside)
    else some (s.setPc c .panicked)
  | .incWorking cpu t index =>
    some ({ s with workingCpus := s.workingCpus + 1 }.setPc c (.restoreGs cpu t index))
  | .restoreGs cpu t index =>
    some ({ s with
      gs := update s.gs c (some t)
      lastRunQueueIndex := update s.lastRunQueueIndex cpu index }.setPc c
        (.setCpuid cpu t))
  | .setCpuid cpu t =>
    some ({ s with cpuid := update s.cpuid t (some cpu) }.setPc c (.resume t))
  | .resume t => some ((s.setRegs c (s.cpuState t)).setPc c .outside)

def enqueueThread (cpuCount : ℕ) (s : State) (k : ℕ) : Option State :=
  match s.calls k with
  | none | some (.returned _) => none
  | some (.loadFlag t bySignal) =>
    if s.isInQueue t then some (s.setCall k (.returned true))
    else some (s.setCall k (.storeSignal t bySignal))
  | some (.storeSignal t bySignal) =>
    some ({ s with
      enqueuedBySignal := update s.enqueuedBySignal t bySignal }.setCall k (.slot t 0))
  | some (.slot t i) =>
    if i < maxThreads then
      if s.queue i = none then
        some ({ s with queue := update s.queue i (some t) }.setCall k (.storeFlag t))
      else some (s.setCall k (.slot t (i + 1)))
    else some (s.setCall k (.returned false))
  | some (.storeFlag t) =>
    some ({ s with isInQueue := update s.isInQueue t true }.setCall k (.wake 0))
  | some (.wake i) =>
    if i < cpuCount then
      if s.isIdle i then some (s.setCall k .storeStartup)
      else some (s.setCall k (.wake (i + 1)))
    else some (s.setCall k .storeStartup)
  | some .storeStartup =>
    some ({ s with startupPhaseIgnoreHeartbeat := false }.setCall k (.returned true))

/-- Where a thread continues after `scheduler_dequeue_thread`. -/
def afterDequeue (die : Bool) : Prog :=
  if die then .yieldDie else .code

/-- The next atomic step of thread `t`, running on processor `c`, inside the
scheduler calls it makes on itself.  The second `lock_acquire` of
`scheduler_yield` spins, so it has no step while `yield_await` is held. -/
def threadStep (s : State) (c : Cpu) (t : Tid) : Option State :=
  match s.regs c with
  | .code | .halted => none
  | .dequeueFlag die =>
    if s.isInQueue t then some (s.setRegs c (.dequeueSlot die 0))
    else some (s.setRegs c (afterDequeue die))
  | .dequeueSlot die i =>
    if i < maxThreads then
      if s.queue i = some t then
        some ({ s with queue := update s.queue i none }.setRegs c (.dequeueClear die))
      else some (s.setRegs c (.dequeueSlot die (i + 1)))
    else some (s.setRegs c (afterDequeue die))
  | .dequeueClear die =>
    some ({ s with isInQueue := update s.isInQueue t false }.setRegs c (afterDequeue die))
  | .yieldLock =>
    if s.yieldAwait t then none
    else some ({ s with yieldAwait := update s.yieldAwait t true }.setRegs c .yieldWait)
  | .yieldWait =>
    if s.yieldAwait t then none
    else some ({ s with
      yieldAwait := update s.yieldAwait t true }.setRegs c .yieldRelease)
  | .yieldRelease =>
    some ({ s with yieldAwait := update s.yieldAwait t false }.setRegs c .code)
  | .yieldDie =>
    (cpuGetCurrent s c).map fun cpu =>
      { s with
        gs := update s.gs c none
        record := update s.record c cpu }.setRegs c .halted

inductive ThreadCall
  | dequeue
  | dequeueAndDie
  | yield
  deriving DecidableEq, Repr

def ThreadCall.entry : ThreadCall → Prog
  | .dequeue => .dequeueFlag false
  | .dequeueAndDie => .dequeueFlag true
  | .yield => .yieldLock

inductive Event
  | interrupt (c : Cpu)
  | isr (c : Cpu)
  | call (c : Cpu) (request : ThreadCall)
  | thread (c : Cpu)
  | enqueueCall (k : ℕ) (t : Tid) (bySignal : Bool)
  | enqueue (k : ℕ)
  deriving DecidableEq, Repr

def step (cpuCount : ℕ) (s : State) : Event → Option State
  | .interrupt c =>
    if c < cpuCount ∧ s.pc c = .outside then some (s.setPc c .getCpu) else none
  | .isr c => if c < cpuCount then schedulerIsr s c else none
  | .call c request =>
    if c < cpuCount ∧ s.pc c = .outside ∧ (s.gs c).isSome ∧ s.regs c = .code then
      some (s.setRegs c request.entry)
    else none
  | .thread c =>
    if c < cpuCount ∧ s.pc c = .outside then (s.gs c).bind (threadStep s c) else none
  | .enqueueCall k t bySignal =>
    if s.calls k = none then some (s.setCall k (.loadFlag t bySignal)) else none
  | .enqueue k => enqueueThread cpuCount s k

/-- All thread locks are free, no thread is assigned to a processor, no
processor is inside the scheduler or running a thread, and no call is in
progress.  The run queue and the flags are arbitrary. -/
def Initial (s : State) : Prop :=
  (∀ t, s.lock t = false) ∧ (∀ t, s.cpuid t = none) ∧
    (∀ c, s.pc c = .outside ∧ s.gs c = none ∧ s.record c = c) ∧ ∀ k, s.calls k = none

def system (cpuCount : ℕ) : System State Event where
  init := Initial
  step := step cpuCount

end Cottage.Scheduler
