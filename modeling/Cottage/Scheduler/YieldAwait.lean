import Cottage.Lock.Spinlock

/-!
# Yielding with the checks of the debug build

One thread on one processor calls `scheduler_yield(true)` again and again, and
the scheduler interrupt comes in between, from the timer or from the IPI that
the thread sends to its own processor.  The lock is `yield_await` with the
owner that the debug build records, and the checks of `lock_acquire` and
`lock_release` end the run with a panic.

The thread takes the lock, sends the IPI and takes the lock again, so that it
waits for the interrupt to release it.  But the interrupt handler releases the
lock whenever it runs, and it is only held when the handler runs for the IPI.
-/

namespace Cottage.YieldAwait

open Transition

inductive Panic
  | recursiveAcquisition
  | deadlock
  | notHeld
  | differentCpu
  deriving DecidableEq, Repr

/-- `lock_t` of the debug build; without an owner the field is -1. -/
structure Lock where
  isLocked : Bool
  ownerCpu : Option ℕ
  deriving DecidableEq, Repr

def Lock.free : Lock where
  isLocked := false
  ownerCpu := none

/-- `LOCK_DEADLOCK_THRESHOLD` -/
def lockDeadlockThreshold : ℕ := 10000000

def getCurrentCpuSafe (interrupts : Bool) (cpu : ℕ) : Option ℕ :=
  if interrupts then none else some cpu

/-- A round of the loop of `lock_acquire`, with the check before the loop in
front of the first one; the lock if it has been acquired. -/
def lockAcquire (myCpu : Option ℕ) (i : ℕ) (lock : Lock) : Except Panic (Option Lock) :=
  if i = 0 ∧ lock.ownerCpu = myCpu ∧ myCpu ≠ none then .error .recursiveAcquisition
  else if i ≥ lockDeadlockThreshold then .error .deadlock
  else if lock.isLocked then .ok none
  else .ok (some ⟨true, myCpu⟩)

def lockRelease (myCpu : Option ℕ) (lock : Lock) : Except Panic Lock :=
  if !lock.isLocked then .error .notHeld
  else if myCpu ≠ none ∧ lock.ownerCpu ≠ myCpu then .error .differentCpu
  else .ok .free

/-! ### The two functions as sequences of accesses -/

def Panic.spinlock : Panic → Spinlock.Panic
  | .recursiveAcquisition => .recursiveAcquisition
  | .deadlock => .deadlock
  | .notHeld => .notHeld
  | .differentCpu => .differentCpu

def Lock.spinlock (lock : Lock) (acquireCount : UInt64) : Spinlock.Lock :=
  ⟨lock.isLocked, lock.ownerCpu, acquireCount⟩

section

variable (e : Spinlock.Env) (count : UInt64) (myCpu : Option ℕ) (lock : Lock)

lemma execAlone_spin (i : ℕ) (hcheck : ¬ (i = 0 ∧ lock.ownerCpu = myCpu ∧ myCpu ≠ none)) :
    ∃ n, Spinlock.execAlone e n (lock.spinlock count) (.spin myCpu i) =
      match lockAcquire myCpu i lock with
      | .error p => .error p.spinlock
      | .ok none => .ok (lock.spinlock count, .spin myCpu (i + 1))
      | .ok (some lock) => .ok (lock.spinlock (count + 1), .code) := by
  rw [lockAcquire, if_neg hcheck]
  split_ifs with hi hlocked
  · exact ⟨1, Spinlock.execAlone_of_error 0 (if_neg (Nat.not_lt.mpr hi))⟩
  · refine ⟨1, Spinlock.execAlone_succ 0 ?_⟩
    exact (if_pos (Nat.not_le.mp hi)).trans (if_pos hlocked)
  · have hexec : Spinlock.exec e (lock.spinlock count) (.spin myCpu i) =
        .ok (Lock.spinlock ⟨true, lock.ownerCpu⟩ count, .spinOwner myCpu) :=
      (if_pos (Nat.not_le.mp hi)).trans (if_neg hlocked)
    exact ⟨5, (Spinlock.execAlone_succ 4 hexec).trans rfl⟩

/-- A round is what the accesses of `lock_acquire` do when nothing comes
between them. -/
lemma execAlone_lockAcquire (i : ℕ) :
    ∃ n, Spinlock.execAlone e n (lock.spinlock count)
        (if i = 0 then .recursion myCpu else .spin myCpu i) =
      match lockAcquire myCpu i lock with
      | .error p => .error p.spinlock
      | .ok none => .ok (lock.spinlock count, .spin myCpu (i + 1))
      | .ok (some lock) => .ok (lock.spinlock (count + 1), .code) := by
  by_cases hcheck : i = 0 ∧ lock.ownerCpu = myCpu ∧ myCpu ≠ none
  · rw [lockAcquire, if_pos hcheck, if_pos hcheck.1]
    exact ⟨1, Spinlock.execAlone_of_error 0 (if_pos hcheck.2)⟩
  · obtain ⟨n, hspin⟩ := execAlone_spin e count myCpu lock i hcheck
    rw [← hspin]
    split_ifs with hfirst
    · subst hfirst
      exact ⟨n + 1, Spinlock.execAlone_succ n (if_neg fun h => hcheck ⟨rfl, h⟩)⟩
    · exact ⟨n, rfl⟩

/-- `lock_release` is what its accesses do when nothing comes between them. -/
lemma execAlone_lockRelease :
    Spinlock.execAlone e 4 (lock.spinlock count) (.releaseCheck myCpu) =
      match lockRelease myCpu lock with
      | .error p => .error p.spinlock
      | .ok lock => .ok (lock.spinlock count, .code) := by
  rw [lockRelease]
  cases hlocked : lock.isLocked with
  | false => exact Spinlock.execAlone_of_error 3 (if_neg (ne_true_of_eq_false hlocked))
  | true =>
    have hheld : Spinlock.exec e (lock.spinlock count) (.releaseCheck myCpu) =
        .ok (lock.spinlock count, .releaseOwner myCpu) := if_pos hlocked
    rw [Spinlock.execAlone_succ 3 hheld, if_neg (by decide)]
    split_ifs with howner
    · exact Spinlock.execAlone_of_error 2 (if_pos howner)
    · have hown : Spinlock.exec e (lock.spinlock count) (.releaseOwner myCpu) =
          .ok (lock.spinlock count, .clearOwner) := if_neg howner
      exact (Spinlock.execAlone_succ 2 hown).trans rfl

end

/-- Where the thread is in `scheduler_yield`; a number counts the rounds of
`lock_acquire`. -/
inductive Pc
  | code
  | acquire (i : ℕ)
  | sendIpi
  | sti
  | await (i : ℕ)
  | release
  deriving DecidableEq, Repr

structure State where
  cpu : ℕ
  interrupts : Bool
  timerRunning : Bool
  timerRequest : Bool
  ipiRequest : Bool
  yieldAwait : Lock
  pc : Pc
  panic : Option Panic
  deriving DecidableEq, Repr

inductive Event
  | yield
  | thread
  | timer
  | interrupt
  deriving DecidableEq, Repr

namespace State

/-- A round of `lock_acquire`: the next place if the lock is acquired, and the
place for another round if not. -/
def acquire (s : State) (i : ℕ) (next again : Pc) : State :=
  match lockAcquire (getCurrentCpuSafe s.interrupts s.cpu) i s.yieldAwait with
  | .error p => { s with panic := some p }
  | .ok none => { s with pc := again }
  | .ok (some lock) => { s with yieldAwait := lock, pc := next }

def threadStep (s : State) : Option State :=
  match s.pc with
  | .code => none
  | .acquire i => some (s.acquire i .sendIpi (.acquire (i + 1)))
  | .sendIpi => some { s with ipiRequest := true, pc := .sti }
  | .sti => some { s with interrupts := true, pc := .await 0 }
  | .await i => some (s.acquire i .release (.await (i + 1)))
  | .release =>
    match lockRelease (getCurrentCpuSafe s.interrupts s.cpu) s.yieldAwait with
    | .error p => some { s with panic := some p }
    | .ok lock => some { s with yieldAwait := lock, pc := .code }

/-- The handler runs with interrupts disabled, releases the lock of the thread
and, as there is no other thread, starts the timer and returns to it. -/
def schedulerIsr (s : State) : State :=
  let s := { s with timerRequest := false, ipiRequest := false, timerRunning := false }
  match lockRelease (getCurrentCpuSafe false s.cpu) s.yieldAwait with
  | .error p => { s with panic := some p }
  | .ok lock => { s with yieldAwait := lock, timerRunning := true }

def step (s : State) (e : Event) : Option State :=
  if s.panic ≠ none then none
  else
    match e with
    | .yield =>
      if s.pc = .code then
        some { s with interrupts := false, timerRunning := false, pc := .acquire 0 }
      else none
    | .thread => s.threadStep
    | .timer =>
      if s.timerRunning then some { s with timerRunning := false, timerRequest := true } else none
    | .interrupt =>
      if s.interrupts ∧ (s.timerRequest ∨ s.ipiRequest) then some s.schedulerIsr else none

end State

structure Started (s : State) : Prop where
  interrupts : s.interrupts = true
  timerRequest : s.timerRequest = false
  ipiRequest : s.ipiRequest = false
  yieldAwait : s.yieldAwait = .free
  pc : s.pc = .code
  panic : s.panic = none

def system : System State Event where
  init := Started
  step := State.step

/-- An interrupt is taken for the IPI, or while the thread is about to release
the lock itself. -/
def Expected (s : State) (e : Event) : Prop :=
  e = .interrupt → s.ipiRequest = true ∨ s.pc = .release

instance (s : State) (e : Event) : Decidable (Expected s e) :=
  inferInstanceAs (Decidable (_ → _))

structure At (s : State) (interrupts ipiRequest : Bool) (lock : Lock) : Prop where
  interrupts : s.interrupts = interrupts
  ipiRequest : s.ipiRequest = ipiRequest
  yieldAwait : s.yieldAwait = lock

def Placed (s : State) : Prop :=
  match s.pc with
  | .code => At s true false .free
  | .acquire _ => At s false false .free
  | .sendIpi => At s false false ⟨true, some s.cpu⟩
  | .sti => At s false true ⟨true, some s.cpu⟩
  | .await _ => At s true true ⟨true, some s.cpu⟩ ∨ At s true false .free
  | .release => At s true false ⟨true, none⟩

def Held (s : State) : Prop :=
  s.panic ≠ some .notHeld

structure Inv (s : State) : Prop where
  held : Held s
  placed : s.panic = none → Placed s

lemma inv_of_placed {s : State} (hpanic : s.panic = none) (h : Placed s) : Inv s where
  held := by rw [Held, hpanic]; decide
  placed := fun _ => h

lemma inv_of_panic {s : State} {p : Panic} (hpanic : s.panic = some p) (hp : p ≠ .notHeld) :
    Inv s where
  held := by rw [Held, hpanic]; exact mt Option.some.inj hp
  placed := fun h => absurd (hpanic.symm.trans h) (Option.some_ne_none p)

lemma inv_of_started {s : State} (h : Started s) : Inv s := by
  apply inv_of_placed h.panic
  rw [Placed, h.pc]
  exact ⟨h.interrupts, h.ipiRequest, h.yieldAwait⟩

lemma lockAcquire_free (myCpu : Option ℕ) (i : ℕ) :
    lockAcquire myCpu i .free =
      if i ≥ lockDeadlockThreshold then .error .deadlock else .ok (some ⟨true, myCpu⟩) := by
  have hother : ¬ (i = 0 ∧ Lock.free.ownerCpu = myCpu ∧ myCpu ≠ none) :=
    fun h => h.2.2 h.2.1.symm
  rw [lockAcquire, if_neg hother]
  rfl

lemma lockAcquire_locked (i : ℕ) (owner : Option ℕ) :
    lockAcquire none i ⟨true, owner⟩ =
      if i ≥ lockDeadlockThreshold then .error .deadlock else .ok none := by
  have hunknown : ¬ (i = 0 ∧ owner = none ∧ (none : Option ℕ) ≠ none) := fun h => h.2.2 rfl
  rw [lockAcquire, if_neg hunknown]
  rfl

variable {s s' : State}

lemma Placed.timer {running request : Bool} (h : Placed s) :
    Placed { s with timerRunning := running, timerRequest := request } := by
  have hat {interrupts ipiRequest : Bool} {lock : Lock} {pc : Pc}
      (h : At s interrupts ipiRequest lock) :
      At { s with timerRunning := running, timerRequest := request, pc := pc } interrupts
        ipiRequest lock :=
    ⟨h.interrupts, h.ipiRequest, h.yieldAwait⟩
  rw [Placed] at h ⊢
  cases hpc : s.pc with
  | await i =>
    simp only [hpc] at h ⊢
    exact h.imp hat hat
  | _ =>
    simp only [hpc] at h ⊢
    exact hat h

lemma inv_acquire_free {i : ℕ} {next again : Pc} {myCpu : Option ℕ}
    (hlock : s.yieldAwait = .free) (hcpu : getCurrentCpuSafe s.interrupts s.cpu = myCpu)
    (hpanic : s.panic = none)
    (hnext : Placed { s with yieldAwait := ⟨true, myCpu⟩, pc := next }) :
    Inv (s.acquire i next again) := by
  rw [State.acquire, hlock, hcpu, lockAcquire_free]
  split_ifs
  · exact inv_of_panic rfl (by decide)
  · exact inv_of_placed hpanic hnext

lemma inv_acquire_locked {i : ℕ} {next again : Pc} {owner : Option ℕ}
    (hlock : s.yieldAwait = ⟨true, owner⟩) (hcpu : getCurrentCpuSafe s.interrupts s.cpu = none)
    (hpanic : s.panic = none) (hagain : Placed { s with pc := again }) :
    Inv (s.acquire i next again) := by
  have hround : lockAcquire (getCurrentCpuSafe s.interrupts s.cpu) i s.yieldAwait =
      if i ≥ lockDeadlockThreshold then .error .deadlock else .ok none := by
    rw [hlock, hcpu, lockAcquire_locked]
  rw [State.acquire, hround]
  split_ifs
  · exact inv_of_panic rfl (by decide)
  · exact inv_of_placed hpanic hagain

lemma Inv.threadStep (hI : Inv s) (hpanic : s.panic = none)
    (hstep : s.threadStep = some s') : Inv s' := by
  have hplaced := hI.placed hpanic
  rw [Placed] at hplaced
  rw [State.threadStep] at hstep
  cases hpc : s.pc <;> rw [hpc] at hstep hplaced
  case code => cases hstep
  case acquire i =>
    cases hstep
    have hcpu : getCurrentCpuSafe s.interrupts s.cpu = some s.cpu := by
      rw [hplaced.interrupts]
      rfl
    exact inv_acquire_free hplaced.yieldAwait hcpu hpanic
      ⟨hplaced.interrupts, hplaced.ipiRequest, rfl⟩
  case sendIpi =>
    cases hstep
    exact inv_of_placed hpanic ⟨hplaced.interrupts, rfl, hplaced.yieldAwait⟩
  case sti =>
    cases hstep
    exact inv_of_placed hpanic (.inl ⟨rfl, hplaced.ipiRequest, hplaced.yieldAwait⟩)
  case await i =>
    cases hstep
    rcases hplaced with hwaits | hfree
    · have hcpu : getCurrentCpuSafe s.interrupts s.cpu = none := by
        rw [hwaits.interrupts]
        rfl
      exact inv_acquire_locked hwaits.yieldAwait hcpu hpanic
        (.inl ⟨hwaits.interrupts, hwaits.ipiRequest, hwaits.yieldAwait⟩)
    · have hcpu : getCurrentCpuSafe s.interrupts s.cpu = none := by
        rw [hfree.interrupts]
        rfl
      exact inv_acquire_free hfree.yieldAwait hcpu hpanic ⟨hfree.interrupts, hfree.ipiRequest, rfl⟩
  case release =>
    have hrelease : lockRelease (getCurrentCpuSafe s.interrupts s.cpu) s.yieldAwait =
        .ok .free := by
      rw [hplaced.interrupts, hplaced.yieldAwait]
      rfl
    simp only [hrelease] at hstep
    cases hstep
    exact inv_of_placed hpanic ⟨hplaced.interrupts, hplaced.ipiRequest, rfl⟩

lemma Inv.interrupted (hI : Inv s) (hpanic : s.panic = none) (hinterrupts : s.interrupts = true) :
    (s.ipiRequest = true ∧ ∃ i, s.pc = .await i ∧ s.yieldAwait = ⟨true, some s.cpu⟩) ∨
      (s.ipiRequest = false ∧ s.pc = .release ∧ s.yieldAwait = ⟨true, none⟩) ∨
      (s.ipiRequest = false ∧ s.pc ≠ .release ∧ s.yieldAwait = .free) := by
  have hplaced := hI.placed hpanic
  rw [Placed] at hplaced
  cases hpc : s.pc <;> rw [hpc] at hplaced
  case code =>
    exact .inr (.inr ⟨hplaced.ipiRequest, Pc.noConfusion, hplaced.yieldAwait⟩)
  case acquire i | sendIpi | sti =>
    cases hinterrupts.symm.trans hplaced.interrupts
  case await i =>
    rcases hplaced with hwaits | hfree
    · exact .inl ⟨hwaits.ipiRequest, i, rfl, hwaits.yieldAwait⟩
    · exact .inr (.inr ⟨hfree.ipiRequest, Pc.noConfusion, hfree.yieldAwait⟩)
  case release =>
    exact .inr (.inl ⟨hplaced.ipiRequest, rfl, hplaced.yieldAwait⟩)

lemma schedulerIsr_of_ok {lock : Lock}
    (hrelease : lockRelease (some s.cpu) s.yieldAwait = .ok lock) :
    s.schedulerIsr =
      { s with
        timerRequest := false, ipiRequest := false, timerRunning := true, yieldAwait := lock } := by
  simp only [State.schedulerIsr, getCurrentCpuSafe, Bool.false_eq_true, if_false, hrelease]

lemma schedulerIsr_of_error {p : Panic}
    (hrelease : lockRelease (some s.cpu) s.yieldAwait = .error p) :
    s.schedulerIsr =
      { s with
        timerRequest := false, ipiRequest := false, timerRunning := false, panic := some p } := by
  simp only [State.schedulerIsr, getCurrentCpuSafe, Bool.false_eq_true, if_false, hrelease]

lemma Inv.schedulerIsr (hI : Inv s) (hpanic : s.panic = none) (hinterrupts : s.interrupts = true) :
    (Expected s .interrupt → Inv s.schedulerIsr) ∧
      (¬ Expected s .interrupt → ¬ Held s.schedulerIsr) := by
  rcases hI.interrupted hpanic hinterrupts with ⟨hipi, i, hpc, hlock⟩ | ⟨_, hpc, hlock⟩ |
    ⟨hipi, hpc, hlock⟩
  · refine ⟨fun _ => ?_, fun hnot => absurd (fun _ => .inl hipi) hnot⟩
    have hrelease : lockRelease (some s.cpu) s.yieldAwait = .ok .free := by
      simp [hlock, lockRelease]
    rw [schedulerIsr_of_ok hrelease]
    refine inv_of_placed hpanic ?_
    rw [Placed]
    simp only [hpc]
    exact .inr ⟨hinterrupts, rfl, rfl⟩
  · refine ⟨fun _ => ?_, fun hnot => absurd (fun _ => .inr hpc) hnot⟩
    have hrelease : lockRelease (some s.cpu) s.yieldAwait = .error .differentCpu := by
      simp [hlock, lockRelease]
    rw [schedulerIsr_of_error hrelease]
    exact inv_of_panic rfl (by decide)
  · refine ⟨fun hexpected => ?_, fun _ => ?_⟩
    · rcases hexpected rfl with h | h
      · cases h.symm.trans hipi
      · exact absurd h hpc
    · have hrelease : lockRelease (some s.cpu) s.yieldAwait = .error .notHeld := by
        rw [hlock]
        rfl
      rw [schedulerIsr_of_error hrelease]
      exact fun h => h rfl

lemma step_interrupt (hstep : s.step .interrupt = some s') :
    s.panic = none ∧ s.interrupts = true ∧ s' = s.schedulerIsr := by
  simp only [State.step] at hstep
  split_ifs at hstep with hpanic hready
  exact ⟨not_not.mp hpanic, hready.1, (Option.some.inj hstep).symm⟩

lemma Inv.step {e : Event} (hI : Inv s) (hexpected : Expected s e) (hstep : s.step e = some s') :
    Inv s' := by
  cases e with
  | yield =>
    simp only [State.step] at hstep
    split_ifs at hstep with hpanic hpc
    cases hstep
    have hplaced := hI.placed (not_not.mp hpanic)
    rw [Placed, hpc] at hplaced
    exact inv_of_placed (not_not.mp hpanic) ⟨rfl, hplaced.ipiRequest, hplaced.yieldAwait⟩
  | thread =>
    simp only [State.step] at hstep
    split_ifs at hstep with hpanic
    exact hI.threadStep (not_not.mp hpanic) hstep
  | timer =>
    simp only [State.step] at hstep
    split_ifs at hstep with hpanic
    cases hstep
    exact inv_of_placed (not_not.mp hpanic) (hI.placed (not_not.mp hpanic)).timer
  | interrupt =>
    obtain ⟨hpanic, hinterrupts, rfl⟩ := step_interrupt hstep
    exact (hI.schedulerIsr hpanic hinterrupts).1 hexpected

lemma inv_of_reachable (h : system.ReachableVia Expected s) : Inv s :=
  h.invariant (fun _ hinit => inv_of_started hinit) fun _ _ _ hI hexpected hstep =>
    hI.step hexpected hstep

/-! ## Runs -/

/-- In a run in which every interrupt is expected the lock is only released
while it is held, and the first interrupt that is not expected breaks this. -/
theorem yield_await_held (hs : system.ReachableVia Expected s) :
    Held s ∧ ∀ e s', system.step s e = some s' → (Held s' ↔ Expected s e) := by
  have hI := inv_of_reachable hs
  refine ⟨hI.held, ?_⟩
  intro e s' hstep
  constructor
  · intro hheld
    by_contra hnot
    have he : e = .interrupt := by
      by_contra hne
      exact hnot fun h => absurd h hne
    subst he
    obtain ⟨hpanic, hinterrupts, rfl⟩ := step_interrupt hstep
    exact (hI.schedulerIsr hpanic hinterrupts).2 hnot hheld
  · intro hexpected
    exact (hI.step hexpected hstep).held

def firstTimeslice : State where
  cpu := 0
  interrupts := true
  timerRunning := true
  timerRequest := false
  ipiRequest := false
  yieldAwait := .free
  pc := .code
  panic := none

lemma started_firstTimeslice : Started firstTimeslice :=
  ⟨rfl, rfl, rfl, rfl, rfl, rfl⟩

theorem yield_await_held_yield :
    ∃ s, system.ReachableVia Expected s ∧ s.pc = .code ∧ s.timerRunning = true ∧ Held s := by
  obtain ⟨s, hs, hdone⟩ := System.Reachable.exists_of_run_any (S := system.guard Expected)
    (.init started_firstTimeslice)
    [.yield, .thread, .thread, .thread, .thread, .interrupt, .thread, .thread]
    (fun s => decide (s.pc = .code ∧ s.timerRunning = true)) (by decide +kernel)
  obtain ⟨hpc, htimer⟩ := of_decide_eq_true hdone
  have hvia := System.reachableVia_of_guard hs
  exact ⟨s, hvia, hpc, htimer, (yield_await_held hvia).1⟩

/-- The first timeslice of a thread ends before it has ever yielded. -/
theorem yield_await_not_held :
    ∃ s, system.Reachable s ∧ s.panic = some .notHeld := by
  obtain ⟨s, hs, hpanic⟩ := System.Reachable.exists_of_run_any (S := system)
    (.init started_firstTimeslice) [.timer, .interrupt]
    (fun s => decide (s.panic = some .notHeld)) (by decide +kernel)
  exact ⟨s, hs, of_decide_eq_true hpanic⟩

end Cottage.YieldAwait
