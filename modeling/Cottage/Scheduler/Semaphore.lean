import Cottage.Foundations.IndexRing
import Cottage.Scheduler.Model
import Mathlib.Algebra.Order.Ring.Int

/-!
# Counting semaphores

The critical sections of `semaphore.c`, each a function of the semaphore alone
since `sem->lock` is held throughout.  `sem_wait` either takes a unit of the
count, or puts the calling thread into the wait ring, or finds the ring full
and panics; `sem_signal` returns the thread it hands to `enqueue_thread`.  The
count is a 64-bit signed integer.

The state keeps, next to the semaphore, which threads are blocked inside
`sem_wait` in the order in which they came, and how many signals were sent and
how many units were granted.
-/

namespace Cottage.Sem

open IndexRing Scheduler Transition

def semMaxWaiters : ℕ := 64

structure Semaphore where
  count : Int64
  waiters : Ring Tid semMaxWaiters

/-- `sem_init`; it leaves the slots of the wait ring as they are. -/
def semInit (initialCount : Int64) (slots : ℕ → Tid) : Semaphore where
  count := initialCount
  waiters := Ring.empty slots (by decide)

inductive WaitResult
  | acquired (sem : Semaphore)
  | blocked (sem : Semaphore)
  | panicked

def semWait (sem : Semaphore) (current : Tid) : WaitResult :=
  if 0 < sem.count then .acquired { sem with count := sem.count - 1 }
  else if sem.waiters.IsFull then .panicked
  else .blocked { sem with waiters := sem.waiters.push current }

def semTrywait (sem : Semaphore) : Semaphore × Bool :=
  if 0 < sem.count then ({ sem with count := sem.count - 1 }, true) else (sem, false)

def semSignal (sem : Semaphore) : Semaphore × Option Tid :=
  if sem.waiters.IsEmpty then ({ sem with count := sem.count + 1 }, none)
  else ({ sem with waiters := sem.waiters.pop }, some sem.waiters.front)

structure State where
  sem : Semaphore
  initialCount : Int64
  blocked : List Tid
  signals : ℕ
  granted : ℕ

inductive Event
  | wait (t : Tid)
  | trywait
  | signal
  deriving DecidableEq, Repr

/-- A waiter that is woken has its unit granted by the signal. -/
def step (s : State) : Event → Option State
  | .wait t =>
    if t ∈ s.blocked then none
    else
      match semWait s.sem t with
      | .acquired sem => some { s with sem := sem, granted := s.granted + 1 }
      | .blocked sem => some { s with sem := sem, blocked := s.blocked ++ [t] }
      | .panicked => none
  | .trywait =>
    match semTrywait s.sem with
    | (sem, true) => some { s with sem := sem, granted := s.granted + 1 }
    | (sem, false) => some { s with sem := sem }
  | .signal =>
    match semSignal s.sem with
    | (sem, none) => some { s with sem := sem, signals := s.signals + 1 }
    | (sem, some t) =>
      some { s with
        sem := sem
        blocked := s.blocked.erase t
        signals := s.signals + 1
        granted := s.granted + 1 }

def Initial (s : State) : Prop :=
  0 ≤ s.initialCount ∧ (∃ slots, s.sem = semInit s.initialCount slots) ∧ s.blocked = [] ∧
    s.signals = 0 ∧ s.granted = 0

def system : System State Event where
  init := Initial
  step := step

variable {s : State} {c : Int64}

lemma step_cases {s' : State} {e : Event} (hstep : step s e = some s') :
    (∃ granted, 0 < s.sem.count ∧ granted = s.granted + 1 ∧
        s' = { s with
          sem := { s.sem with count := s.sem.count - 1 }
          granted := granted }) ∨
      (∃ t, ¬ 0 < s.sem.count ∧ ¬ s.sem.waiters.IsFull ∧
        s' = { s with
          sem := { s.sem with waiters := s.sem.waiters.push t }
          blocked := s.blocked ++ [t] }) ∨
      s' = s ∨
      (e = .signal ∧ s.sem.waiters.IsEmpty ∧
        s' = { s with
          sem := { s.sem with count := s.sem.count + 1 }
          signals := s.signals + 1 }) ∨
      (e = .signal ∧ ¬ s.sem.waiters.IsEmpty ∧
        s' = { s with
          sem := { s.sem with waiters := s.sem.waiters.pop }
          blocked := s.blocked.erase s.sem.waiters.front
          signals := s.signals + 1
          granted := s.granted + 1 }) := by
  cases e with
  | wait t =>
    simp only [step, semWait] at hstep
    by_cases hmem : t ∈ s.blocked
    · simp [hmem] at hstep
    · by_cases hcount : 0 < s.sem.count
      · simp only [hmem, hcount, if_true, if_false, Option.some.injEq] at hstep
        exact .inl ⟨_, hcount, rfl, hstep.symm⟩
      · by_cases hfull : s.sem.waiters.IsFull
        · simp [hmem, hcount, hfull] at hstep
        · simp only [hmem, hcount, hfull, if_false, Option.some.injEq] at hstep
          exact .inr (.inl ⟨t, hcount, hfull, hstep.symm⟩)
  | trywait =>
    simp only [step, semTrywait] at hstep
    by_cases hcount : 0 < s.sem.count
    · simp only [hcount, if_true, Option.some.injEq] at hstep
      exact .inl ⟨_, hcount, rfl, hstep.symm⟩
    · simp only [hcount, if_false, Option.some.injEq] at hstep
      exact .inr (.inr (.inl hstep.symm))
  | signal =>
    simp only [step, semSignal] at hstep
    by_cases hempty : s.sem.waiters.IsEmpty
    · simp only [hempty, if_true, Option.some.injEq] at hstep
      exact .inr (.inr (.inr (.inl ⟨rfl, hempty, hstep.symm⟩)))
    · simp only [hempty, if_false, Option.some.injEq] at hstep
      exact .inr (.inr (.inr (.inr ⟨rfl, hempty, hstep.symm⟩)))

lemma toInt_add_one (hc : c < Int64.maxValue) : (c + 1).toInt = c.toInt + 1 := by
  have hlt : c.toInt < 2 ^ 63 - 1 := by
    rw [← Int64.toInt_maxValue]
    exact Int64.lt_iff_toInt_lt.mp hc
  have hle := c.le_toInt
  rw [Int64.toInt_add, Int64.toInt_one]
  apply Int.bmod_eq_of_le <;> omega

lemma toInt_sub_one (hc : 0 < c) : (c - 1).toInt = c.toInt - 1 := by
  have hpos : 0 < c.toInt := Int64.lt_iff_toInt_lt.mp hc
  have hlt := c.toInt_lt
  rw [Int64.toInt_sub, Int64.toInt_one]
  apply Int.bmod_eq_of_le <;> omega

lemma nonneg_iff : 0 ≤ c ↔ 0 ≤ c.toInt :=
  Int64.le_iff_toInt_le

lemma pos_iff : 0 < c ↔ 0 < c.toInt :=
  Int64.lt_iff_toInt_lt

/-! ## Conservation and fairness -/

/-- What the count, the wait ring and the blocked threads have to do with each
other: the slots of the ring from head to tail are the blocked threads in order
of arrival, no unit is left while a thread is blocked, and units are neither
lost nor made. -/
structure Inv (s : State) : Prop where
  count_nonneg : 0 ≤ s.sem.count
  isEmpty_of_pos : 0 < s.sem.count → s.sem.waiters.IsEmpty
  waiters_eq : s.sem.waiters.toList = s.blocked
  conserved : s.initialCount.toInt + s.signals = s.sem.count.toInt + s.granted

/-- Moreover the ring is full exactly when 63 threads are blocked, and a signal
hands the longest blocked thread, and no other, to the scheduler. -/
structure Law (s : State) : Prop extends Inv s where
  full_iff : s.sem.waiters.IsFull ↔ s.blocked.length = 63
  wakes : (semSignal s.sem).2 = s.blocked.head?

lemma Inv.law (h : Inv s) : Law s where
  toInv := h
  full_iff := by
    have hmax : semMaxWaiters = 64 := rfl
    rw [Ring.isFull_iff, ← h.waiters_eq, Ring.length_toList]
    omega
  wakes := by
    rw [← h.waiters_eq, semSignal]
    by_cases hempty : s.sem.waiters.IsEmpty
    · rw [if_pos hempty, (Ring.toList_eq_nil_iff _).mpr hempty]
      rfl
    · rw [if_neg hempty, Ring.toList_pop hempty]
      rfl

lemma inv_of_initial (h : Initial s) : Inv s := by
  obtain ⟨hcount, ⟨slots, hsem⟩, hblocked, hsignals, hgranted⟩ := h
  refine ⟨?_, ?_, ?_, ?_⟩
  · rw [hsem]
    exact hcount
  · intro _
    rw [hsem]
    exact rfl
  · rw [hsem, hblocked]
    exact Ring.toList_empty _ _
  · rw [hsem, hsignals, hgranted]
    rfl

/-- No signal is sent to a semaphore without waiters whose count is the
largest 64-bit integer. -/
def NoOverflow (s : State) (e : Event) : Prop :=
  e = .signal → s.sem.waiters.IsEmpty → s.sem.count < Int64.maxValue

instance (s : State) (e : Event) : Decidable (NoOverflow s e) :=
  inferInstanceAs (Decidable (_ → _ → _))

lemma Inv.step {s' : State} {e : Event} (h : Inv s) (hok : NoOverflow s e)
    (hstep : step s e = some s') : Inv s' := by
  have hconserved := h.conserved
  rcases step_cases hstep with ⟨granted, hpos, hgranted, rfl⟩ | ⟨t, hpos, hfull, rfl⟩ | rfl |
    ⟨he, hempty, rfl⟩ | ⟨he, hempty, rfl⟩
  · have hsub := toInt_sub_one hpos
    have hpos' := pos_iff.mp hpos
    refine ⟨nonneg_iff.mpr (by dsimp only; omega), fun _ => h.isEmpty_of_pos hpos, h.waiters_eq, ?_⟩
    dsimp only
    omega
  · refine ⟨h.count_nonneg, fun hpos' => absurd hpos' hpos, ?_, hconserved⟩
    rw [Ring.toList_push t hfull, h.waiters_eq]
  · exact h
  · have hadd := toInt_add_one (hok he hempty)
    have hnonneg := nonneg_iff.mp h.count_nonneg
    refine ⟨nonneg_iff.mpr (by dsimp only; omega), fun _ => hempty, h.waiters_eq, ?_⟩
    dsimp only
    omega
  · refine ⟨h.count_nonneg, fun hpos => absurd (h.isEmpty_of_pos hpos) hempty, ?_, ?_⟩
    · dsimp only
      rw [← h.waiters_eq, Ring.toList_pop hempty, List.erase_cons_head]
    · dsimp only
      omega

/-- In every order of critical sections in which the count does not overflow,
units are conserved and granted in order of arrival. -/
theorem semaphore_law {s : State} (h : system.ReachableVia NoOverflow s) : Law s := by
  apply Inv.law
  exact h.invariant (fun _ => inv_of_initial) fun _ _ _ hinv hok hstep => hinv.step hok hstep

def closed : State where
  sem := semInit 0 fun _ => 0
  initialCount := 0
  blocked := []
  signals := 0
  granted := 0

lemma initial_closed : Initial closed :=
  ⟨by decide, ⟨_, rfl⟩, rfl, rfl, rfl⟩

theorem semaphore_law_of_two_waiters :
    ∃ s, system.ReachableVia NoOverflow s ∧ s.blocked = [5] ∧ Law s := by
  have hrun : ((system.guard NoOverflow).run closed [.wait 4, .wait 5, .signal, .trywait]).any
      (fun s => s.blocked = [5]) = true := by decide
  obtain ⟨s, hs, hblocked⟩ := System.Reachable.exists_of_run_any (.init initial_closed) _ _ hrun
  have hvia := System.reachableVia_of_guard hs
  exact ⟨s, hvia, of_decide_eq_true hblocked, semaphore_law hvia⟩

/-- A semaphore may be initialised with the largest count, and the next signal
makes the count negative. -/
theorem count_overflows : ∃ s, system.Reachable s ∧ ¬ Law s := by
  have hinit : Initial { closed with
      sem := semInit Int64.maxValue fun _ => 0
      initialCount := Int64.maxValue } := ⟨by decide, ⟨_, rfl⟩, rfl, rfl, rfl⟩
  have hrun : (system.run { closed with
      sem := semInit Int64.maxValue fun _ => 0
      initialCount := Int64.maxValue } [.signal]).any (fun s => ¬ 0 ≤ s.sem.count) = true := by
    decide
  obtain ⟨s, hs, hneg⟩ := System.Reachable.exists_of_run_any (.init hinit) _ _ hrun
  exact ⟨s, hs, fun hlaw => of_decide_eq_true hneg hlaw.count_nonneg⟩

end Cottage.Sem
