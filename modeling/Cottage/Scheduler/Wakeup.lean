import Cottage.Scheduler.RunQueue
import Cottage.Scheduler.Semaphore

/-!
# Semaphores and the run queue together

`enqueue_thread` and `scheduler_dequeue_thread` as whole calls on the run queue
and, with them, `sem_wait` and `sem_signal` as calls on a semaphore and the run
queue.  A run is any sequence of such calls, by whomever they are made.

`sem_signal` takes the thread out of the wait ring before it knows whether
`enqueue_thread` finds a slot for it, and does not look at the result.
-/

namespace Cottage.Wakeup

open Scheduler Sem Transition Function

open RunQueue (Placed)

structure Queue where
  slots : ℕ → Option Tid
  isInQueue : Tid → Bool
  enqueuedBySignal : Tid → Bool

def Queue.enqueueThread (q : Queue) (t : Tid) (bySignal : Bool) : Queue × Bool :=
  if q.isInQueue t then (q, true)
  else
    let q := { q with enqueuedBySignal := update q.enqueuedBySignal t bySignal }
    match (List.range maxThreads).find? fun i => q.slots i = none with
    | some i =>
      ({ q with
        slots := update q.slots i (some t)
        isInQueue := update q.isInQueue t true }, true)
    | none => (q, false)

def Queue.dequeueThread (q : Queue) (t : Tid) : Queue × Bool :=
  if q.isInQueue t then
    match (List.range maxThreads).find? fun i => q.slots i = some t with
    | some i =>
      ({ q with
        slots := update q.slots i none
        isInQueue := update q.isInQueue t false }, true)
    | none => (q, false)
  else (q, true)

structure State where
  queue : Queue
  sems : ℕ → Semaphore

inductive Event
  | enqueueThread (t : Tid) (bySignal : Bool)
  | dequeueThread (t : Tid)
  | semWait (i : ℕ) (current : Tid)
  | semSignal (i : ℕ)
  deriving DecidableEq, Repr

def step (s : State) : Event → Option State
  | .enqueueThread t bySignal => some { s with queue := (s.queue.enqueueThread t bySignal).1 }
  | .dequeueThread t => some { s with queue := (s.queue.dequeueThread t).1 }
  | .semWait i current =>
    match semWait (s.sems i) current with
    | .acquired sem => some { s with sems := update s.sems i sem }
    | .blocked sem =>
      some { s with
        queue := (s.queue.dequeueThread current).1
        sems := update s.sems i sem }
    | .panicked => none
  | .semSignal i =>
    match semSignal (s.sems i) with
    | (sem, none) => some { s with sems := update s.sems i sem }
    | (sem, some t) =>
      some { s with
        queue := (s.queue.enqueueThread t false).1
        sems := update s.sems i sem }

def Initial (s : State) : Prop :=
  (∀ i, s.queue.slots i = none) ∧ (∀ t, s.queue.isInQueue t = false) ∧
    ∀ i, ∃ count slots, s.sems i = semInit count slots

def system : System State Event where
  init := Initial
  step := step

def Queue.Consistent (q : Queue) : Prop :=
  ∀ t, ∃ o, Placed q.slots t o ∧ q.isInQueue t = o.isSome

section Calls

variable {q : Queue} {t : Tid} {bySignal : Bool}

lemma Queue.enqueueThread_of_queued (hflag : q.isInQueue t = true) :
    q.enqueueThread t bySignal = (q, true) :=
  if_pos hflag

lemma Queue.dequeueThread_of_not_queued (hflag : ¬ q.isInQueue t = true) :
    q.dequeueThread t = (q, true) :=
  if_neg hflag

lemma Queue.enqueueThread_of_free {i : ℕ} (hflag : ¬ q.isInQueue t = true)
    (hfind : ((List.range maxThreads).find? fun i => q.slots i = none) = some i) :
    q.enqueueThread t bySignal = ({ q with
      enqueuedBySignal := update q.enqueuedBySignal t bySignal
      slots := update q.slots i (some t)
      isInQueue := update q.isInQueue t true }, true) := by
  simp only [Queue.enqueueThread, if_neg hflag, hfind]

lemma Queue.enqueueThread_of_full (hflag : ¬ q.isInQueue t = true)
    (hfind : ((List.range maxThreads).find? fun i => q.slots i = none) = none) :
    q.enqueueThread t bySignal = ({ q with
      enqueuedBySignal := update q.enqueuedBySignal t bySignal }, false) := by
  simp only [Queue.enqueueThread, if_neg hflag, hfind]

lemma Queue.dequeueThread_of_found {i : ℕ} (hflag : q.isInQueue t = true)
    (hfind : ((List.range maxThreads).find? fun i => q.slots i = some t) = some i) :
    q.dequeueThread t = ({ q with
      slots := update q.slots i none
      isInQueue := update q.isInQueue t false }, true) := by
  simp only [Queue.dequeueThread, if_pos hflag, hfind]

lemma Queue.dequeueThread_of_not_found (hflag : q.isInQueue t = true)
    (hfind : ((List.range maxThreads).find? fun i => q.slots i = some t) = none) :
    q.dequeueThread t = (q, false) := by
  simp only [Queue.dequeueThread, if_pos hflag, hfind]

lemma Queue.enqueueThread_cases (q : Queue) (t : Tid) (bySignal : Bool) :
    (q.isInQueue t = true ∧ (q.enqueueThread t bySignal).1 = q) ∨
      (q.isInQueue t = false ∧
        ((∃ i < maxThreads, q.slots i = none ∧
            (q.enqueueThread t bySignal).1.slots = update q.slots i (some t) ∧
            (q.enqueueThread t bySignal).1.isInQueue = update q.isInQueue t true) ∨
          ((∀ i < maxThreads, q.slots i ≠ none) ∧ (q.enqueueThread t bySignal).1.slots = q.slots ∧
            (q.enqueueThread t bySignal).1.isInQueue = q.isInQueue))) := by
  by_cases hflag : q.isInQueue t = true
  · exact .inl ⟨hflag, congrArg Prod.fst (Queue.enqueueThread_of_queued hflag)⟩
  · refine .inr ⟨Bool.not_eq_true _ ▸ hflag, ?_⟩
    cases hfind : (List.range maxThreads).find? fun i => q.slots i = none with
    | some i =>
      obtain ⟨hslot, hi, -⟩ := List.find?_range_eq_some.mp hfind
      rw [Queue.enqueueThread_of_free hflag hfind]
      exact .inl ⟨i, List.mem_range.mp hi, of_decide_eq_true hslot, rfl, rfl⟩
    | none =>
      rw [Queue.enqueueThread_of_full hflag hfind]
      refine .inr ⟨?_, rfl, rfl⟩
      intro i hi hslot
      have hnot := List.find?_range_eq_none.mp hfind i hi
      simp [hslot] at hnot

lemma Queue.Consistent.enqueueThread (h : q.Consistent) :
    (q.enqueueThread t bySignal).1.Consistent := by
  rcases q.enqueueThread_cases t bySignal with ⟨-, hsame⟩ |
    ⟨hflag, ⟨i, hi, hslot, hslots, hflags⟩ | ⟨-, hslots, hflags⟩⟩
  · rw [hsame]
    exact h
  · intro u
    rw [hslots, hflags]
    obtain ⟨o, hplaced, ho⟩ := h u
    by_cases hut : u = t
    · subst hut
      have hnone : o = none := Option.not_isSome_iff_eq_none.mp (by rw [← ho, hflag]; decide)
      subst hnone
      exact ⟨some i, hplaced.take hi, update_self _ _ _⟩
    · refine ⟨o, hplaced.update_of_ne ?_ ?_, ?_⟩
      · rw [hslot]
        exact fun hnone => by cases hnone
      · exact fun htu => hut (Option.some.inj htu).symm
      · rw [update_of_ne hut, ho]
  · intro u
    rw [hslots, hflags]
    exact h u

lemma Queue.Consistent.dequeueThread (h : q.Consistent) : (q.dequeueThread t).1.Consistent := by
  by_cases hflag : q.isInQueue t = true
  · cases hfind : (List.range maxThreads).find? fun i => q.slots i = some t with
    | none =>
      rw [Queue.dequeueThread_of_not_found hflag hfind]
      exact h
    | some i =>
      rw [Queue.dequeueThread_of_found hflag hfind]
      obtain ⟨hslot, hi, -⟩ := List.find?_range_eq_some.mp hfind
      have hslot : q.slots i = some t := of_decide_eq_true hslot
      intro u
      obtain ⟨o, hplaced, ho⟩ := h u
      by_cases hut : u = t
      · subst hut
        have hsome := hplaced.eq_some (List.mem_range.mp hi) hslot
        subst hsome
        exact ⟨none, hplaced.release, update_self _ _ _⟩
      · refine ⟨o, hplaced.update_of_ne ?_ (fun hnone => by cases hnone), ?_⟩
        · rw [hslot]
          exact fun htu => hut (Option.some.inj htu).symm
        · exact (update_of_ne hut _ _).trans ho
  · rw [Queue.dequeueThread_of_not_queued hflag]
    exact h

lemma Queue.Consistent.queued_iff (h : q.Consistent) :
    (∃ j < maxThreads, (q.enqueueThread t bySignal).1.slots j = some t) ↔
      q.isInQueue t = true ∨ ∃ j < maxThreads, q.slots j = none := by
  obtain ⟨o, hplaced, ho⟩ := h t
  rcases q.enqueueThread_cases t bySignal with ⟨hflag, hsame⟩ |
    ⟨hflag, ⟨i, hi, hslot, hslots, -⟩ | ⟨hfull, hslots, -⟩⟩
  · obtain ⟨j, rfl⟩ := Option.isSome_iff_exists.mp (ho.symm.trans hflag)
    refine iff_of_true ⟨j, hplaced.1 j rfl, ?_⟩ (.inl hflag)
    rw [hsame]
    exact (hplaced.2 j (hplaced.1 j rfl)).mpr rfl
  · refine iff_of_true ⟨i, hi, ?_⟩ (.inr ⟨i, hi, hslot⟩)
    rw [hslots, update_self]
  · refine iff_of_false ?_ ?_
    · rintro ⟨j, hj, hjt⟩
      rw [hslots] at hjt
      rw [hplaced.eq_some hj hjt, hflag] at ho
      cases ho
    · rintro (hset | ⟨j, hj, hnone⟩)
      · rw [hflag] at hset
        cases hset
      · exact hfull j hj hnone

end Calls

lemma consistent_of_reachable {s : State} (h : system.Reachable s) : s.queue.Consistent := by
  refine h.invariant (I := fun s => s.queue.Consistent) ?_ ?_
  · rintro s ⟨hslots, hflags, -⟩ t
    refine ⟨none, ⟨fun i hi => (by cases hi), ?_⟩, hflags t⟩
    intro i _
    rw [hslots]
    exact iff_of_false (fun hnone => by cases hnone) (fun hnone => by cases hnone)
  · intro s e s' hinv hstep
    cases e with
    | enqueueThread t bySignal =>
      rw [← Option.some.inj hstep]
      exact hinv.enqueueThread
    | dequeueThread t =>
      rw [← Option.some.inj hstep]
      exact hinv.dequeueThread
    | semWait i current =>
      simp only [system, step] at hstep
      split at hstep
      · rw [← Option.some.inj hstep]
        exact hinv
      · rw [← Option.some.inj hstep]
        exact hinv.dequeueThread
      · cases hstep
    | semSignal i =>
      simp only [system, step] at hstep
      split at hstep
      · rw [← Option.some.inj hstep]
        exact hinv
      · rw [← Option.some.inj hstep]
        exact hinv.enqueueThread

lemma step_semSignal {s s' : State} {i : ℕ} {t : Tid} (hwoken : (semSignal (s.sems i)).2 = some t)
    (hstep : step s (.semSignal i) = some s') :
    s'.queue = (s.queue.enqueueThread t false).1 := by
  simp only [step] at hstep
  rcases hsignal : semSignal (s.sems i) with ⟨sem, woken⟩
  rw [hsignal] at hwoken
  obtain rfl : woken = some t := hwoken
  rw [hsignal] at hstep
  rw [← Option.some.inj hstep]

/-- The thread that `sem_signal` takes out of a wait ring occupies a slot of the
run queue when `sem_signal` returns exactly if it was in the queue already or a
slot was free. -/
theorem woken_queued_iff {s s' : State} (h : system.Reachable s) {i : ℕ} {t : Tid}
    (hwoken : (semSignal (s.sems i)).2 = some t) (hstep : step s (.semSignal i) = some s') :
    (∃ j < maxThreads, s'.queue.slots j = some t) ↔
      s.queue.isInQueue t = true ∨ ∃ j < maxThreads, s.queue.slots j = none := by
  rw [step_semSignal hwoken hstep]
  exact (consistent_of_reachable h).queued_iff

def quiet : State where
  queue := ⟨fun _ => none, fun _ => false, fun _ => false⟩
  sems _ := semInit 0 fun _ => 0

lemma initial_quiet : Initial quiet :=
  ⟨fun _ => rfl, fun _ => rfl, fun _ => ⟨_, _, rfl⟩⟩

theorem woken_queued_into_free_slot : ∃ s s', system.Reachable s ∧
    (semSignal (s.sems 0)).2 = some 4 ∧ step s (.semSignal 0) = some s' ∧
    ∃ j < maxThreads, s'.queue.slots j = some 4 := by
  have hrun : (system.run quiet [.enqueueThread 4 false, .semWait 0 4]).any (fun s =>
      (semSignal (s.sems 0)).2 = some 4 ∧ s.queue.slots 0 = none ∧
        (step s (.semSignal 0)).isSome) = true := by decide +kernel
  obtain ⟨s, hs, hp⟩ := System.Reachable.exists_of_run_any (.init initial_quiet) _ _ hrun
  obtain ⟨hwoken, hfree, hstep⟩ := of_decide_eq_true hp
  obtain ⟨s', hs'⟩ := Option.isSome_iff_exists.mp hstep
  exact ⟨s, s', hs, hwoken, hs', (woken_queued_iff hs hwoken hs').mpr (.inr ⟨0, by decide, hfree⟩)⟩

/-! ## A lost wake-up -/

def Filled (n : ℕ) (q : Queue) : Prop :=
  (∀ i < maxThreads, q.slots i = if i < n then some i else none) ∧
    ∀ t < 601, n ≤ t → q.isInQueue t = false

instance (n : ℕ) (q : Queue) : Decidable (Filled n q) :=
  inferInstanceAs (Decidable (_ ∧ _))

lemma Filled.enqueueThread {n : ℕ} {q : Queue} (h : Filled n q) (hn : n < maxThreads) :
    Filled (n + 1) (q.enqueueThread n false).1 := by
  obtain ⟨hslots, hflags⟩ := h
  have hfind : (List.range maxThreads).find? (fun i => q.slots i = none) = some n := by
    refine List.find?_range_eq_some.mpr ⟨?_, List.mem_range.mpr hn, ?_⟩
    · rw [hslots n hn, if_neg (lt_irrefl n)]
      rfl
    · intro j hj
      rw [hslots j (hj.trans hn), if_pos hj]
      rfl
  have hflag : ¬ q.isInQueue n = true := by
    rw [hflags n (hn.trans (by decide)) le_rfl]
    exact Bool.false_ne_true
  rw [Queue.enqueueThread_of_free hflag hfind]
  refine ⟨?_, ?_⟩
  · intro i hi
    dsimp only
    rw [update_apply, hslots i hi]
    split_ifs <;> first | rfl | omega | simp [*]
  · intro t ht hnt
    have hne : t ≠ n := by omega
    exact (update_of_ne hne _ _).trans (hflags t ht (by omega))

def fill (n : ℕ) : List Event :=
  (List.range n).map fun t => .enqueueThread t false

lemma run_fill {s : State} (h : Filled 0 s.queue) {n : ℕ} (hn : n ≤ maxThreads) :
    ∃ s', system.run s (fill n) = some s' ∧ s'.sems = s.sems ∧ Filled n s'.queue := by
  induction n with
  | zero => exact ⟨s, rfl, rfl, h⟩
  | succ n ih =>
    obtain ⟨s', hrun, hsems, hfilled⟩ := ih (by omega)
    refine ⟨{ s' with queue := (s'.queue.enqueueThread n false).1 }, ?_, hsems,
      hfilled.enqueueThread (by omega)⟩
    rw [fill, List.range_succ, List.map_append, System.run_append, ← fill, hrun]
    rfl

/-- Thread 600 blocks, then 512 other threads are queued, and the signal loses
it: it is in no wait ring and in no slot. -/
theorem wakeup_lost : ∃ s s' : State, system.Reachable s ∧ (semSignal (s.sems 0)).2 = some 600 ∧
    step s (.semSignal 0) = some s' ∧ ¬ ∃ j < maxThreads, s'.queue.slots j = some 600 := by
  have hrun : (system.run quiet [.enqueueThread 600 false, .semWait 0 600]).any
      (fun s => (semSignal (s.sems 0)).2 = some 600 ∧ Filled 0 s.queue) = true := by decide +kernel
  obtain ⟨s₀, hs₀, hp⟩ := (Option.any_eq_true _ _).mp hrun
  obtain ⟨hwoken, hempty⟩ := of_decide_eq_true hp
  obtain ⟨s, hs, hsems, hfull⟩ := run_fill hempty le_rfl
  have hreach : system.Reachable s := System.Reachable.run
    (System.Reachable.run (.init initial_quiet) hs₀) hs
  have hwoken : (semSignal (s.sems 0)).2 = some 600 := by
    rw [hsems, hwoken]
  obtain ⟨s', hstep⟩ : ∃ s', step s (.semSignal 0) = some s' := by
    simp only [step]
    split <;> exact ⟨_, rfl⟩
  refine ⟨s, s', hreach, hwoken, hstep, ?_⟩
  rw [step_semSignal hwoken hstep, (consistent_of_reachable hreach).queued_iff]
  rintro (hflag | ⟨j, hj, hfree⟩)
  · rw [hfull.2 600 (by decide) (by decide)] at hflag
    cases hflag
  · rw [hfull.1 j hj, if_pos hj] at hfree
    cases hfree

end Cottage.Wakeup
