import Cottage.Scheduler.Model

/-!
# Calls on the run queue

Any number of calls of `enqueue_thread` and `scheduler_dequeue_thread` in
progress at once, each at one of its atomic steps.  The steps of
`enqueue_thread` are those of the scheduler model; `scheduler_dequeue_thread`
is added here as a call of its own, since any thread may be dequeued by any
caller.
-/

namespace Cottage.RunQueue

open Scheduler Transition

inductive DequeueCall
  | loadFlag
  | slot (i : ℕ)
  | storeFlag
  | returned (result : Bool)
  deriving DecidableEq, Repr

inductive Call
  | enqueue (k : ℕ)
  | dequeue (k : ℕ)
  deriving DecidableEq, Repr

structure State where
  sched : Scheduler.State
  dequeues : ℕ → Option DequeueCall
  target : Call → Tid

def State.setDequeue (s : State) (k : ℕ) (p : DequeueCall) : State :=
  { s with dequeues := Function.update s.dequeues k (some p) }

/-- The next atomic step of `scheduler_dequeue_thread` in call `k`.  It returns
false in the branch that did not find the thread. -/
def schedulerDequeueThread (s : State) (k : ℕ) : Option State :=
  match s.dequeues k with
  | none | some (.returned _) => none
  | some .loadFlag =>
    if s.sched.isInQueue (s.target (.dequeue k)) then some (s.setDequeue k (.slot 0))
    else some (s.setDequeue k (.returned true))
  | some (.slot i) =>
    if i < maxThreads then
      if s.sched.queue i = some (s.target (.dequeue k)) then
        some ({ s with sched := { s.sched with
          queue := Function.update s.sched.queue i none } }.setDequeue k .storeFlag)
      else some (s.setDequeue k (.slot (i + 1)))
    else some (s.setDequeue k (.returned false))
  | some .storeFlag =>
    some ({ s with sched := { s.sched with
      isInQueue := Function.update s.sched.isInQueue (s.target (.dequeue k)) false } }.setDequeue
        k (.returned true))

inductive Event
  | enqueueCall (k : ℕ) (t : Tid) (bySignal : Bool)
  | enqueue (k : ℕ)
  | dequeueCall (k : ℕ) (t : Tid)
  | dequeue (k : ℕ)
  deriving DecidableEq, Repr

def step (cpuCount : ℕ) (s : State) : Event → Option State
  | .enqueueCall k t bySignal =>
    if s.sched.calls k = none then
      some { s with
        sched := s.sched.setCall k (.loadFlag t bySignal)
        target := Function.update s.target (.enqueue k) t }
    else none
  | .enqueue k => (enqueueThread cpuCount s.sched k).map fun sched => { s with sched := sched }
  | .dequeueCall k t =>
    if s.dequeues k = none then
      some { s with
        dequeues := Function.update s.dequeues k (some .loadFlag)
        target := Function.update s.target (.dequeue k) t }
    else none
  | .dequeue k => schedulerDequeueThread s k

def State.thread (s : State) : Call → Option Tid
  | .enqueue k =>
    match s.sched.calls k with
    | none | some (.returned _) => none
    | some _ => some (s.target (.enqueue k))
  | .dequeue k =>
    match s.dequeues k with
    | none | some (.returned _) => none
    | some _ => some (s.target (.dequeue k))

/-- Calls on one thread do not overlap: a call is made only when no other call
on the same thread is in progress. -/
def NoOverlap (s : State) : Event → Prop
  | .enqueueCall _ t _ | .dequeueCall _ t => ∀ c, s.thread c ≠ some t
  | .enqueue _ | .dequeue _ => True

/-- The slots that hold `t` are the one in `o`, or none if `o` is. -/
def Placed (queue : ℕ → Option Tid) (t : Tid) (o : Option ℕ) : Prop :=
  (∀ i ∈ o, i < maxThreads) ∧ ∀ i, i < maxThreads → (queue i = some t ↔ o = some i)

section Placed

variable {queue : ℕ → Option Tid} {t : Tid} {o : Option ℕ} {i : ℕ}

lemma Placed.update_of_ne {v : Option Tid} (h : Placed queue t o) (hi : queue i ≠ some t)
    (hv : v ≠ some t) : Placed (Function.update queue i v) t o := by
  refine ⟨h.1, ?_⟩
  intro j hj
  by_cases hji : j = i
  · rw [hji, Function.update_self, ← h.2 i (hji ▸ hj)]
    exact ⟨fun hvt => absurd hvt hv, fun hit => absurd hit hi⟩
  · rw [Function.update_of_ne hji, h.2 j hj]

lemma Placed.take (h : Placed queue t none) (hi : i < maxThreads) :
    Placed (Function.update queue i (some t)) t (some i) := by
  refine ⟨fun j hj => Option.some.inj hj ▸ hi, ?_⟩
  intro j hj
  by_cases hji : j = i
  · rw [hji, Function.update_self]
    exact ⟨fun _ => rfl, fun _ => rfl⟩
  · rw [Function.update_of_ne hji, h.2 j hj]
    exact ⟨fun hnone => absurd hnone (by simp), fun hij => absurd (Option.some.inj hij).symm hji⟩

lemma Placed.eq_some (h : Placed queue t o) (hi : i < maxThreads) (hqueue : queue i = some t) :
    o = some i :=
  (h.2 i hi).mp hqueue

lemma Placed.release (h : Placed queue t (some i)) :
    Placed (Function.update queue i none) t none := by
  refine ⟨fun j hj => absurd hj (by simp), ?_⟩
  intro j hj
  by_cases hji : j = i
  · rw [hji, Function.update_self]
    exact ⟨fun hnone => absurd hnone (by simp), fun hnone => absurd hnone (by simp)⟩
  · rw [Function.update_of_ne hji, h.2 j hj]
    exact ⟨fun hij => absurd (Option.some.inj hij).symm hji, fun hnone => absurd hnone (by simp)⟩

lemma Placed.isSome_iff (h : Placed queue t o) :
    o.isSome ↔ ∃! i, i < maxThreads ∧ queue i = some t := by
  constructor
  · intro hsome
    obtain ⟨i, rfl⟩ := Option.isSome_iff_exists.mp hsome
    refine ⟨i, ⟨h.1 i rfl, (h.2 i (h.1 i rfl)).mpr rfl⟩, ?_⟩
    rintro j ⟨hj, hqueue⟩
    exact (Option.some.inj (h.eq_some hj hqueue)).symm
  · rintro ⟨i, ⟨hi, hqueue⟩, _⟩
    rw [h.eq_some hi hqueue]
    rfl

end Placed

/-- What is known of the flag and the slot of `t` when a call of
`enqueue_thread` on it has got this far. -/
def enqueueFits (t : Tid) (flag : Bool) (o : Option ℕ) : EnqueueCall → Prop
  | .loadFlag u _ => u = t ∧ flag = o.isSome
  | .storeSignal u _ | .slot u _ => u = t ∧ flag = false ∧ o = none
  | .storeFlag u => u = t ∧ flag = false ∧ o.isSome = true
  | .wake _ | .storeStartup => flag = true ∧ o.isSome = true
  | .returned _ => flag = o.isSome

/-- The same for `scheduler_dequeue_thread`; its scan has not passed the slot. -/
def dequeueFits (flag : Bool) (o : Option ℕ) : DequeueCall → Prop
  | .loadFlag => flag = o.isSome
  | .slot i => flag = true ∧ ∃ j, o = some j ∧ i ≤ j
  | .storeFlag => flag = true ∧ o = none
  | .returned result => flag = false ∧ o = none ∧ result = true

def State.Fits (s : State) (t : Tid) (o : Option ℕ) : Call → Prop
  | .enqueue k => ∀ p ∈ s.sched.calls k, enqueueFits t (s.sched.isInQueue t) o p
  | .dequeue k => ∀ p ∈ s.dequeues k, dequeueFits (s.sched.isInQueue t) o p

structure Inv (s : State) : Prop where
  unique : ∀ c c' t, s.thread c = some t → s.thread c' = some t → c = c'
  placed : ∀ t, ∃ o, Placed s.sched.queue t o ∧
    ((∀ c, s.thread c ≠ some t) → s.sched.isInQueue t = o.isSome) ∧
    ∀ c, s.thread c = some t → s.Fits t o c
  found : ∀ k, s.dequeues k ≠ some (.returned false)

def Initial (s : State) : Prop :=
  (∀ k, s.sched.calls k = none) ∧ (∀ k, s.dequeues k = none) ∧
    ∀ t, ∃ o, Placed s.sched.queue t o ∧ s.sched.isInQueue t = o.isSome

def system (cpuCount : ℕ) : System State Event where
  init := Initial
  step := step cpuCount

lemma Inv.of_initial {s : State} (h : Initial s) : Inv s := by
  obtain ⟨hcalls, hdequeues, hplaced⟩ := h
  have hthread : ∀ c, s.thread c = none := by
    intro c
    cases c with
    | enqueue k => simp only [State.thread, hcalls]
    | dequeue k => simp only [State.thread, hdequeues]
  refine ⟨?_, ?_, ?_⟩
  · intro c c' t hc _
    rw [hthread] at hc
    cases hc
  · intro t
    obtain ⟨o, ho, hflag⟩ := hplaced t
    refine ⟨o, ho, fun _ => hflag, ?_⟩
    intro c hc
    rw [hthread] at hc
    cases hc
  · intro k hk
    rw [hdequeues] at hk
    cases hk

section Moves

variable {s s' : State} {c : Call} {t : Tid}

/-- A step of the call `c` on thread `t` changes nothing that other threads or
calls depend on. -/
structure Frame (s s' : State) (c : Call) (t : Tid) : Prop where
  thread : ∀ c', c' ≠ c → s'.thread c' = s.thread c'
  fits : ∀ u o c', u ≠ t → c' ≠ c → s.Fits u o c' → s'.Fits u o c'
  flag : ∀ u, u ≠ t → s'.sched.isInQueue u = s.sched.isInQueue u
  placed : ∀ u o, u ≠ t → Placed s.sched.queue u o → Placed s'.sched.queue u o

lemma Inv.move (h : Inv s) (hc : s.thread c = some t) (hframe : Frame s s' c t)
    (hc' : s'.thread c = some t ∨ s'.thread c = none)
    (hfound : ∀ k, s'.dequeues k ≠ some (.returned false))
    (hown : ∀ o, Placed s.sched.queue t o → s.Fits t o c →
      ∃ o', Placed s'.sched.queue t o' ∧
        (s'.thread c = none → s'.sched.isInQueue t = o'.isSome) ∧ s'.Fits t o' c) : Inv s' := by
  have hback : ∀ d u, s'.thread d = some u → s.thread d = some u := by
    intro d u hd
    by_cases hdc : d = c
    · rw [hdc] at hd ⊢
      rcases hc' with hc' | hc'
      · rw [hc, ← hd, hc']
      · rw [hc'] at hd
        cases hd
    · rw [← hframe.thread d hdc, hd]
  refine ⟨?_, ?_, hfound⟩
  · intro d d' u hd hd'
    exact h.unique d d' u (hback d u hd) (hback d' u hd')
  · intro u
    obtain ⟨o, ho, hidle, hfits⟩ := h.placed u
    by_cases hut : u = t
    · subst hut
      obtain ⟨o', ho', hended, hfits'⟩ := hown o ho (hfits c hc)
      refine ⟨o', ho', ?_, ?_⟩
      · intro hnone
        apply hended
        exact hc'.resolve_left (hnone c)
      · intro d hd
        rw [h.unique d c u (hback d u hd) hc]
        exact hfits'
    · refine ⟨o, hframe.placed u o hut ho, ?_, ?_⟩
      · intro hnone
        rw [hframe.flag u hut]
        apply hidle
        intro d hd
        by_cases hdc : d = c
        · rw [hdc, hc] at hd
          exact hut (Option.some.inj hd).symm
        · exact hnone d ((hframe.thread d hdc).trans hd)
      · intro d hd
        have hdc : d ≠ c := by
          rintro rfl
          rw [hback d u hd] at hc
          exact hut (Option.some.inj hc)
        exact hframe.fits u o d hut hdc (hfits d (hback d u hd))

lemma Inv.start (h : Inv s) (hidle : ∀ c, s.thread c ≠ some t) (hnew : s'.thread c = some t)
    (hframe : Frame s s' c t) (hold : s.thread c = none) (hsched : s'.sched.queue = s.sched.queue)
    (hfound : ∀ k, s'.dequeues k ≠ some (.returned false))
    (hown : ∀ o, s.sched.isInQueue t = o.isSome → s'.Fits t o c) : Inv s' := by
  refine ⟨?_, ?_, hfound⟩
  · intro d d' u hd hd'
    by_cases hdc : d = c
    · by_cases hdc' : d' = c
      · rw [hdc, hdc']
      · rw [hdc, hnew] at hd
        rw [hframe.thread d' hdc', ← hd] at hd'
        exact absurd hd' (hidle d')
    · by_cases hdc' : d' = c
      · rw [hdc', hnew] at hd'
        rw [hframe.thread d hdc, ← hd'] at hd
        exact absurd hd (hidle d)
      · rw [hframe.thread d hdc] at hd
        rw [hframe.thread d' hdc'] at hd'
        exact h.unique d d' u hd hd'
  · intro u
    obtain ⟨o, ho, hflag, hfits⟩ := h.placed u
    refine ⟨o, hsched ▸ ho, ?_, ?_⟩
    · intro hnone
      have hut : u ≠ t := by
        rintro rfl
        exact hnone c hnew
      rw [hframe.flag u hut]
      apply hflag
      intro d hd
      by_cases hdc : d = c
      · rw [hdc, hold] at hd
        cases hd
      · exact hnone d ((hframe.thread d hdc).trans hd)
    · intro d hd
      by_cases hdc : d = c
      · rw [hdc, hnew, Option.some.injEq] at hd
        subst hd hdc
        exact hown o (hflag hidle)
      · have hold' : s.thread d = some u := (hframe.thread d hdc).symm.trans hd
        have hut : u ≠ t := by
          rintro rfl
          exact hidle d hold'
        exact hframe.fits u o d hut hdc (hfits d hold')

end Moves

end Cottage.RunQueue
