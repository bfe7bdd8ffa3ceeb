import Cottage.Scheduler.Ownership
import Cottage.Scheduler.RunQueueSteps

/-!
# Integrity of the run queue

The invariant is carried through all interleavings in which calls on one
thread do not overlap: a step of the only call in progress on a thread moves
the thread from one line of `enqueueFits` or `dequeueFits` to the next, and
leaves all other threads where they are.
-/

namespace Cottage.RunQueue

open Scheduler Transition Function

section Step

variable {s s' : State} {k : ℕ} {t : Tid}

lemma thread_enqueue {p : EnqueueCall} (hp : s.sched.calls k = some p)
    (hreturned : ∀ result, p ≠ .returned result) :
    s.thread (.enqueue k) = some (s.target (.enqueue k)) := by
  cases p with
  | returned result => exact absurd rfl (hreturned result)
  | _ => simp only [State.thread, hp]

lemma thread_enqueue_returned {result : Bool} (hp : s.sched.calls k = some (.returned result)) :
    s.thread (.enqueue k) = none := by
  simp only [State.thread, hp]

lemma thread_dequeue {p : DequeueCall} (hp : s.dequeues k = some p)
    (hreturned : ∀ result, p ≠ .returned result) :
    s.thread (.dequeue k) = some (s.target (.dequeue k)) := by
  cases p with
  | returned result => exact absurd rfl (hreturned result)
  | _ => simp only [State.thread, hp]

lemma thread_dequeue_returned {result : Bool} (hp : s.dequeues k = some (.returned result)) :
    s.thread (.dequeue k) = none := by
  simp only [State.thread, hp]

lemma frame_enqueue {p : EnqueueCall} (hcalls : s'.sched.calls = update s.sched.calls k (some p))
    (hdequeues : s'.dequeues = s.dequeues)
    (htarget : ∀ c, c ≠ .enqueue k → s'.target c = s.target c)
    (hflag : ∀ u, u ≠ t → s'.sched.isInQueue u = s.sched.isInQueue u)
    (hplaced : ∀ u o, u ≠ t → Placed s.sched.queue u o → Placed s'.sched.queue u o) :
    Frame s s' (.enqueue k) t := by
  have hcall (k' : ℕ) (hk : Call.enqueue k' ≠ .enqueue k) :
      s'.sched.calls k' = s.sched.calls k' := by
    rw [hcalls]
    apply update_of_ne
    rintro rfl
    exact hk rfl
  refine ⟨?_, ?_, hflag, hplaced⟩
  · intro c hc
    cases c with
    | enqueue k' => simp only [State.thread, hcall k' hc, htarget _ hc]
    | dequeue k' => simp only [State.thread, hdequeues, htarget _ hc]
  · intro u o c hut hc hfits
    cases c with
    | enqueue k' => simpa only [State.Fits, hcall k' hc, hflag u hut] using hfits
    | dequeue k' => simpa only [State.Fits, hdequeues, hflag u hut] using hfits

lemma frame_dequeue {p : DequeueCall} (hdequeues : s'.dequeues = update s.dequeues k (some p))
    (hcalls : s'.sched.calls = s.sched.calls)
    (htarget : ∀ c, c ≠ .dequeue k → s'.target c = s.target c)
    (hflag : ∀ u, u ≠ t → s'.sched.isInQueue u = s.sched.isInQueue u)
    (hplaced : ∀ u o, u ≠ t → Placed s.sched.queue u o → Placed s'.sched.queue u o) :
    Frame s s' (.dequeue k) t := by
  have hcall (k' : ℕ) (hk : Call.dequeue k' ≠ .dequeue k) : s'.dequeues k' = s.dequeues k' := by
    rw [hdequeues]
    apply update_of_ne
    rintro rfl
    exact hk rfl
  refine ⟨?_, ?_, hflag, hplaced⟩
  · intro c hc
    cases c with
    | enqueue k' => simp only [State.thread, hcalls, htarget _ hc]
    | dequeue k' => simp only [State.thread, hcall k' hc, htarget _ hc]
  · intro u o c hut hc hfits
    cases c with
    | enqueue k' => simpa only [State.Fits, hcalls, hflag u hut] using hfits
    | dequeue k' => simpa only [State.Fits, hcall k' hc, hflag u hut] using hfits

lemma EnqueueMove.not_returned {s s' : Scheduler.State} {p p' : EnqueueCall}
    (h : EnqueueMove s s' p p') (result : Bool) : p ≠ .returned result := by
  cases h <;> simp

lemma DequeueMove.not_returned {s s' : Scheduler.State} {p p' : DequeueCall}
    (h : DequeueMove s s' t p p') (result : Bool) : p ≠ .returned result := by
  cases h <;> simp

lemma Inv.enqueue {cpuCount : ℕ} {sched' : Scheduler.State} (h : Inv s)
    (hstep : enqueueThread cpuCount s.sched k = some sched') : Inv { s with sched := sched' } := by
  obtain ⟨p, p', hp, hcalls, hmove⟩ := enqueueThread_cases hstep
  have hthread := thread_enqueue hp hmove.not_returned
  obtain ⟨o, -, -, hfits⟩ := h.placed (s.target (.enqueue k))
  have hfits : enqueueFits _ _ o p := hfits _ hthread p hp
  have hp' : sched'.calls k = some p' := by rw [hcalls, update_self]
  apply h.move hthread
  · exact frame_enqueue hcalls rfl (fun _ _ => rfl)
      (fun u hut => hmove.flag_of_ne (about_ne_of_fits hfits hut))
      fun u o hut => hmove.placed_of_ne (about_ne_of_fits hfits hut)
  · by_cases hreturned : ∃ result, p' = .returned result
    · obtain ⟨result, rfl⟩ := hreturned
      exact .inr (thread_enqueue_returned hp')
    · exact .inl (thread_enqueue hp' fun result hresult => hreturned ⟨result, hresult⟩)
  · exact h.found
  · intro o hplaced hfits
    obtain ⟨o', hplaced', hfits'⟩ := hmove.fits hplaced (hfits p hp)
    refine ⟨o', hplaced', ?_, ?_⟩
    · intro hended
      cases p' with
      | returned result => exact hfits'
      | _ =>
        rw [thread_enqueue hp' (by simp)] at hended
        cases hended
    · intro q hq
      obtain rfl : p' = q := Option.some.inj (hp'.symm.trans hq)
      exact hfits'

lemma Inv.dequeue (h : Inv s) (hstep : schedulerDequeueThread s k = some s') : Inv s' := by
  obtain ⟨p, p', hp, hdequeues, hcalls, htarget, hmove⟩ := schedulerDequeueThread_cases hstep
  have hthread := thread_dequeue hp hmove.not_returned
  obtain ⟨o, hplaced, -, hfits⟩ := h.placed (s.target (.dequeue k))
  obtain ⟨o', -, hfits'⟩ := hmove.fits hplaced (hfits _ hthread p hp)
  have hp' : s'.dequeues k = some p' := by rw [hdequeues, update_self]
  apply h.move hthread
  · exact frame_dequeue hdequeues hcalls (fun _ _ => congrFun htarget _)
      (fun u => hmove.flag_of_ne) fun u o => hmove.placed_of_ne
  · by_cases hreturned : ∃ result, p' = .returned result
    · obtain ⟨result, rfl⟩ := hreturned
      exact .inr (thread_dequeue_returned hp')
    · refine .inl ?_
      rw [thread_dequeue hp' fun result hresult => hreturned ⟨result, hresult⟩, htarget]
  · intro k' hk'
    rw [hdequeues, update_apply] at hk'
    split_ifs at hk' with hkk
    · rw [Option.some.inj hk'] at hfits'
      cases hfits'.2.2
    · exact h.found k' hk'
  · intro o hplaced hfits
    obtain ⟨o', hplaced', hfits'⟩ := hmove.fits hplaced (hfits p hp)
    refine ⟨o', hplaced', ?_, ?_⟩
    · intro hended
      cases p' with
      | returned result => rw [hfits'.1, hfits'.2.1, Option.isSome_none]
      | _ =>
        rw [thread_dequeue hp' (by simp)] at hended
        cases hended
    · intro q hq
      obtain rfl : p' = q := Option.some.inj (hp'.symm.trans hq)
      exact hfits'

lemma Inv.enqueueCall (h : Inv s) {bySignal : Bool} (hnew : s.sched.calls k = none)
    (hidle : ∀ c, s.thread c ≠ some t) : Inv { s with
      sched := s.sched.setCall k (.loadFlag t bySignal)
      target := update s.target (.enqueue k) t } := by
  have hp : (s.sched.setCall k (.loadFlag t bySignal)).calls k = some (.loadFlag t bySignal) :=
    update_self _ _ _
  apply h.start (c := .enqueue k) hidle
  · rw [thread_enqueue hp (by simp)]
    exact congrArg some (update_self _ _ _)
  · exact frame_enqueue rfl rfl (fun _ hc => update_of_ne hc _ _) (fun _ _ => rfl)
      fun _ _ _ => id
  · simp only [State.thread, hnew]
  · rfl
  · exact h.found
  · intro o hflag q hq
    cases hp.symm.trans hq
    exact ⟨rfl, hflag⟩

lemma Inv.dequeueCall (h : Inv s) (hnew : s.dequeues k = none)
    (hidle : ∀ c, s.thread c ≠ some t) : Inv { s with
      dequeues := update s.dequeues k (some .loadFlag)
      target := update s.target (.dequeue k) t } := by
  have hp : update s.dequeues k (some .loadFlag) k = some .loadFlag :=
    update_self _ _ _
  apply h.start (c := .dequeue k) hidle
  · rw [thread_dequeue hp (by simp)]
    exact congrArg some (update_self _ _ _)
  · exact frame_dequeue rfl rfl (fun _ hc => update_of_ne hc _ _) (fun _ _ => rfl)
      fun _ _ _ => id
  · simp only [State.thread, hnew]
  · rfl
  · intro k' hk'
    dsimp only at hk'
    rw [update_apply] at hk'
    split_ifs at hk' with hkk
    · cases hk'
    · exact h.found k' hk'
  · intro o hflag q hq
    cases hp.symm.trans hq
    exact hflag

lemma Inv.step {cpuCount : ℕ} {e : Event} (h : Inv s) (hok : NoOverlap s e)
    (hstep : step cpuCount s e = some s') : Inv s' := by
  cases e with
  | enqueueCall k t bySignal =>
    simp only [RunQueue.step] at hstep
    split_ifs at hstep with hnew
    rw [Option.some.injEq] at hstep
    exact hstep ▸ h.enqueueCall hnew hok
  | enqueue k =>
    obtain ⟨sched', hsched, rfl⟩ := Option.map_eq_some_iff.mp hstep
    exact h.enqueue hsched
  | dequeueCall k t =>
    simp only [RunQueue.step] at hstep
    split_ifs at hstep with hnew
    rw [Option.some.injEq] at hstep
    exact hstep ▸ h.dequeueCall hnew hok
  | dequeue k => exact h.dequeue hstep

end Step

/-- The run queue as calls on different threads leave it.  A thread has at
most one slot; a slot is given up only by a `scheduler_dequeue_thread` on the
thread it holds; the flag of a thread with no call in progress says whether it
has a slot; `enqueue_thread` fails only for a thread left without a slot; and
no `scheduler_dequeue_thread` fails. -/
structure Integrity (cpuCount : ℕ) (s : State) : Prop where
  one_slot : ∀ t i j, i < maxThreads → j < maxThreads →
    s.sched.queue i = some t → s.sched.queue j = some t → i = j
  kept : ∀ e s', step cpuCount s e = some s' → ∀ i u, s.sched.queue i = some u →
    s'.sched.queue i = some u ∨ ∃ k, e = .dequeue k ∧ s.thread (.dequeue k) = some u
  flag_iff : ∀ t, (∀ c, s.thread c ≠ some t) →
    (s.sched.isInQueue t = true ↔ ∃! i, i < maxThreads ∧ s.sched.queue i = some t)
  failed : ∀ k s', step cpuCount s (.enqueue k) = some s' →
    s'.sched.calls k = some (.returned false) →
    ∀ i, i < maxThreads → s'.sched.queue i ≠ some (s.target (.enqueue k))
  found : ∀ k, s.dequeues k ≠ some (.returned false)

section Integrity

variable {cpuCount : ℕ} {s s' : State}

lemma Inv.one_slot (h : Inv s) {t : Tid} {i j : ℕ} (hi : i < maxThreads) (hj : j < maxThreads)
    (hit : s.sched.queue i = some t) (hjt : s.sched.queue j = some t) : i = j := by
  obtain ⟨o, hplaced, -⟩ := h.placed t
  exact Option.some.inj ((hplaced.eq_some hi hit).symm.trans (hplaced.eq_some hj hjt))

lemma kept_of_step {e : Event} (hstep : step cpuCount s e = some s') {i : ℕ} {u : Tid}
    (hi : s.sched.queue i = some u) :
    s'.sched.queue i = some u ∨ ∃ k, e = .dequeue k ∧ s.thread (.dequeue k) = some u := by
  cases e with
  | enqueueCall k t bySignal =>
    simp only [step] at hstep
    split_ifs at hstep
    rw [Option.some.injEq] at hstep
    exact .inl (hstep ▸ hi)
  | enqueue k =>
    obtain ⟨sched', hsched, rfl⟩ := Option.map_eq_some_iff.mp hstep
    obtain ⟨p, p', -, -, hmove⟩ := enqueueThread_cases hsched
    left
    cases hmove with
    | @take t j hj hslot hqueue =>
      have hij : i ≠ j := by
        rintro rfl
        rw [hslot] at hi
        cases hi
      rw [hqueue, update_of_ne hij, hi]
    | _ => simp only [*]
  | dequeueCall k t =>
    simp only [step] at hstep
    split_ifs at hstep
    rw [Option.some.injEq] at hstep
    exact .inl (hstep ▸ hi)
  | dequeue k =>
    obtain ⟨p, p', hp, -, -, -, hmove⟩ := schedulerDequeueThread_cases hstep
    by_cases hu : s.target (.dequeue k) = u
    · exact .inr ⟨k, rfl, (thread_dequeue hp hmove.not_returned).trans (congrArg some hu)⟩
    · left
      cases hmove with
      | @release j hj hslot hqueue =>
        have hij : i ≠ j := by
          rintro rfl
          exact hu (Option.some.inj (hslot.symm.trans hi))
        rw [hqueue, update_of_ne hij, hi]
      | _ => simp only [*]

lemma Inv.not_queued_of_failed (h : Inv s) {k : ℕ}
    (hstep : RunQueue.step cpuCount s (.enqueue k) = some s')
    (hfailed : s'.sched.calls k = some (.returned false)) {i : ℕ} (hi : i < maxThreads) :
    s'.sched.queue i ≠ some (s.target (.enqueue k)) := by
  obtain ⟨sched', hsched, rfl⟩ := Option.map_eq_some_iff.mp hstep
  obtain ⟨p, p', hp, hcalls, hmove⟩ := enqueueThread_cases hsched
  obtain ⟨o, hplaced, -, hfits⟩ := h.placed (s.target (.enqueue k))
  have hfits : enqueueFits _ _ o p := hfits _ (thread_enqueue hp hmove.not_returned) p hp
  have hp' : p' = .returned false := by
    rw [hcalls, update_self] at hfailed
    exact Option.some.inj hfailed
  subst hp'
  intro hqueue
  cases hmove with
  | full _ hsame _ =>
    obtain ⟨-, -, rfl⟩ := hfits
    rw [hsame] at hqueue
    cases hplaced.eq_some hi hqueue

/-- Integrity of the run queue in every interleaving in which calls on one
thread do not overlap. -/
theorem run_queue_integrity (h : (system cpuCount).ReachableVia NoOverlap s) :
    Integrity cpuCount s := by
  have hinv : Inv s := h.invariant (fun _ => .of_initial) fun _ _ _ hinv hok hstep =>
    hinv.step hok hstep
  refine ⟨?_, ?_, ?_, ?_, hinv.found⟩
  · intro t i j hi hj hit hjt
    exact hinv.one_slot hi hj hit hjt
  · intro e s' hstep i u hi
    exact kept_of_step hstep hi
  · intro t hidle
    obtain ⟨o, hplaced, hflag, -⟩ := hinv.placed t
    rw [hflag hidle, hplaced.isSome_iff]
  · intro k s' hstep hfailed i hi
    exact hinv.not_queued_of_failed hstep hfailed hi

end Integrity

def twoQueued : State where
  sched := queuedTwo
  dequeues _ := none
  target _ := 0

lemma initial_twoQueued : Initial twoQueued := by
  refine ⟨fun _ => rfl, fun _ => rfl, ?_⟩
  intro (t : ℕ)
  have hslot (i : ℕ) : queuedTwo.queue i = some t ↔ i < 2 ∧ i = t := by
    simp only [queuedTwo, Option.ite_none_right_eq_some, Option.some.injEq]
  by_cases ht : t < 2
  · refine ⟨some t, ⟨?_, ?_⟩, decide_eq_true ht⟩
    · intro i hi
      rw [← Option.some.inj hi]
      exact Nat.lt_trans ht (by decide)
    · intro i _
      rw [show twoQueued.sched = queuedTwo from rfl, hslot, Option.some.injEq]
      omega
  · refine ⟨none, ⟨?_, ?_⟩, decide_eq_false ht⟩
    · intro i hi
      cases hi
    · intro i _
      rw [show twoQueued.sched = queuedTwo from rfl, hslot]
      constructor
      · omega
      · intro hnone
        cases hnone

theorem run_queue_integrity_of_enqueue : ∃ s, (system 1).ReachableVia NoOverlap s ∧
    s.sched.queue 2 = some 7 ∧ Integrity 1 s := by
  have hcall : (system 1).ReachableVia NoOverlap { twoQueued with
      sched := queuedTwo.setCall 0 (.loadFlag 7 false)
      target := update twoQueued.target (.enqueue 0) 7 } :=
    .step (a := .enqueueCall 0 7 false) (.init initial_twoQueued)
      (fun c => by cases c <;> simp [State.thread, twoQueued, queuedTwo]) rfl
  have hrun : ((system 1).run { twoQueued with
      sched := queuedTwo.setCall 0 (.loadFlag 7 false)
      target := update twoQueued.target (.enqueue 0) 7 }
      (List.replicate 5 (.enqueue 0))).any (fun s => s.sched.queue 2 = some 7) = true := by decide
  obtain ⟨s, hs, hslot⟩ := (Option.any_eq_true _ _).mp hrun
  have hvia := System.ReachableVia.run (P := fun _ => True) (A := fun e => e = .enqueue 0) hcall
    trivial (fun _ _ _ _ _ _ => trivial) (fun _ _ he _ => he ▸ trivial)
    (fun _ he => List.eq_of_mem_replicate he) hs
  exact ⟨s, hvia.1, of_decide_eq_true hslot, run_queue_integrity hvia.1⟩

end Cottage.RunQueue
