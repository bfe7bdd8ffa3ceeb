import Cottage.Scheduler.Ownership
import Cottage.Scheduler.RunQueueSteps

/-!
# A new thread that blocks at once

Thread `t` is being queued for the first time by the call `creator` of
`enqueue_thread`.  It may run on another processor as soon as the
compare-exchange has put it into a slot, and then takes itself off the queue
with the call `own` of `scheduler_dequeue_thread`, as `sem_wait` does.

`enqueue_thread` publishes the slot first and the flag later, and
`scheduler_dequeue_thread` trusts the flag.
-/

namespace Cottage.RunQueue

open Scheduler Transition Function

variable {t : Tid} {creator own : ℕ}

def Created (t : Tid) (creator own : ℕ) (s : State) : Prop :=
  (∃ bySignal, s.sched.calls creator = some (.loadFlag t bySignal)) ∧
    Placed s.sched.queue t none ∧ s.sched.isInQueue t = false ∧ s.dequeues own = none ∧
    (∀ k, k ≠ creator → ∀ p ∈ s.sched.calls k, about p ≠ some t) ∧
    ∀ k, s.dequeues k ≠ none → s.target (.dequeue k) ≠ t

/-- The thread makes its one call once it is in a slot; nobody else makes
calls on it. -/
def Allowed (t : Tid) (own : ℕ) (s : State) : Event → Prop
  | .enqueueCall _ u _ => u ≠ t
  | .dequeueCall k u => (k = own ↔ u = t) ∧ (u = t → ∃ i < maxThreads, s.sched.queue i = some t)
  | .enqueue _ | .dequeue _ => True

instance (s : State) (e : Event) : Decidable (Allowed t own s e) := by
  cases e <;> unfold Allowed <;> infer_instance

def creation (cpuCount : ℕ) (t : Tid) (creator own : ℕ) : System State Event where
  init := Created t creator own
  step s e := if Allowed t own s e then step cpuCount s e else none

def Completed (creator own : ℕ) (s : State) : Prop :=
  (∃ result, s.sched.calls creator = some (.returned result)) ∧
    ∃ result, s.dequeues own = some (.returned result)

instance (s : State) : Decidable (Completed creator own s) :=
  decidable_of_iff
    ((s.sched.calls creator = some (.returned true) ∨
        s.sched.calls creator = some (.returned false)) ∧
      (s.dequeues own = some (.returned true) ∨ s.dequeues own = some (.returned false)))
    (by simp only [Completed, Bool.exists_bool, or_comm])

def Dequeued (t : Tid) (s : State) : Prop :=
  (∀ i, i < maxThreads → s.sched.queue i ≠ some t) ∧ s.sched.isInQueue t = false

/-- `scheduler_dequeue_thread` loads the flag only when `enqueue_thread` has
stored it. -/
def FlagPublished (t : Tid) (own : ℕ) (s : State) (e : Event) : Prop :=
  e = .dequeue own → s.dequeues own = some .loadFlag → s.sched.isInQueue t = true

instance (s : State) (e : Event) : Decidable (FlagPublished t own s e) :=
  inferInstanceAs (Decidable (_ → _ → _))

/-- The flag and the slot of the thread once `enqueue_thread` has stored the
flag. -/
def publishedFits (flag : Bool) (o : Option ℕ) : Option DequeueCall → Prop
  | none => flag = true ∧ o.isSome = true
  | some d => dequeueFits flag o d ∧ (d = .loadFlag → flag = true)

/-- The same at every program point of `enqueue_thread`. -/
def creationFits (t : Tid) (flag : Bool) (o : Option ℕ) (d : Option DequeueCall) :
    EnqueueCall → Prop
  | .loadFlag u _ | .storeSignal u _ | .slot u _ => u = t ∧ flag = false ∧ o = none ∧ d = none
  | .returned false => flag = false ∧ o = none ∧ d = none
  | .storeFlag u => u = t ∧ flag = false ∧ o.isSome = true ∧ (d = none ∨ d = some .loadFlag)
  | .wake _ | .storeStartup | .returned true => publishedFits flag o d

structure Creation (t : Tid) (creator own : ℕ) (s : State) : Prop where
  calls : ∃ p o, s.sched.calls creator = some p ∧ Placed s.sched.queue t o ∧
    creationFits t (s.sched.isInQueue t) o (s.dequeues own) p
  target : s.dequeues own ≠ none → s.target (.dequeue own) = t
  others : ∀ k, k ≠ creator → ∀ p ∈ s.sched.calls k, about p ≠ some t
  others' : ∀ k, k ≠ own → s.dequeues k ≠ none → s.target (.dequeue k) ≠ t

variable {s s' : State}

lemma Creation.of_created (h : Created t creator own s) : Creation t creator own s := by
  obtain ⟨⟨bySignal, hcall⟩, hplaced, hflag, hown, hothers, hothers'⟩ := h
  refine ⟨⟨_, none, hcall, hplaced, rfl, hflag, rfl, hown⟩, ?_, hothers, fun k _ => hothers' k⟩
  exact fun hne => absurd hown hne

section Own

variable {sched sched' : Scheduler.State} {o : Option ℕ}

lemma EnqueueMove.creationFits {p p' : EnqueueCall} {d : Option DequeueCall}
    (h : EnqueueMove sched sched' p p') (hplaced : Placed sched.queue t o)
    (hfits : creationFits t (sched.isInQueue t) o d p) :
    ∃ o', Placed sched'.queue t o' ∧ creationFits t (sched'.isInQueue t) o' d p' := by
  cases h with
  | queued hflag hqueue hflags =>
    obtain ⟨rfl, hunset, -⟩ := hfits
    rw [hflag] at hunset
    cases hunset
  | unqueued _ hqueue hflags | signal hqueue hflags | occupied _ _ hqueue hflags =>
    exact ⟨o, hqueue ▸ hplaced, hflags ▸ hfits⟩
  | take hi hslot hqueue hflags =>
    obtain ⟨rfl, hflag, rfl, rfl⟩ := hfits
    exact ⟨some _, hqueue ▸ hplaced.take hi, rfl, hflags ▸ hflag, rfl, .inl rfl⟩
  | full hi hqueue hflags =>
    obtain ⟨rfl, hfits⟩ := hfits
    exact ⟨o, hqueue ▸ hplaced, hflags ▸ hfits⟩
  | flag hqueue hflags =>
    obtain ⟨rfl, -, hsome, hd⟩ := hfits
    refine ⟨o, hqueue ▸ hplaced, ?_⟩
    rw [hflags, update_self]
    rcases hd with rfl | rfl
    · exact ⟨rfl, hsome⟩
    · exact ⟨hsome.symm, fun _ => rfl⟩
  | wake hqueue hflags | woken hqueue hflags | startup hqueue hflags =>
    exact ⟨o, hqueue ▸ hplaced, hflags ▸ hfits⟩

lemma creationFits.placed_or_published {flag : Bool} {p : EnqueueCall} {d : DequeueCall}
    (hfits : RunQueue.creationFits t flag o (some d) p) :
    flag = false ∧ d = .loadFlag ∨
      publishedFits flag o (some d) ∧
        ∀ flag' o' d', publishedFits flag' o' d' → RunQueue.creationFits t flag' o' d' p := by
  cases p with
  | loadFlag u _ | storeSignal u _ | slot u _ => cases hfits.2.2.2
  | storeFlag u =>
    left
    refine ⟨hfits.2.1, ?_⟩
    rcases hfits.2.2.2 with hnone | hload
    · cases hnone
    · exact Option.some.inj hload
  | wake _ | storeStartup => exact .inr ⟨hfits, fun _ _ _ => id⟩
  | returned result =>
    cases result with
    | true => exact .inr ⟨hfits, fun _ _ _ => id⟩
    | false => cases hfits.2.2

lemma DequeueMove.publishedFits {d d' : DequeueCall} (h : DequeueMove sched sched' t d d')
    (hplaced : Placed sched.queue t o)
    (hfits : publishedFits (sched.isInQueue t) o (some d)) :
    ∃ o', Placed sched'.queue t o' ∧ publishedFits (sched'.isInQueue t) o' (some d') := by
  obtain ⟨o', hplaced', hfits'⟩ := h.fits hplaced hfits.1
  refine ⟨o', hplaced', hfits', ?_⟩
  rintro rfl
  cases h

end Own

section

variable (h : Creation t creator own s)

include h

lemma Creation.enqueue {cpuCount k : ℕ} {sched' : Scheduler.State}
    (hstep : enqueueThread cpuCount s.sched k = some sched') :
    Creation t creator own { s with sched := sched' } := by
  obtain ⟨p, p', hp, hcalls, hmove⟩ := enqueueThread_cases hstep
  obtain ⟨q, o, hq, hplaced, hfits⟩ := h.calls
  refine ⟨?_, h.target, ?_, h.others'⟩
  · by_cases hk : k = creator
    · subst hk
      obtain rfl : p = q := Option.some.inj (hp.symm.trans hq)
      obtain ⟨o', hplaced', hfits'⟩ := hmove.creationFits hplaced hfits
      refine ⟨p', o', ?_, hplaced', hfits'⟩
      rw [hcalls, update_self]
    · have habout := h.others k hk p hp
      refine ⟨q, o, ?_, hmove.placed_of_ne habout hplaced, ?_⟩
      · rw [hcalls, update_of_ne (Ne.symm hk), hq]
      · dsimp only
        rw [hmove.flag_of_ne habout]
        exact hfits
  · intro k' hk' r hr
    rw [hcalls, update_apply] at hr
    split_ifs at hr with hkk
    · rw [← Option.some.inj hr]
      exact hmove.about_ne (h.others k (hkk ▸ hk') p hp)
    · exact h.others k' hk' r hr

lemma Creation.dequeue {k : ℕ} (hok : FlagPublished t own s (.dequeue k))
    (hstep : schedulerDequeueThread s k = some s') : Creation t creator own s' := by
  obtain ⟨d, d', hd, hdequeues, hcalls, htarget, hmove⟩ := schedulerDequeueThread_cases hstep
  obtain ⟨p, o, hp, hplaced, hfits⟩ := h.calls
  have hne (k' : ℕ) (hk' : s'.dequeues k' ≠ none) : s.dequeues k' ≠ none := by
    rw [hdequeues, update_apply] at hk'
    split_ifs at hk' with hkk
    · rw [hkk, hd]
      exact fun hnone => by cases hnone
    · exact hk'
  refine ⟨?_, ?_, ?_, ?_⟩
  · by_cases hk : k = own
    · subst hk
      rw [h.target (by rw [hd]; exact fun hnone => by cases hnone)] at hmove
      rw [hd] at hfits
      rcases hfits.placed_or_published with ⟨hflag, rfl⟩ | ⟨hpublished, hback⟩
      · rw [hok rfl hd] at hflag
        cases hflag
      · obtain ⟨o', hplaced', hfits'⟩ := hmove.publishedFits hplaced hpublished
        refine ⟨p, o', hcalls ▸ hp, hplaced', hback _ _ _ ?_⟩
        rw [hdequeues, update_self]
        exact hfits'
    · have htk : t ≠ s.target (.dequeue k) := by
        apply Ne.symm
        apply h.others' k hk
        rw [hd]
        exact fun hnone => by cases hnone
      refine ⟨p, o, hcalls ▸ hp, hmove.placed_of_ne htk hplaced, ?_⟩
      rw [hmove.flag_of_ne htk, hdequeues, update_of_ne (Ne.symm hk)]
      exact hfits
  · intro hown
    rw [htarget]
    exact h.target (hne own hown)
  · rw [hcalls]
    exact h.others
  · intro k' hk' hcall
    rw [htarget]
    exact h.others' k' hk' (hne k' hcall)

lemma Creation.enqueueCall {k : ℕ} {u : Tid} {bySignal : Bool} (hnew : s.sched.calls k = none)
    (hut : u ≠ t) : Creation t creator own { s with
      sched := s.sched.setCall k (.loadFlag u bySignal)
      target := update s.target (.enqueue k) u } := by
  obtain ⟨p, o, hp, hplaced, hfits⟩ := h.calls
  have hk : creator ≠ k := by
    rintro rfl
    rw [hnew] at hp
    cases hp
  have htarget (k' : ℕ) :
      update s.target (.enqueue k) u (.dequeue k') = s.target (.dequeue k') :=
    update_of_ne (fun hcall => by cases hcall) _ _
  refine ⟨⟨p, o, ?_, hplaced, hfits⟩, ?_, ?_, ?_⟩
  · exact (update_of_ne hk _ _).trans hp
  · exact fun hown => (htarget own).trans (h.target hown)
  · intro k' hk' q hq
    have hq : update s.sched.calls k (some (.loadFlag u bySignal)) k' = some q := hq
    rw [update_apply] at hq
    split_ifs at hq with hkk
    · rw [← Option.some.inj hq]
      exact fun htu => hut (Option.some.inj htu)
    · exact h.others k' hk' q hq
  · exact fun k' hk' hcall => (htarget k').symm ▸ h.others' k' hk' hcall

lemma Creation.dequeueCall {k : ℕ} {u : Tid} (hnew : s.dequeues k = none)
    (hown : k = own ↔ u = t) (hslot : u = t → ∃ i < maxThreads, s.sched.queue i = some t) :
    Creation t creator own { s with
      dequeues := update s.dequeues k (some .loadFlag)
      target := update s.target (.dequeue k) u } := by
  obtain ⟨p, o, hp, hplaced, hfits⟩ := h.calls
  have htarget (k' : ℕ) (hk' : k' ≠ k) :
      update s.target (.dequeue k) u (.dequeue k') = s.target (.dequeue k') := by
    apply update_of_ne
    rintro ⟨⟩
    exact hk' rfl
  refine ⟨⟨p, o, hp, hplaced, ?_⟩, ?_, h.others, ?_⟩
  · by_cases hk : k = own
    · subst hk
      obtain ⟨i, hi, hqueue⟩ := hslot (hown.mp rfl)
      have ho := hplaced.eq_some hi hqueue
      subst ho
      rw [hnew] at hfits
      dsimp only
      rw [update_self]
      cases p with
      | loadFlag _ _ | storeSignal _ _ | slot _ _ => cases hfits.2.2.1
      | storeFlag _ => exact ⟨hfits.1, hfits.2.1, rfl, .inr rfl⟩
      | wake _ | storeStartup => exact ⟨hfits.1, fun _ => hfits.1⟩
      | returned result =>
        cases result with
        | true => exact ⟨hfits.1, fun _ => hfits.1⟩
        | false => cases hfits.2.1
    · dsimp only
      rw [update_of_ne (Ne.symm hk)]
      exact hfits
  · intro hcall
    dsimp only at hcall ⊢
    by_cases hk : k = own
    · rw [← hk, update_self]
      exact hown.mp hk
    · rw [update_of_ne (Ne.symm hk)] at hcall
      rw [htarget own (Ne.symm hk)]
      exact h.target hcall
  · intro k' hk' hcall
    dsimp only at hcall ⊢
    by_cases hkk : k' = k
    · rw [hkk, update_self]
      exact fun hut => hk' (hkk.trans (hown.mpr hut))
    · rw [update_of_ne hkk] at hcall
      rw [htarget k' hkk]
      exact h.others' k' hk' hcall

lemma Creation.step {cpuCount : ℕ} {e : Event} (hok : FlagPublished t own s e)
    (hstep : (creation cpuCount t creator own).step s e = some s') : Creation t creator own s' := by
  simp only [creation] at hstep
  split_ifs at hstep with hallowed
  cases e with
  | enqueueCall k u bySignal =>
    simp only [RunQueue.step] at hstep
    split_ifs at hstep with hnew
    rw [Option.some.injEq] at hstep
    exact hstep ▸ h.enqueueCall hnew hallowed
  | enqueue k =>
    obtain ⟨sched', hsched, rfl⟩ := Option.map_eq_some_iff.mp hstep
    exact h.enqueue hsched
  | dequeueCall k u =>
    simp only [RunQueue.step] at hstep
    split_ifs at hstep with hnew
    rw [Option.some.injEq] at hstep
    exact hstep ▸ h.dequeueCall hnew hallowed.1 hallowed.2
  | dequeue k => exact h.dequeue hok hstep

end

/-! ## When both calls have returned -/

lemma Creation.dequeued (h : Creation t creator own s) (hdone : Completed creator own s) :
    Dequeued t s := by
  obtain ⟨p, o, hp, hplaced, hfits⟩ := h.calls
  obtain ⟨⟨result, hcall⟩, result', hdequeue⟩ := hdone
  obtain rfl := Option.some.inj (hcall.symm.trans hp)
  rw [hdequeue] at hfits
  cases result with
  | false => cases hfits.2.2
  | true =>
    obtain ⟨⟨hflag, rfl, -⟩, -⟩ := hfits
    refine ⟨?_, hflag⟩
    intro i hi hqueue
    cases hplaced.eq_some hi hqueue

/-- A new thread that takes itself off the queue is off the queue when both
calls have returned, in every interleaving in which its call loads the flag
after the creator has stored it. -/
theorem dequeued_of_flagPublished {cpuCount : ℕ}
    (h : (creation cpuCount t creator own).ReachableVia (FlagPublished t own) s)
    (hdone : Completed creator own s) : Dequeued t s := by
  have hinv : Creation t creator own s := h.invariant (fun _ => .of_created)
    fun _ _ _ hinv hok hstep => hinv.step hok hstep
  exact hinv.dequeued hdone

def sevenCreated : State where
  sched := queuedTwo.setCall 0 (.loadFlag 7 false)
  dequeues _ := none
  target _ := 7

lemma created_sevenCreated : Created 7 0 0 sevenCreated := by
  have hslot (i : ℕ) : sevenCreated.sched.queue i = if i < 2 then some i else none := rfl
  refine ⟨⟨false, rfl⟩, ⟨fun i hi => (by cases hi), ?_⟩, rfl, rfl, ?_, fun _ hne => absurd rfl hne⟩
  · intro i _
    rw [hslot]
    constructor
    · intro hi
      split_ifs at hi with hlt
      rw [Option.some.inj hi] at hlt
      exact absurd hlt (by decide)
    · intro hnone
      cases hnone
  · intro k hk p hp
    have hp : update queuedTwo.calls 0 (some (.loadFlag 7 false)) k = some p := hp
    rw [update_of_ne hk] at hp
    cases hp

theorem dequeued_after_both : ∃ s,
    (creation 1 7 0 0).ReachableVia (FlagPublished 7 0) s ∧ Completed 0 0 s ∧ Dequeued 7 s := by
  have hrun : (((creation 1 7 0 0).guard (FlagPublished 7 0)).run sevenCreated
      (List.replicate 9 (.enqueue 0) ++ .dequeueCall 0 7 :: List.replicate 5 (.dequeue 0))).any
      (fun s => Completed 0 0 s) = true := by decide +kernel
  obtain ⟨s, hs, hdone⟩ := System.Reachable.exists_of_run_any (.init created_sevenCreated) _ _ hrun
  have hvia := System.reachableVia_of_guard hs
  have hdone := of_decide_eq_true hdone
  exact ⟨s, hvia, hdone, dequeued_of_flagPublished hvia hdone⟩

/-- The thread's call falls between the compare-exchange and the store of the
flag: it returns at once and the thread stays queued. -/
def dequeueBeforeFlag : List Event :=
  List.replicate 5 (.enqueue 0) ++ [.dequeueCall 0 7, .dequeue 0] ++ List.replicate 4 (.enqueue 0)

theorem still_queued_after_dequeue : ∃ s,
    (creation 1 7 0 0).Reachable s ∧ Completed 0 0 s ∧ ¬ Dequeued 7 s := by
  have hrun : ((creation 1 7 0 0).run sevenCreated dequeueBeforeFlag).any
      (fun s => Completed 0 0 s ∧ s.sched.isInQueue 7 = true) = true := by decide +kernel
  obtain ⟨s, hs, hstuck⟩ := System.Reachable.exists_of_run_any (.init created_sevenCreated) _ _ hrun
  obtain ⟨hdone, hflag⟩ := of_decide_eq_true hstuck
  refine ⟨s, hs, hdone, ?_⟩
  rintro ⟨-, hunset⟩
  rw [hflag] at hunset
  cases hunset

end Cottage.RunQueue
