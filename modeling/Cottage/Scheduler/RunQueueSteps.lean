import Cottage.Scheduler.RunQueue

/-!
# The steps of calls on the run queue

Each atomic step of `enqueue_thread` and `scheduler_dequeue_thread` is listed
once, with what it finds and what it changes.  From the list follow what a step
does to the thread it is about and that it does nothing to other threads.
-/

namespace Cottage.RunQueue

open Scheduler Transition Function

/-- One step of `enqueue_thread` from one program point to the next. -/
inductive EnqueueMove (s s' : Scheduler.State) : EnqueueCall → EnqueueCall → Prop
  | queued {t : Tid} {bySignal : Bool} (hflag : s.isInQueue t = true)
      (hqueue : s'.queue = s.queue) (hflags : s'.isInQueue = s.isInQueue) :
      EnqueueMove s s' (.loadFlag t bySignal) (.returned true)
  | unqueued {t : Tid} {bySignal : Bool} (hflag : s.isInQueue t = false)
      (hqueue : s'.queue = s.queue) (hflags : s'.isInQueue = s.isInQueue) :
      EnqueueMove s s' (.loadFlag t bySignal) (.storeSignal t bySignal)
  | signal {t : Tid} {bySignal : Bool}
      (hqueue : s'.queue = s.queue) (hflags : s'.isInQueue = s.isInQueue) :
      EnqueueMove s s' (.storeSignal t bySignal) (.slot t 0)
  | occupied {t : Tid} {i : ℕ} (hi : i < maxThreads) (hslot : s.queue i ≠ none)
      (hqueue : s'.queue = s.queue) (hflags : s'.isInQueue = s.isInQueue) :
      EnqueueMove s s' (.slot t i) (.slot t (i + 1))
  | take {t : Tid} {i : ℕ} (hi : i < maxThreads) (hslot : s.queue i = none)
      (hqueue : s'.queue = update s.queue i (some t))
      (hflags : s'.isInQueue = s.isInQueue) :
      EnqueueMove s s' (.slot t i) (.storeFlag t)
  | full {t : Tid} {i : ℕ} (hi : ¬ i < maxThreads)
      (hqueue : s'.queue = s.queue) (hflags : s'.isInQueue = s.isInQueue) :
      EnqueueMove s s' (.slot t i) (.returned false)
  | flag {t : Tid} (hqueue : s'.queue = s.queue)
      (hflags : s'.isInQueue = update s.isInQueue t true) :
      EnqueueMove s s' (.storeFlag t) (.wake 0)
  | wake {i j : ℕ} (hqueue : s'.queue = s.queue) (hflags : s'.isInQueue = s.isInQueue) :
      EnqueueMove s s' (.wake i) (.wake j)
  | woken {i : ℕ} (hqueue : s'.queue = s.queue) (hflags : s'.isInQueue = s.isInQueue) :
      EnqueueMove s s' (.wake i) .storeStartup
  | startup (hqueue : s'.queue = s.queue) (hflags : s'.isInQueue = s.isInQueue) :
      EnqueueMove s s' .storeStartup (.returned true)

lemma enqueueThread_cases {cpuCount k : ℕ} {s s' : Scheduler.State}
    (h : enqueueThread cpuCount s k = some s') :
    ∃ p p', s.calls k = some p ∧ s'.calls = update s.calls k (some p') ∧
      EnqueueMove s s' p p' := by
  unfold enqueueThread at h
  cases hcall : s.calls k with
  | none => simp [hcall] at h
  | some p =>
    simp only [hcall] at h
    cases p with
    | returned result => simp at h
    | loadFlag t bySignal =>
      dsimp only at h
      split_ifs at h with hflag
      · cases h
        exact ⟨_, _, rfl, rfl, .queued hflag rfl rfl⟩
      · cases h
        exact ⟨_, _, rfl, rfl, .unqueued (Bool.eq_false_iff.mpr hflag) rfl rfl⟩
    | storeSignal t bySignal =>
      cases h
      exact ⟨_, _, rfl, rfl, .signal rfl rfl⟩
    | slot t i =>
      dsimp only at h
      split_ifs at h with hi hslot
      · cases h
        exact ⟨_, _, rfl, rfl, .take hi hslot rfl rfl⟩
      · cases h
        exact ⟨_, _, rfl, rfl, .occupied hi hslot rfl rfl⟩
      · cases h
        exact ⟨_, _, rfl, rfl, .full hi rfl rfl⟩
    | storeFlag t =>
      cases h
      exact ⟨_, _, rfl, rfl, .flag rfl rfl⟩
    | wake i =>
      dsimp only at h
      split_ifs at h
      · cases h
        exact ⟨_, _, rfl, rfl, .woken rfl rfl⟩
      · cases h
        exact ⟨_, _, rfl, rfl, .wake rfl rfl⟩
      · cases h
        exact ⟨_, _, rfl, rfl, .woken rfl rfl⟩
    | storeStartup =>
      cases h
      exact ⟨_, _, rfl, rfl, .startup rfl rfl⟩

/-- One step of `scheduler_dequeue_thread` on thread `t`. -/
inductive DequeueMove (s s' : Scheduler.State) (t : Tid) : DequeueCall → DequeueCall → Prop
  | queued (hflag : s.isInQueue t = true)
      (hqueue : s'.queue = s.queue) (hflags : s'.isInQueue = s.isInQueue) :
      DequeueMove s s' t .loadFlag (.slot 0)
  | unqueued (hflag : s.isInQueue t = false)
      (hqueue : s'.queue = s.queue) (hflags : s'.isInQueue = s.isInQueue) :
      DequeueMove s s' t .loadFlag (.returned true)
  | other {i : ℕ} (hi : i < maxThreads) (hslot : s.queue i ≠ some t)
      (hqueue : s'.queue = s.queue) (hflags : s'.isInQueue = s.isInQueue) :
      DequeueMove s s' t (.slot i) (.slot (i + 1))
  | release {i : ℕ} (hi : i < maxThreads) (hslot : s.queue i = some t)
      (hqueue : s'.queue = update s.queue i none)
      (hflags : s'.isInQueue = s.isInQueue) :
      DequeueMove s s' t (.slot i) .storeFlag
  | notFound {i : ℕ} (hi : ¬ i < maxThreads)
      (hqueue : s'.queue = s.queue) (hflags : s'.isInQueue = s.isInQueue) :
      DequeueMove s s' t (.slot i) (.returned false)
  | flag (hqueue : s'.queue = s.queue) (hflags : s'.isInQueue = update s.isInQueue t false) :
      DequeueMove s s' t .storeFlag (.returned true)

lemma schedulerDequeueThread_cases {k : ℕ} {s s' : State}
    (h : schedulerDequeueThread s k = some s') :
    ∃ p p', s.dequeues k = some p ∧ s'.dequeues = update s.dequeues k (some p') ∧
      s'.sched.calls = s.sched.calls ∧ s'.target = s.target ∧
      DequeueMove s.sched s'.sched (s.target (.dequeue k)) p p' := by
  unfold schedulerDequeueThread at h
  cases hcall : s.dequeues k with
  | none => simp [hcall] at h
  | some p =>
    simp only [hcall] at h
    cases p with
    | returned result => simp at h
    | loadFlag =>
      dsimp only at h
      split_ifs at h with hflag
      · cases h
        exact ⟨_, _, rfl, rfl, rfl, rfl, .queued hflag rfl rfl⟩
      · cases h
        exact ⟨_, _, rfl, rfl, rfl, rfl, .unqueued (Bool.eq_false_iff.mpr hflag) rfl rfl⟩
    | slot i =>
      dsimp only at h
      split_ifs at h with hi hslot
      · cases h
        exact ⟨_, _, rfl, rfl, rfl, rfl, .release hi hslot rfl rfl⟩
      · cases h
        exact ⟨_, _, rfl, rfl, rfl, rfl, .other hi hslot rfl rfl⟩
      · cases h
        exact ⟨_, _, rfl, rfl, rfl, rfl, .notFound hi rfl rfl⟩
    | storeFlag =>
      cases h
      exact ⟨_, _, rfl, rfl, rfl, rfl, .flag rfl rfl⟩

/-- The thread whose slot and flag the rest of a call of `enqueue_thread` may
still change. -/
def about : EnqueueCall → Option Tid
  | .loadFlag t _ | .storeSignal t _ | .slot t _ | .storeFlag t => some t
  | .wake _ | .storeStartup | .returned _ => none

section Moves

variable {s s' : Scheduler.State} {t u : Tid} {o : Option ℕ}

variable {p p' : EnqueueCall}

lemma about_ne_of_fits {flag : Bool} (hfits : enqueueFits t flag o p) (hut : u ≠ t) :
    about p ≠ some u := by
  intro hu
  cases p with
  | loadFlag v _ | storeSignal v _ | slot v _ | storeFlag v =>
    exact hut ((Option.some.inj hu).symm.trans hfits.1)
  | wake _ | storeStartup | returned _ => cases hu

section

variable (h : EnqueueMove s s' p p') (hu : about p ≠ some u)

include h hu

lemma EnqueueMove.about_ne : about p' ≠ some u := by
  cases h with
  | unqueued | signal | occupied | take => exact hu
  | _ => exact fun hnone => by cases hnone

lemma EnqueueMove.flag_of_ne : s'.isInQueue u = s.isInQueue u := by
  cases h with
  | flag _ hflags =>
    rw [hflags]
    apply update_of_ne
    rintro rfl
    exact hu rfl
  | _ => simp only [*]

lemma EnqueueMove.placed_of_ne (hplaced : Placed s.queue u o) : Placed s'.queue u o := by
  cases h with
  | take _ hslot hqueue _ =>
    rw [hqueue]
    apply hplaced.update_of_ne
    · rw [hslot]
      exact fun hnone => by cases hnone
    · exact hu
  | _ => simp only [*]

end

lemma DequeueMove.flag_of_ne {p p' : DequeueCall} (h : DequeueMove s s' t p p')
    (hut : u ≠ t) : s'.isInQueue u = s.isInQueue u := by
  cases h with
  | flag _ hflags =>
    rw [hflags]
    exact update_of_ne hut _ _
  | _ => simp only [*]

lemma DequeueMove.placed_of_ne {p p' : DequeueCall} (h : DequeueMove s s' t p p')
    (hut : u ≠ t) (hplaced : Placed s.queue u o) : Placed s'.queue u o := by
  cases h with
  | release _ hslot hqueue _ =>
    rw [hqueue]
    apply hplaced.update_of_ne
    · rw [hslot]
      exact fun htu => hut (Option.some.inj htu).symm
    · exact fun hnone => by cases hnone
  | _ => simp only [*]

/-! ## What a step does to its own thread -/

lemma EnqueueMove.fits (h : EnqueueMove s s' p p') (hplaced : Placed s.queue t o)
    (hfits : enqueueFits t (s.isInQueue t) o p) :
    ∃ o', Placed s'.queue t o' ∧ enqueueFits t (s'.isInQueue t) o' p' := by
  cases h with
  | queued hflag hqueue hflags =>
    obtain ⟨rfl, hfits⟩ := hfits
    exact ⟨o, hqueue ▸ hplaced, hflags ▸ hfits⟩
  | unqueued hflag hqueue hflags =>
    obtain ⟨rfl, hfits⟩ := hfits
    have hnone : o = none := Option.not_isSome_iff_eq_none.mp (by rw [← hfits, hflag]; decide)
    exact ⟨o, hqueue ▸ hplaced, rfl, hflags ▸ hflag, hnone⟩
  | signal hqueue hflags => exact ⟨o, hqueue ▸ hplaced, hflags ▸ hfits⟩
  | occupied hi hslot hqueue hflags => exact ⟨o, hqueue ▸ hplaced, hflags ▸ hfits⟩
  | take hi hslot hqueue hflags =>
    obtain ⟨rfl, hflag, rfl⟩ := hfits
    exact ⟨some _, hqueue ▸ hplaced.take hi, rfl, hflags ▸ hflag, rfl⟩
  | full hi hqueue hflags =>
    obtain ⟨rfl, hflag, rfl⟩ := hfits
    exact ⟨none, hqueue ▸ hplaced, hflags ▸ hflag⟩
  | flag hqueue hflags =>
    obtain ⟨rfl, hflag, hsome⟩ := hfits
    exact ⟨o, hqueue ▸ hplaced, hflags ▸ update_self _ _ _, hsome⟩
  | wake hqueue hflags => exact ⟨o, hqueue ▸ hplaced, hflags ▸ hfits⟩
  | woken hqueue hflags => exact ⟨o, hqueue ▸ hplaced, hflags ▸ hfits⟩
  | startup hqueue hflags =>
    exact ⟨o, hqueue ▸ hplaced, hflags ▸ hfits.1.trans hfits.2.symm⟩

lemma DequeueMove.fits {p p' : DequeueCall} (h : DequeueMove s s' t p p')
    (hplaced : Placed s.queue t o) (hfits : dequeueFits (s.isInQueue t) o p) :
    ∃ o', Placed s'.queue t o' ∧ dequeueFits (s'.isInQueue t) o' p' := by
  cases h with
  | queued hflag hqueue hflags =>
    obtain ⟨j, rfl⟩ := Option.isSome_iff_exists.mp (hfits.symm.trans hflag)
    exact ⟨some j, hqueue ▸ hplaced, hflags ▸ hflag, j, rfl, Nat.zero_le j⟩
  | unqueued hflag hqueue hflags =>
    have hnone : o = none := Option.not_isSome_iff_eq_none.mp (by rw [← hfits, hflag]; decide)
    exact ⟨o, hqueue ▸ hplaced, hflags ▸ hflag, hnone, rfl⟩
  | @other i hi hslot hqueue hflags =>
    obtain ⟨hflag, j, rfl, hij⟩ := hfits
    have hne : i ≠ j := by
      rintro rfl
      exact hslot ((hplaced.2 i hi).mpr rfl)
    exact ⟨some j, hqueue ▸ hplaced, hflags ▸ hflag, j, rfl, by omega⟩
  | release hi hslot hqueue hflags =>
    obtain ⟨hflag, -⟩ := hfits
    have ho := hplaced.eq_some hi hslot
    subst ho
    exact ⟨none, hqueue ▸ hplaced.release, hflags ▸ hflag, rfl⟩
  | notFound hi hqueue hflags =>
    obtain ⟨-, j, rfl, hij⟩ := hfits
    exact absurd (hplaced.1 j rfl) (by omega)
  | flag hqueue hflags =>
    obtain ⟨-, rfl⟩ := hfits
    exact ⟨none, hqueue ▸ hplaced, hflags ▸ update_self _ _ _, rfl, rfl⟩

end Moves

end Cottage.RunQueue
