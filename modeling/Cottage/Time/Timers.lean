import Cottage.Time.Interval
import Mathlib.Data.List.Count

/-!
# The timer interrupt

`timer_handler` moves the two clocks on by one interval and, if it gets the
lock, looks at every armed timer.  Others may hold the lock at a call, so a run
is a list that tells for each call whether it is held.

The clocks, which `timer_init` sets to an epoch, are exact: each call adds one
millisecond to them.  The timers are not on time: the loop works on a copy of
each, and the time that is left and the mark of a timer that has fired are set
in the copy, so the next call finds the timers as they were.
-/

namespace Cottage.Time

/-- `TIMER_FREQUENCY` -/
def timerFrequency : ℤ := 1000

structure HprTimer where
  when : Timespec
  fired : Bool
  deriving DecidableEq, Repr

structure TimerState where
  monotonicClock : Timespec
  realtimeClock : Timespec
  timersLock : Bool
  armedTimers : List HprTimer
  triggered : List ℕ
  deriving DecidableEq, Repr

def interval : Timespec where
  tvSec := 0
  tvNsec := 1000000000 / timerFrequency

/-- The two clocks; the timer that `pit_init` programs is not in the state. -/
def timerInit (epoch : ℤ) (s : TimerState) : TimerState :=
  { s with monotonicClock := ⟨epoch, 0⟩, realtimeClock := ⟨epoch, 0⟩ }

/-- What a round of the loop does to its copy of a timer, and whether it
triggers the event. -/
def checkTimer (t : HprTimer) : HprTimer × Bool :=
  if t.fired then (t, false)
  else
    let (done, left) := subInterval t.when interval
    if done then (⟨left, true⟩, true) else (⟨left, false⟩, false)

def handleTimer (s : TimerState) (i : ℕ) : TimerState :=
  match s.armedTimers[i]? with
  | some t => if (checkTimer t).2 then { s with triggered := s.triggered ++ [i] } else s
  | none => s

def timerHandler (s : TimerState) : TimerState :=
  let s :=
    { s with
      monotonicClock := addInterval s.monotonicClock interval
      realtimeClock := addInterval s.realtimeClock interval }
  if s.timersLock then s
  else
    let s := (List.range s.armedTimers.length).foldl handleTimer { s with timersLock := true }
    { s with timersLock := false }

/-- A call of the handler for each element, which tells whether the lock is
held by another. -/
def handlerCalls (s : TimerState) (held : List Bool) : TimerState :=
  held.foldl (fun s lock => timerHandler { s with timersLock := lock }) s

def TimerState.due (s : TimerState) : List ℕ :=
  (List.range s.armedTimers.length).filter fun i =>
    s.armedTimers[i]?.any fun t => (checkTimer t).2

lemma handleTimer_eq (s : TimerState) (i : ℕ) :
    handleTimer s i =
      { s with
        triggered := s.triggered ++ [i].filter fun i =>
          s.armedTimers[i]?.any fun t => (checkTimer t).2 } := by
  rw [handleTimer]
  cases htimer : s.armedTimers[i]? with
  | none => simp [htimer]
  | some t => cases hdue : (checkTimer t).2 <;> simp [htimer, hdue]

lemma foldl_handleTimer (is : List ℕ) (s : TimerState) :
    is.foldl handleTimer s =
      { s with
        triggered := s.triggered ++ is.filter fun i =>
          s.armedTimers[i]?.any fun t => (checkTimer t).2 } := by
  induction is generalizing s with
  | nil => simp
  | cons i is ih =>
    rw [List.foldl_cons, ih, handleTimer_eq]
    rw [List.append_assoc, ← List.filter_append, List.singleton_append]

lemma normalised_interval : interval.Normalised := by
  decide

lemma duration_interval : interval.duration = 10 ^ 6 := by
  decide

def tick (t : Timespec) : Timespec :=
  addInterval t interval

lemma timerHandler_clocks (s : TimerState) :
    (timerHandler s).monotonicClock = tick s.monotonicClock ∧
      (timerHandler s).realtimeClock = tick s.realtimeClock := by
  rw [timerHandler]
  split_ifs
  · exact ⟨rfl, rfl⟩
  · rw [foldl_handleTimer]
    exact ⟨rfl, rfl⟩

lemma handlerCalls_clocks (s : TimerState) (held : List Bool) :
    (handlerCalls s held).monotonicClock = tick^[held.length] s.monotonicClock ∧
      (handlerCalls s held).realtimeClock = tick^[held.length] s.realtimeClock := by
  induction held generalizing s with
  | nil => exact ⟨rfl, rfl⟩
  | cons lock held ih =>
    obtain ⟨hmonotonic, hrealtime⟩ := timerHandler_clocks { s with timersLock := lock }
    obtain ⟨hmonotonic', hrealtime'⟩ := ih (timerHandler { s with timersLock := lock })
    rw [hmonotonic] at hmonotonic'
    rw [hrealtime] at hrealtime'
    exact ⟨hmonotonic', hrealtime'⟩

lemma iterate_tick (k : ℕ) {t : Timespec} (ht : t.Reduced)
    (hfits : t.duration + k * 10 ^ 6 < 2 ^ 63 * 10 ^ 9) :
    (tick^[k] t).Reduced ∧ (tick^[k] t).duration = t.duration + k * 10 ^ 6 := by
  induction k with
  | zero => exact ⟨ht, by simp⟩
  | succ k ih =>
    obtain ⟨hreduced, hduration⟩ := ih (by omega)
    have hlow : -2 ^ 63 * 10 ^ 9 ≤ t.duration := by
      obtain ⟨hsec, _, hnsec, _⟩ := ht
      rw [Timespec.duration]
      omega
    rw [Function.iterate_succ_apply', tick]
    have hnext := addInterval_spec hreduced normalised_interval.reduced
      (by rw [hduration, duration_interval]; omega) (by rw [hduration, duration_interval]; omega)
    rw [hduration, duration_interval] at hnext
    exact ⟨hnext.1, by omega⟩

/-- The clocks are in normal form after every call and show the time since the
epoch, and every sum that can be represented is exact. -/
theorem clocks_exact :
    (∀ s epoch held, -2 ^ 63 ≤ epoch → epoch < 2 ^ 63 →
      epoch * 10 ^ 9 + (held.length : ℤ) * 10 ^ 6 < 2 ^ 63 * 10 ^ 9 →
        ∀ clock ∈ [(handlerCalls (timerInit epoch s) held).monotonicClock,
            (handlerCalls (timerInit epoch s) held).realtimeClock],
          clock.Reduced ∧ clock.duration = epoch * 10 ^ 9 + (held.length : ℤ) * 10 ^ 6) ∧
      ∀ d s : Timespec, d.Reduced → s.Reduced → -2 ^ 63 * 10 ^ 9 ≤ d.duration + s.duration →
        d.duration + s.duration < 2 ^ 63 * 10 ^ 9 →
          (addInterval d s).Reduced ∧ (addInterval d s).duration = d.duration + s.duration := by
  refine ⟨?_, fun d s => addInterval_spec⟩
  intro s epoch held hlow hhigh hfits
  obtain ⟨hmonotonic, hrealtime⟩ := handlerCalls_clocks (timerInit epoch s) held
  have hstart : Timespec.duration ⟨epoch, 0⟩ = epoch * 10 ^ 9 := Int.add_zero _
  have hclock := iterate_tick held.length (reduced_mk ⟨hlow, hhigh⟩ (by decide : (0 : ℤ) ≤ 0 ∧ _))
    (by rwa [hstart])
  rw [hstart] at hclock
  rw [hmonotonic, hrealtime]
  simpa [timerInit] using hclock

theorem clocks_exact_two_calls :
    (handlerCalls (timerInit 1 ⟨.zero, .zero, false, [], []⟩)
        [false, true]).realtimeClock.duration = 1002000000 ∧
      (addInterval ⟨-1, 999999999⟩ ⟨0, 1⟩).Reduced := by
  have hclock := clocks_exact.1 ⟨.zero, .zero, false, [], []⟩ 1 [false, true] (by decide)
    (by decide) (by decide) _ (.tail _ (.head _))
  refine ⟨hclock.2, ?_⟩
  exact (clocks_exact.2 ⟨-1, 999999999⟩ ⟨0, 1⟩ (reduced_mk (by decide) (by decide))
    (reduced_mk (by decide) (by decide)) (by decide) (by decide)).1

/-! ## The timers -/

structure HprTimer.Armed (t : HprTimer) : Prop where
  normalised : t.when.Normalised
  nonzero : 0 < t.when.duration
  unfired : t.fired = false

lemma subInterval_interval {d : Timespec} (hd : d.Normalised) :
    (subInterval d interval).1 = true ↔ d.duration ≤ 10 ^ 6 := by
  rw [← duration_interval]
  by_cases hexact : interval.tvNsec ≤ d.tvNsec ∨ d.tvSec ≤ interval.tvSec
  · exact ((subtracts_iff hd normalised_interval).mpr hexact).due
  · rw [not_or, not_le, not_le] at hexact
    rw [subInterval_of_borrow hd normalised_interval hexact.1 hexact.2, decide_eq_true_eq]
    have hnsec : interval.tvNsec = 10 ^ 6 := by decide
    have hsec : interval.tvSec = 0 := by decide
    have hnonneg := hd.nsec_nonneg
    rw [Timespec.duration, Timespec.duration, hnsec, hsec]
    omega

lemma HprTimer.Armed.checkTimer_snd {t : HprTimer} (ht : t.Armed) :
    (checkTimer t).2 = true ↔ t.when.duration ≤ 10 ^ 6 := by
  rw [← subInterval_interval ht.normalised, checkTimer]
  simp only [ht.unfired, Bool.false_eq_true, if_false]
  cases (subInterval t.when interval).1 <;> exact Iff.rfl

lemma timerHandler_timers (s : TimerState) :
    (timerHandler s).armedTimers = s.armedTimers ∧
      (timerHandler s).triggered = s.triggered ++ if s.timersLock then [] else s.due := by
  rw [timerHandler]
  split_ifs
  · exact ⟨rfl, (List.append_nil _).symm⟩
  · rw [foldl_handleTimer]
    exact ⟨rfl, rfl⟩

lemma handlerCalls_timers (held : List Bool) (s : TimerState) :
    (handlerCalls s held).armedTimers = s.armedTimers ∧
      ∀ i, (handlerCalls s held).triggered.count i =
        s.triggered.count i + held.count false * s.due.count i := by
  induction held generalizing s with
  | nil => exact ⟨rfl, fun i => by rw [List.count_nil, Nat.zero_mul]; rfl⟩
  | cons lock held ih =>
    obtain ⟨htimers, htriggered⟩ := timerHandler_timers { s with timersLock := lock }
    obtain ⟨htimers', htriggered'⟩ := ih (timerHandler { s with timersLock := lock })
    have hdue : (timerHandler { s with timersLock := lock }).due = s.due := by
      rw [TimerState.due, htimers]
      rfl
    refine ⟨htimers'.trans htimers, ?_⟩
    intro i
    refine (htriggered' i).trans ?_
    rw [htriggered, hdue, List.count_append, List.count_cons, Nat.add_mul]
    cases lock with
    | false =>
      simp only [Bool.false_eq_true, if_false, beq_self_eq_true, if_true, Nat.one_mul]
      exact (Nat.add_assoc _ _ _).trans (congrArg _ (Nat.add_comm _ _))
    | true => simp

lemma count_due {s : TimerState} {i : ℕ} {t : HprTimer} (htimer : s.armedTimers[i]? = some t)
    (ht : t.Armed) : s.due.count i = if t.when.duration ≤ 10 ^ 6 then 1 else 0 := by
  have hi : i < s.armedTimers.length := (List.getElem?_eq_some_iff.mp htimer).1
  have hmem : i ∈ s.due ↔ t.when.duration ≤ 10 ^ 6 := by
    rw [TimerState.due, List.mem_filter, htimer, Option.any_some, ht.checkTimer_snd]
    exact and_iff_right (List.mem_range.mpr hi)
  have hnodup : s.due.Nodup := List.nodup_range.filter _
  rw [hnodup.count]
  exact if_congr hmem rfl rfl

/-! ## Firing on time -/

/-- Each timer whose deadline is over after so many calls has fired once, and
the others have not. -/
def OnTime (s s' : TimerState) (calls : ℕ) : Prop :=
  ∀ i t, s.armedTimers[i]? = some t →
    s'.triggered.count i = (if t.when.duration ≤ (calls : ℤ) * 10 ^ 6 then 1 else 0) ∧
      (t.when.duration ≤ (calls : ℤ) * 10 ^ 6 → s'.armedTimers[i]?.any (·.fired) = true)

/-- In every run of the handler, the timers are on time after it exactly if none
of them should have fired. -/
theorem timers_on_time_iff {s : TimerState} (harmed : ∀ t ∈ s.armedTimers, t.Armed)
    (htriggered : s.triggered = []) (held : List Bool) :
    OnTime s (handlerCalls s held) (held.count false) ↔
      ∀ t ∈ s.armedTimers, held.count false * 10 ^ 6 < t.when.duration := by
  obtain ⟨htimers, hcount⟩ := handlerCalls_timers held s
  constructor
  · intro h t ht
    obtain ⟨i, htimer⟩ := List.mem_iff_getElem?.mp ht
    obtain ⟨_, hfired⟩ := h i t htimer
    by_contra hdue
    have hany := hfired (not_lt.mp hdue)
    rw [htimers, htimer, Option.any_some, (harmed t ht).unfired] at hany
    exact Bool.false_ne_true hany
  · intro h i t htimer
    have ht := List.mem_of_getElem? htimer
    have hlate := h t ht
    have hzero : held.count false * s.due.count i = 0 := by
      rw [count_due htimer (harmed t ht)]
      split_ifs with hnow
      · have hnone : held.count false = 0 := by omega
        rw [hnone, Nat.zero_mul]
      · exact Nat.mul_zero _
    refine ⟨?_, fun hdue => absurd hdue (not_le.mpr hlate)⟩
    rw [hcount i, htriggered, List.count_nil, hzero, if_neg (not_le.mpr hlate)]

def armedAt (times : List Timespec) : TimerState where
  monotonicClock := .zero
  realtimeClock := .zero
  timersLock := false
  armedTimers := times.map fun time => ⟨time, false⟩
  triggered := []

lemma armed_armedAt {times : List Timespec}
    (htimes : ∀ time ∈ times, time.Normalised ∧ 0 < time.duration) :
    ∀ t ∈ (armedAt times).armedTimers, t.Armed := by
  intro t ht
  obtain ⟨time, hmem, rfl⟩ := List.mem_map.mp ht
  exact ⟨(htimes time hmem).1, (htimes time hmem).2, rfl⟩

theorem timers_on_time_second :
    OnTime (armedAt [⟨1, 0⟩]) (handlerCalls (armedAt [⟨1, 0⟩]) [false, true, false]) 2 :=
  (timers_on_time_iff (armed_armedAt (by decide)) rfl [false, true, false]).mpr (by decide)

/-- After two calls the event of a timer of one millisecond has been triggered
twice, and that of a timer of two milliseconds not at all; neither is marked. -/
theorem timers_not_on_time :
    (∀ t ∈ (armedAt [⟨0, 1000000⟩, ⟨0, 2000000⟩]).armedTimers, t.Armed) ∧
      (handlerCalls (armedAt [⟨0, 1000000⟩, ⟨0, 2000000⟩]) [false, false]).triggered = [0, 0] ∧
      ¬ OnTime (armedAt [⟨0, 1000000⟩, ⟨0, 2000000⟩])
        (handlerCalls (armedAt [⟨0, 1000000⟩, ⟨0, 2000000⟩]) [false, false]) 2 := by
  refine ⟨armed_armedAt (by decide), by decide, ?_⟩
  intro h
  have hcount := (h 0 ⟨⟨0, 1000000⟩, false⟩ rfl).1
  revert hcount
  decide

end Cottage.Time
