import Cottage.Foundations.Transition
import Mathlib.Algebra.Order.Ring.Nat
import Mathlib.Data.List.Nodup

/-!
# The thread table of a process

`new_user_thread` gives a thread the number of threads as its `tid`, stores it
at this index and counts it; there is no check of the bounds of the array.  The
field behind the array is the number of threads itself, so memory is modelled
from the array on, as words: a thread with `tid` 64 overwrites the count.

When a program is replaced, the threads of the process are given up and the
count is reset by a loop whose bound is the count.

Both calls hold the lock of the table, so each of them is one step.
-/

namespace Cottage.ThreadTable

open Transition Function

/-- `PROC_MAX_THREADS_PER_PROCESS` -/
def maxThreads : ℕ := 64

/-- `words i` is `threads[i]` for the indices of the array, and `thread_count`
right behind it.  `live` are the threads made since the last reset. -/
structure State where
  words : ℕ → ℕ
  tid : ℕ → ℕ
  live : List ℕ

def State.threadCount (s : State) : ℕ :=
  s.words maxThreads

def newUserThread (s : State) (t : ℕ) : State :=
  let tid := s.threadCount
  let stored := update s.words tid t
  { words := update stored maxThreads ((stored maxThreads + 1) % 2 ^ 64)
    tid := update s.tid t tid
    live := t :: s.live }

/-- The loop `for(i = 0; i < thread_count; i++) thread_count--`. -/
def resetLoop : ℕ → ℕ → ℕ → ℕ
  | 0, _, threadCount => threadCount
  | fuel + 1, i, threadCount =>
    if i < threadCount then resetLoop fuel (i + 1) (threadCount - 1) else threadCount

/-- What `userland_start_program` does to the table with `replace` set. -/
def resetThreads (s : State) : State :=
  { s with
    words := update s.words maxThreads (resetLoop s.threadCount 0 s.threadCount)
    live := [] }

inductive Event
  | newUserThread (t : ℕ)
  | reset
  deriving DecidableEq, Repr

def step (s : State) : Event → Option State
  | .newUserThread t => if t ∈ s.live then none else some (newUserThread s t)
  | .reset => some (resetThreads s)

def system : System State Event where
  init s := s.threadCount = 0 ∧ s.live = []
  step := step

structure Consistent (s : State) : Prop where
  tid_lt : ∀ t ∈ s.live, s.tid t < maxThreads
  stored : ∀ t ∈ s.live, s.words (s.tid t) = t
  distinct : ∀ t ∈ s.live, ∀ t' ∈ s.live, s.tid t = s.tid t' → t = t'
  count_eq : s.threadCount = s.live.length

/-- A thread is made when there is room for it, and a program is replaced when
it has at most one thread. -/
def Permitted (s : State) : Event → Prop
  | .newUserThread _ => s.threadCount < maxThreads
  | .reset => s.threadCount ≤ 1

instance (s : State) : DecidablePred (Permitted s)
  | .newUserThread _ => inferInstanceAs (Decidable (_ < _))
  | .reset => inferInstanceAs (Decidable (_ ≤ _))

variable {s s' : State} {t : ℕ}

lemma resetLoop_eq (fuel i threadCount : ℕ) (hfuel : threadCount ≤ i + fuel)
    (hi : i ≤ threadCount + 1) : resetLoop fuel i threadCount = (i + threadCount) / 2 := by
  induction fuel generalizing i threadCount with
  | zero =>
    rw [resetLoop]
    omega
  | succ fuel ih =>
    rw [resetLoop]
    split_ifs with hlt
    · rw [ih (i + 1) (threadCount - 1) (by omega) (by omega)]
      congr 1
      omega
    · omega

lemma threadCount_resetThreads (s : State) :
    (resetThreads s).threadCount = s.threadCount / 2 := by
  have hloop := resetLoop_eq s.threadCount 0 s.threadCount (by omega) (by omega)
  rw [Nat.zero_add] at hloop
  rw [← hloop]
  exact update_self maxThreads _ s.words

structure Inv (s : State) : Prop extends Consistent s where
  nodup : s.live.Nodup
  tid_lt_count : ∀ t ∈ s.live, s.tid t < s.threadCount

lemma Inv.newUserThread (h : Inv s) (hfresh : t ∉ s.live) (hroom : s.threadCount < maxThreads) :
    Inv (newUserThread s t) := by
  have hne : s.threadCount ≠ maxThreads := hroom.ne
  have hcount : (ThreadTable.newUserThread s t).threadCount = s.threadCount + 1 := by
    have hmod : (s.threadCount + 1) % 2 ^ 64 = s.threadCount + 1 := by
      apply Nat.mod_eq_of_lt
      simp only [maxThreads] at hroom
      omega
    rw [State.threadCount, ThreadTable.newUserThread]
    dsimp only
    rw [update_self, update_of_ne hne.symm]
    exact hmod
  have hwords {i : ℕ} (hi : i < s.threadCount) :
      (ThreadTable.newUserThread s t).words i = s.words i := by
    rw [ThreadTable.newUserThread]
    dsimp only
    rw [update_of_ne (by omega), update_of_ne (by omega)]
  have hself : (ThreadTable.newUserThread s t).tid t = s.threadCount :=
    update_self _ _ _
  have hold {t' : ℕ} (ht' : t' ∈ s.live) : (ThreadTable.newUserThread s t).tid t' = s.tid t' := by
    apply update_of_ne
    rintro rfl
    exact hfresh ht'
  have hlive : (ThreadTable.newUserThread s t).live = t :: s.live := rfl
  refine ⟨⟨?_, ?_, ?_, ?_⟩, ?_, ?_⟩
  · rw [hlive, List.forall_mem_cons]
    refine ⟨hself ▸ hroom, fun t' ht' => ?_⟩
    rw [hold ht']
    exact h.tid_lt t' ht'
  · rw [hlive, List.forall_mem_cons]
    refine ⟨?_, fun t' ht' => ?_⟩
    · rw [hself, ThreadTable.newUserThread]
      dsimp only
      rw [update_of_ne hne, update_self]
    · rw [hold ht', hwords (h.tid_lt_count t' ht')]
      exact h.stored t' ht'
  · intro t₁ h₁ t₂ h₂ heq
    rcases List.mem_cons.mp h₁ with heq₁ | hold₁ <;> rcases List.mem_cons.mp h₂ with heq₂ | hold₂
    · exact heq₁.trans heq₂.symm
    · rw [heq₁, hself, hold hold₂] at heq
      exact absurd heq.symm (h.tid_lt_count t₂ hold₂).ne
    · rw [heq₂, hself, hold hold₁] at heq
      exact absurd heq (h.tid_lt_count t₁ hold₁).ne
    · rw [hold hold₁, hold hold₂] at heq
      exact h.distinct t₁ hold₁ t₂ hold₂ heq
  · rw [hcount, hlive, List.length_cons, h.count_eq]
  · exact List.nodup_cons.mpr ⟨hfresh, h.nodup⟩
  · rw [hlive, hcount, List.forall_mem_cons]
    refine ⟨hself ▸ Nat.lt_succ_self _, fun t' ht' => ?_⟩
    rw [hold ht']
    exact Nat.lt_succ_of_lt (h.tid_lt_count t' ht')

lemma Inv.of_empty (hcount : s.threadCount = 0) (hlive : s.live = []) : Inv s where
  tid_lt := by simp [hlive]
  stored := by simp [hlive]
  distinct := by simp [hlive]
  count_eq := by rw [hcount, hlive, List.length_nil]
  nodup := by simp [hlive]
  tid_lt_count := by simp [hlive]

lemma Inv.step {e : Event} (h : Inv s) (hok : Permitted s e)
    (hstep : ThreadTable.step s e = some s') : Inv s' := by
  cases e with
  | newUserThread t =>
    rw [ThreadTable.step] at hstep
    split_ifs at hstep with hfresh
    cases hstep
    exact h.newUserThread hfresh hok
  | reset =>
    cases hstep
    refine .of_empty ?_ rfl
    rw [threadCount_resetThreads]
    exact Nat.div_eq_of_lt (Nat.lt_succ_of_le hok)

lemma inv_of_reachable (hreach : system.ReachableVia Permitted s) : Inv s :=
  hreach.invariant (fun _ h => .of_empty h.1 h.2) fun _ _ _ h hok hstep => h.step hok hstep

/-! ## Other steps -/

lemma not_consistent_newUserThread (hfull : ¬ s.threadCount < maxThreads) :
    ¬ Consistent (newUserThread s t) := by
  intro h
  have hlt := h.tid_lt t (.head _)
  have hself : (newUserThread s t).tid t = s.threadCount := update_self _ _ _
  rw [hself] at hlt
  exact hfull hlt

lemma not_consistent_resetThreads (hmany : ¬ s.threadCount ≤ 1) :
    ¬ Consistent (resetThreads s) := by
  intro h
  have hcount := h.count_eq
  have hlive : (resetThreads s).live = [] := rfl
  rw [threadCount_resetThreads, hlive, List.length_nil] at hcount
  omega

/-- In a run of permitted steps the table is consistent, and the next step keeps
it so exactly if it is permitted. -/
theorem thread_table_consistent {s : State} (hreach : system.ReachableVia Permitted s) :
    Consistent s ∧ ∀ e s', step s e = some s' →
      (Consistent s' ∧ (e = .reset → s'.threadCount = 0) ↔ Permitted s e) := by
  have h := inv_of_reachable hreach
  refine ⟨h.toConsistent, ?_⟩
  intro e s' hstep
  constructor
  · rintro ⟨hconsistent, _⟩
    cases e with
    | newUserThread t =>
      rw [step] at hstep
      split_ifs at hstep
      cases hstep
      by_contra hfull
      exact not_consistent_newUserThread hfull hconsistent
    | reset =>
      cases hstep
      by_contra hmany
      exact not_consistent_resetThreads hmany hconsistent
  · intro hok
    refine ⟨(h.step hok hstep).toConsistent, ?_⟩
    rintro rfl
    cases hstep
    rw [threadCount_resetThreads]
    exact Nat.div_eq_of_lt (Nat.lt_succ_of_le hok)

def noThreads : State where
  words := fun _ => 0
  tid := fun _ => 0
  live := []

theorem thread_table_consistent_replaced :
    ∃ s, system.ReachableVia Permitted s ∧ s.live = [0x2000] ∧ Consistent s := by
  have hinit : system.ReachableVia Permitted noThreads := .init ⟨rfl, rfl⟩
  have hfirst : system.ReachableVia Permitted (newUserThread noThreads 0x1000) :=
    .step hinit (a := .newUserThread 0x1000) (by decide) rfl
  have hreset : system.ReachableVia Permitted (resetThreads (newUserThread noThreads 0x1000)) :=
    .step hfirst (a := .reset) (by decide) rfl
  have hsecond := System.ReachableVia.step hreset (a := .newUserThread 0x2000) (by decide) rfl
  exact ⟨_, hsecond, rfl, (thread_table_consistent hsecond).1⟩

/-- After two threads the reset leaves a count of one, and the thread with tid 64
is stored over the count. -/
theorem thread_table_inconsistent :
    (∃ s, system.run noThreads [.newUserThread 0x1000, .newUserThread 0x2000, .reset] = some s ∧
      s.live = [] ∧ s.threadCount = 1) ∧
    ∃ s, system.run noThreads ((List.range 65).map fun i => .newUserThread (0x1000 * (i + 1))) =
      some s ∧ 0x41000 ∈ s.live ∧ s.tid 0x41000 = 64 ∧ s.threadCount = 0x41001 := by
  refine ⟨⟨_, rfl, rfl, by decide⟩, ?_⟩
  have hany : (system.run noThreads
      ((List.range 65).map fun i => .newUserThread (0x1000 * (i + 1)))).any (fun s =>
        0x41000 ∈ s.live ∧ s.tid 0x41000 = 64 ∧ s.threadCount = 0x41001) = true := by
    decide +kernel
  obtain ⟨s, hrun, hs⟩ := Option.any_eq_true _ _ |>.mp hany
  exact ⟨s, hrun, of_decide_eq_true hs⟩

end Cottage.ThreadTable
