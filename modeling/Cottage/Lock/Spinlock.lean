import Cottage.Foundations.Transition

/-!
# The spinlock of the debug build

Any number of callers use one lock through `lock_acquire`, `lock_release`,
`lock_test_and_acquire` and `lock_assert_held`, and every load, store and
compare-exchange is a step of its own.  What `get_current_cpu_safe` returns
depends on the interrupt flag at that moment and comes with the step.  Two
fields of the state are not in the source: `holds`, which tells whose
compare-exchange has taken the lock, and the number of calls of `lock_acquire`
that have returned.

`Sound` reduces an invariant of all interleavings to the steps of one caller.
-/

namespace Cottage.Spinlock

open Transition Function

/-! ## The functions -/

inductive Panic
  | recursiveAcquisition
  | deadlock
  | notHeld
  | differentCpu
  | assertionFailed
  deriving DecidableEq, Repr

structure Lock where
  isLocked : Bool
  ownerCpu : Option ℕ
  acquireCount : UInt64
  deriving DecidableEq, Repr

/-- `LOCK_INITIALIZER` -/
def Lock.initializer : Lock where
  isLocked := false
  ownerCpu := none
  acquireCount := 0

structure Env where
  haveSmp : Bool
  interrupts : Bool
  cpu : ℕ
  deriving DecidableEq, Repr

def getCurrentCpuSafe (e : Env) : Option ℕ :=
  if !e.haveSmp then none else if e.interrupts then none else some e.cpu

/-- `LOCK_DEADLOCK_THRESHOLD` -/
def lockDeadlockThreshold : ℕ := 10000000

inductive Call
  | acquire
  | testAndAcquire
  | release
  | assertHeld
  deriving DecidableEq, Repr

/-- Where a caller is.  `spinOwner` is the place `testOwner` of
`lock_test_and_acquire` when `lock_acquire` has called it. -/
inductive Pc
  | code
  | recursion (myCpu : Option ℕ)
  | spin (myCpu : Option ℕ) (i : ℕ)
  | test
  | testOwner
  | spinOwner (myCpu : Option ℕ)
  | acquireOwner (myCpu : Option ℕ)
  | loadCount
  | storeCount (count : UInt64)
  | releaseCheck (myCpu : Option ℕ)
  | releaseOwner (myCpu : Option ℕ)
  | clearOwner
  | unlock
  | assertCheck
  | assertOwner
  deriving DecidableEq, Repr

def Call.entry (e : Env) : Call → Pc
  | .acquire => .recursion (getCurrentCpuSafe e)
  | .testAndAcquire => .test
  | .release => .releaseCheck (getCurrentCpuSafe e)
  | .assertHeld => .assertCheck

/-- One access of a caller to the lock. -/
def exec (e : Env) (lock : Lock) : Pc → Except Panic (Lock × Pc)
  | .code => .ok (lock, .code)
  | .recursion myCpu =>
    if lock.ownerCpu = myCpu ∧ myCpu ≠ none then .error .recursiveAcquisition
    else .ok (lock, .spin myCpu 0)
  | .spin myCpu i =>
    if i < lockDeadlockThreshold then
      if lock.isLocked then .ok (lock, .spin myCpu (i + 1))
      else .ok ({ lock with isLocked := true }, .spinOwner myCpu)
    else .error .deadlock
  | .test =>
    if lock.isLocked then .ok (lock, .code)
    else .ok ({ lock with isLocked := true }, .testOwner)
  | .testOwner => .ok ({ lock with ownerCpu := getCurrentCpuSafe e }, .code)
  | .spinOwner myCpu => .ok ({ lock with ownerCpu := getCurrentCpuSafe e }, .acquireOwner myCpu)
  | .acquireOwner myCpu => .ok ({ lock with ownerCpu := myCpu }, .loadCount)
  | .loadCount => .ok (lock, .storeCount lock.acquireCount)
  | .storeCount count => .ok ({ lock with acquireCount := count + 1 }, .code)
  | .releaseCheck myCpu =>
    if lock.isLocked then .ok (lock, .releaseOwner myCpu) else .error .notHeld
  | .releaseOwner myCpu =>
    if myCpu ≠ none ∧ lock.ownerCpu ≠ myCpu then .error .differentCpu
    else .ok (lock, .clearOwner)
  | .clearOwner => .ok ({ lock with ownerCpu := none }, .unlock)
  | .unlock => .ok ({ lock with isLocked := false }, .code)
  | .assertCheck => if lock.isLocked then .ok (lock, .assertOwner) else .error .assertionFailed
  | .assertOwner =>
    if getCurrentCpuSafe e ≠ none ∧ lock.ownerCpu = getCurrentCpuSafe e then .ok (lock, .code)
    else .error .assertionFailed

/-- `n` accesses of one caller with none of another in between. -/
def execAlone (e : Env) : ℕ → Lock → Pc → Except Panic (Lock × Pc)
  | 0, lock, q => .ok (lock, q)
  | n + 1, lock, q => (exec e lock q).bind fun (lock, q) => execAlone e n lock q

lemma execAlone_succ {e : Env} {lock lock' : Lock} {q q' : Pc} (n : ℕ)
    (hexec : exec e lock q = .ok (lock', q')) :
    execAlone e (n + 1) lock q = execAlone e n lock' q' := by
  rw [execAlone, hexec, Except.bind]

lemma execAlone_of_error {e : Env} {lock : Lock} {q : Pc} {p : Panic} (n : ℕ)
    (hexec : exec e lock q = .error p) : execAlone e (n + 1) lock q = .error p := by
  rw [execAlone, hexec, Except.bind]

/-! ## All callers together -/

variable {ι : Type*} [DecidableEq ι]

structure State (ι : Type*) where
  lock : Lock
  pc : ι → Pc
  holds : ι → Bool
  returned : ℕ
  panic : Option (ι × Panic)

structure Label (ι : Type*) where
  caller : ι
  env : Env
  call : Option Call
  deriving DecidableEq, Repr

/-- Whether a caller holds the lock after a step of its own. -/
def held (h : Bool) (lock lock' : Lock) : Bool :=
  if lock'.isLocked = lock.isLocked then h else lock'.isLocked

def Pc.completes : Pc → ℕ
  | .storeCount _ => 1
  | _ => 0

def State.after (s : State ι) (i : ι) (lock : Lock) (q : Pc) : State ι where
  lock := lock
  pc := update s.pc i q
  holds := update s.holds i (held (s.holds i) s.lock lock)
  returned := s.returned + (s.pc i).completes
  panic := none

def State.step (s : State ι) (l : Label ι) : Option (State ι) :=
  if s.panic ≠ none then none
  else
    match l.call with
    | some call =>
      if s.pc l.caller = .code then
        some { s with pc := update s.pc l.caller (call.entry l.env) }
      else none
    | none =>
      if s.pc l.caller = .code then none
      else
        match exec l.env s.lock (s.pc l.caller) with
        | .error p => some { s with panic := some (l.caller, p) }
        | .ok (lock, q) => some (s.after l.caller lock q)

def initial (ι : Type*) : State ι where
  lock := .initializer
  pc := fun _ => .code
  holds := fun _ => false
  returned := 0
  panic := none

def system (ι : Type*) [DecidableEq ι] : System (State ι) (Label ι) where
  init s := s = initial ι
  step := State.step

/-! ## From one caller to all of them -/

section Sound

/-- `ok` says which steps a caller may take, `P` what is true of a caller at a
place of the code, and `V` what a panic says about the caller. -/
structure Sound (ok : ι → Bool → Env → Option Call → Prop) (P : ι → Bool → Lock → Pc → Prop)
    (V : Bool → Panic → Prop) : Prop where
  init : ∀ i, P i false .initializer .code
  frame : ∀ i j h e lock q lock' q' r, j ≠ i → ok i h e none → P i h lock q →
    exec e lock q = .ok (lock', q') → P j false lock r → P j false lock' r
  calls : ∀ i h e c lock, ok i h e (some c) → P i h lock .code → P i h lock (c.entry e)
  moves : ∀ i h e lock q lock' q', ok i h e none → P i h lock q →
    (h = true → lock.isLocked = true) → exec e lock q = .ok (lock', q') →
      (lock' = lock ∨ h = true ∨ lock.isLocked = false) ∧ P i (held h lock lock') lock' q' ∧
        lock'.acquireCount = lock.acquireCount + UInt64.ofNat q.completes
  fails : ∀ i h e lock q p, ok i h e none → P i h lock q → (h = true → lock.isLocked = true) →
    exec e lock q = .error p → V h p

/-- `holder` is the caller that holds the lock, if there is one. -/
structure Inv (P : ι → Bool → Lock → Pc → Prop) (V : Bool → Panic → Prop) (s : State ι)
    (holder : Option ι) : Prop where
  holds : ∀ i, s.holds i = true ↔ holder = some i
  isLocked : s.lock.isLocked = holder.isSome
  caller : ∀ i, P i (s.holds i) s.lock (s.pc i)
  acquireCount : s.lock.acquireCount = UInt64.ofNat s.returned
  verdict : ∀ i p, s.panic = some (i, p) → V (s.holds i) p

variable {ok : ι → Bool → Env → Option Call → Prop} {P : ι → Bool → Lock → Pc → Prop}
  {V : Bool → Panic → Prop} {s t : State ι} {holder : Option ι}

def Permitted (ok : ι → Bool → Env → Option Call → Prop) (s : State ι) (l : Label ι) : Prop :=
  ok l.caller (s.holds l.caller) l.env l.call

omit [DecidableEq ι] in
lemma Inv.isLocked_of_holds (hI : Inv P V s holder) {i : ι} (hi : s.holds i = true) :
    s.lock.isLocked = true := by
  rw [hI.isLocked, (hI.holds i).mp hi]
  rfl

omit [DecidableEq ι] in
lemma Inv.exclusive (hI : Inv P V s holder) {i j : ι} (hi : s.holds i = true)
    (hj : s.holds j = true) : i = j :=
  Option.some.inj (((hI.holds i).mp hi).symm.trans ((hI.holds j).mp hj))

lemma Inv.after (hS : Sound ok P V) (hI : Inv P V s holder) {i : ι} {e : Env} {lock : Lock}
    {q : Pc} (hok : ok i (s.holds i) e none)
    (hexec : exec e s.lock (s.pc i) = .ok (lock, q)) :
    ∃ holder', Inv P V (s.after i lock q) holder' := by
  obtain ⟨hcase, hP, hcount⟩ :=
    hS.moves i _ e _ _ lock q hok (hI.caller i) hI.isLocked_of_holds hexec
  have hothers : lock = s.lock ∨ ∀ j, j ≠ i → s.holds j = false := by
    refine hcase.imp_right fun h j hji => Bool.eq_false_iff.mpr fun hj => ?_
    rcases h with h | h
    · exact hji (hI.exclusive hj h)
    · rw [hI.isLocked_of_holds hj] at h
      cases h
  have hcaller : ∀ j, P j ((s.after i lock q).holds j) lock ((s.after i lock q).pc j) := by
    intro j
    by_cases hji : j = i
    · subst hji
      simpa only [State.after, update_self] using hP
    · simp only [State.after, update_of_ne hji]
      rcases hothers with h | h
      · exact h ▸ hI.caller j
      · rw [h j hji]
        exact hS.frame i j _ e _ _ _ q _ hji hok (hI.caller i) hexec (h j hji ▸ hI.caller j)
  have hcount' : lock.acquireCount = UInt64.ofNat (s.after i lock q).returned := by
    rw [hcount, hI.acquireCount, ← UInt64.ofNat_add]
    rfl
  by_cases hsame : lock.isLocked = s.lock.isLocked
  · have hholds : (s.after i lock q).holds = s.holds := by
      simp only [State.after, held, if_pos hsame, update_eq_self]
    exact ⟨holder, fun j => by rw [hholds, hI.holds j], hsame.trans hI.isLocked, hcaller, hcount',
      fun _ _ h => by cases h⟩
  · have hnone : ∀ j, j ≠ i → s.holds j = false :=
      hothers.resolve_left fun h => hsame (congrArg Lock.isLocked h)
    refine ⟨if lock.isLocked then some i else none, fun j => ?_, ?_, hcaller, hcount',
      fun _ _ h => by cases h⟩
    · by_cases hji : j = i
      · subst hji
        simp [State.after, held, hsame]
      · simp [State.after, hji, hnone j hji, Ne.symm hji]
    · change lock.isLocked = _
      cases lock.isLocked <;> rfl

lemma Inv.step (hS : Sound ok P V) (hI : Inv P V s holder) {l : Label ι}
    (hok : Permitted ok s l) (hstep : s.step l = some t) : ∃ holder', Inv P V t holder' := by
  obtain ⟨i, e, call⟩ := l
  cases call with
  | some c =>
    simp only [State.step] at hstep
    split_ifs at hstep with hpanic hcode
    cases hstep
    refine ⟨holder, hI.holds, hI.isLocked, fun j => ?_, hI.acquireCount, hI.verdict⟩
    by_cases hji : j = i
    · subst hji
      simpa only [update_self] using hS.calls j _ e c _ hok (hcode ▸ hI.caller j)
    · simpa only [update_of_ne hji] using hI.caller j
  | none =>
    simp only [State.step] at hstep
    split_ifs at hstep with hpanic hcode
    cases hexec : exec e s.lock (s.pc i) with
    | ok r =>
      rw [hexec] at hstep
      cases hstep
      exact hI.after hS hok hexec
    | error p =>
      rw [hexec] at hstep
      cases hstep
      refine ⟨holder, hI.holds, hI.isLocked, hI.caller, hI.acquireCount, fun j p' h => ?_⟩
      cases h
      exact hS.fails i _ e _ _ p hok (hI.caller i) hI.isLocked_of_holds hexec

lemma Sound.inv (hS : Sound ok P V) (h : (system ι).ReachableVia (Permitted ok) s) :
    ∃ holder, Inv P V s holder := by
  apply h.invariant (I := fun s => ∃ holder, Inv P V s holder)
  · rintro s rfl
    exact ⟨none, fun i => by simp [initial], rfl, hS.init, rfl, fun i p hp => by cases hp⟩
  · rintro s l t ⟨holder, hI⟩ hok hstep
    exact hI.step hS hok hstep

end Sound

/-! ## Callers that release what they hold -/

def Pc.inside : Pc → Bool
  | .testOwner | .spinOwner _ | .acquireOwner _ | .loadCount | .storeCount _ => true
  | .releaseCheck _ | .releaseOwner _ | .clearOwner | .unlock => true
  | .code | .recursion _ | .spin _ _ | .test | .assertCheck | .assertOwner => false

def Disciplined (_ : ι) (h : Bool) (_ : Env) (call : Option Call) : Prop :=
  call = some .release → h = true

def Follows (_ : ι) (h : Bool) (lock : Lock) (q : Pc) : Prop :=
  (q.inside = true → h = true) ∧ ∀ n, q = .storeCount n → n = lock.acquireCount

omit [DecidableEq ι] in
lemma sound_disciplined :
    Sound (ι := ι) Disciplined Follows fun _ p => p ≠ .notHeld where
  init i := ⟨Bool.noConfusion, fun _ h => by cases h⟩
  frame i j h e lock q lock' q' r _ _ _ _ := by
    rintro ⟨hin, -⟩
    refine ⟨hin, fun n hr => ?_⟩
    subst hr
    cases hin rfl
  calls i h e c lock hok _ := by
    cases c with
    | release => exact ⟨fun _ => hok rfl, fun _ h => by cases h⟩
    | _ => exact ⟨Bool.noConfusion, fun _ h => by cases h⟩
  moves i h e lock q lock' q' _ hP hown hexec := by
    cases q <;> simp only [exec] at hexec <;> try split_ifs at hexec
    all_goals cases hexec
    all_goals simp_all [Follows, Pc.inside, Pc.completes, held]
  fails i h e lock q p _ hP hown hexec := by
    rintro rfl
    cases q <;> simp only [exec] at hexec <;> try split_ifs at hexec
    all_goals cases hexec
    rename_i hfree
    exact hfree (hown (hP.1 rfl))

/-- Callers that only release what they hold exclude each other, whether or not
the processor can be determined, and no count is lost. -/
theorem spinlock_exclusive {s : State ι} (h : (system ι).ReachableVia (Permitted Disciplined) s) :
    ∃ holder : Option ι, (∀ i, s.holds i = true ↔ holder = some i) ∧
      s.lock.isLocked = holder.isSome ∧ s.lock.acquireCount = UInt64.ofNat s.returned ∧
      ∀ i, s.panic ≠ some (i, .notHeld) := by
  obtain ⟨holder, hI⟩ := sound_disciplined.inv h
  exact ⟨holder, hI.holds, hI.isLocked, hI.acquireCount, fun i hp => hI.verdict i _ hp rfl⟩

instance (s : State ι) (l : Label ι) : Decidable (Permitted Disciplined s l) :=
  inferInstanceAs (Decidable (_ = _ → _ = _))

theorem spinlock_exclusive_contended :
    ∃ s : State Bool, (system Bool).ReachableVia (Permitted Disciplined) s ∧
      s.pc false = .spin none 1 ∧ ∃ holder : Option Bool,
        (∀ i, s.holds i = true ↔ holder = some i) ∧ s.lock.isLocked = holder.isSome ∧
        s.lock.acquireCount = UInt64.ofNat s.returned ∧ ∀ i, s.panic ≠ some (i, .notHeld) := by
  have hrun : (((system Bool).guard (Permitted Disciplined)).run (initial Bool)
      (([true, false].map fun i => ⟨i, ⟨true, true, 0⟩, some .acquire⟩) ++
        [true, false, true, false].map fun i => ⟨i, ⟨true, true, 0⟩, none⟩)).any
      (·.pc false = .spin none 1) = true := by
    decide
  obtain ⟨s, hs, hpc⟩ := (Option.any_eq_true _ _).mp hrun
  have hreach : (system Bool).ReachableVia (Permitted Disciplined) s :=
    System.ReachableVia.run_guard (.init rfl) hs
  exact ⟨s, hreach, of_decide_eq_true hpc, spinlock_exclusive hreach⟩

/-! ## Callers with interrupts disabled -/

def Known (i : ℕ) (_ : Bool) (e : Env) (_ : Option Call) : Prop :=
  getCurrentCpuSafe e = some i

def Agrees (i : ℕ) (h : Bool) (lock : Lock) (q : Pc) : Prop :=
  (lock.ownerCpu = some i → h = true) ∧
    match q with
    | .code | .test | .assertCheck | .assertOwner => h = true → lock.ownerCpu = some i
    | .recursion myCpu | .releaseCheck myCpu | .releaseOwner myCpu =>
      myCpu = some i ∧ (h = true → lock.ownerCpu = some i)
    | .spin myCpu _ => myCpu = some i ∧ h = false
    | .testOwner => h = true
    | .spinOwner myCpu | .acquireOwner myCpu => myCpu = some i ∧ h = true
    | .loadCount | .clearOwner => h = true ∧ lock.ownerCpu = some i
    | .storeCount n => h = true ∧ lock.ownerCpu = some i ∧ n = lock.acquireCount
    | .unlock => h = true ∧ lock.ownerCpu = none

lemma sound_known :
    Sound Known Agrees fun h p => (h = true ↔ p = .recursiveAcquisition) where
  init i := ⟨fun h => (by cases h), fun h => (by cases h)⟩
  frame i j h e lock q lock' q' r hne hok hP hexec hj := by
    have howner : lock'.ownerCpu ≠ some j := by
      cases q <;> simp only [exec] at hexec <;> try split_ifs at hexec
      all_goals cases hexec
      all_goals simp_all [Agrees, Known, Ne.symm hne]
    cases r <;> simp_all [Agrees]
  calls i h e c lock hok hP := by
    cases c <;> simp_all [Agrees, Known, Call.entry]
  moves i h e lock q lock' q' hok hP hown hexec := by
    cases q <;> simp only [exec] at hexec <;> try split_ifs at hexec
    all_goals cases hexec
    all_goals simp_all [Agrees, Known, Pc.completes, held]
  fails i h e lock q p hok hP hown hexec := by
    cases q <;> simp only [exec] at hexec <;> try split_ifs at hexec
    all_goals cases hexec
    all_goals simp_all [Agrees, Known]

/-- With interrupts disabled the checks turn every misuse into a panic, and
nothing else. -/
theorem spinlock_checks_exact {s : State ℕ} (h : (system ℕ).ReachableVia (Permitted Known) s) :
    ∃ holder : Option ℕ, (∀ i, s.holds i = true ↔ holder = some i) ∧
      s.lock.isLocked = holder.isSome ∧
      (∀ i, s.pc i = .code → (s.lock.ownerCpu = some i ↔ holder = some i)) ∧
      (∀ i p, s.panic = some (i, p) → (holder = some i ↔ p = .recursiveAcquisition)) ∧
      (∀ i myCpu k, s.pc i = .spin myCpu k → holder ≠ some i) ∧
      ∀ i, s.pc i = .clearOwner → holder = some i := by
  obtain ⟨holder, hI⟩ := sound_known.inv h
  refine ⟨holder, hI.holds, hI.isLocked, ?_, ?_, ?_, ?_⟩
  · intro i hpc
    have hP := hpc ▸ hI.caller i
    rw [← hI.holds i]
    exact ⟨hP.1, hP.2⟩
  · intro i p hp
    rw [← hI.holds i]
    exact hI.verdict i p hp
  · intro i myCpu k hpc hholder
    have hP := hpc ▸ hI.caller i
    rw [← hI.holds i, hP.2.2] at hholder
    cases hholder
  · intro i hpc
    have hP := hpc ▸ hI.caller i
    exact (hI.holds i).mp hP.2.1

instance (s : State ℕ) (l : Label ℕ) : Decidable (Permitted Known s l) :=
  inferInstanceAs (Decidable (_ = _))

theorem spinlock_checks_exact_misuse :
    ∃ s : State ℕ, (system ℕ).ReachableVia (Permitted Known) s ∧
      s.panic = some (1, .differentCpu) ∧ ∃ holder : Option ℕ,
        (∀ i, s.holds i = true ↔ holder = some i) ∧ s.lock.isLocked = holder.isSome ∧
        ∀ i p, s.panic = some (i, p) → (holder = some i ↔ p = .recursiveAcquisition) := by
  have hrun : (((system ℕ).guard (Permitted Known)).run (initial ℕ)
      ([(0, some .testAndAcquire), (0, none), (0, none), (1, some .release), (1, none),
        (1, none)].map fun (i, call) => ⟨i, ⟨true, false, i⟩, call⟩)).any
      (·.panic = some (1, .differentCpu)) = true := by
    decide
  obtain ⟨s, hs, hpanic⟩ := (Option.any_eq_true _ _).mp hrun
  have hreach : (system ℕ).ReachableVia (Permitted Known) s :=
    System.ReachableVia.run_guard (.init rfl) hs
  obtain ⟨holder, hholds, hlocked, -, hverdict, -⟩ := spinlock_checks_exact hreach
  exact ⟨s, hreach, of_decide_eq_true hpanic, holder, hholds, hlocked, hverdict⟩

end Cottage.Spinlock
