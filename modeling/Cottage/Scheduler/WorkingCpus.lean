import Cottage.Scheduler.Ownership
import Mathlib.Algebra.BigOperators.Group.Finset.Piecewise

/-!
# The count of working processors

`scheduler_isr` takes a processor off `working_cpus` when it puts the current
thread away and counts it again when it resumes one.  The share of a processor
in the count is therefore read off its program point: between the two updates
it is 0, and elsewhere it is 1 exactly if the processor has a current thread.

The exception is a thread that ends: `scheduler_yield(false)` resets the GS
base, so the interrupt that follows finds no current thread and does not take
the processor off the count.
-/

namespace Cottage.Scheduler

open Transition Function

/-- The share of a processor in `working_cpus`. -/
def Pc.share (gs : Option Tid) : Pc → ℕ
  | .saveState .. | .clearCpuid .. | .releaseLock .. | .decWorking .. => 1
  | .goIdle _ | .heartbeatWorking | .heartbeatStartup | .incWorking .. | .panicked => 0
  | .restoreGs .. | .setCpuid .. | .resume _ => 1
  | .outside | .getCpu | .clearIdle _ | .scanStart .. | .scanSlot .. | .scanOwner .. | .scanLock ..
  | .selected .. | .sameThread .. => if gs.isSome then 1 else 0

/-- The current thread that `scheduler_isr` has loaded is the one GS points
at. -/
def Pc.Current (gs : Option Tid) : Pc → Prop
  | .scanStart _ current | .scanSlot _ current .. | .scanOwner _ current ..
  | .scanLock _ current .. | .selected _ current .. => current = gs
  | .sameThread _ t _ | .setCpuid _ t | .resume t => gs = some t
  | .heartbeatWorking | .heartbeatStartup => gs = none
  | _ => True

def State.share (s : State) (c : Cpu) : ℕ :=
  (s.pc c).share (s.gs c)

section Turn

variable {s s' : State} {c : Cpu}

/-- A step of processor `c`: no other processor changes, and `working_cpus`
changes as the share of `c` does. -/
structure Turn (s s' : State) (c : Cpu) : Prop where
  pc : ∀ d, d ≠ c → s'.pc d = s.pc d
  gs : ∀ d, d ≠ c → s'.gs d = s.gs d
  current : (s'.pc c).Current (s'.gs c)
  balance : s'.workingCpus + UInt64.ofNat (s.share c) = s.workingCpus + UInt64.ofNat (s'.share c)

variable {p : Pc} {cpu : Cpu} {gs : Option Tid} {index : ℕ}

lemma Turn.of_setPc (hpc : s'.pc = update s.pc c p)
    (hgs : ∀ d, d ≠ c → s'.gs d = s.gs d) (hcurrent : p.Current (s'.gs c))
    (hbalance : s'.workingCpus + UInt64.ofNat (s.share c) =
      s.workingCpus + UInt64.ofNat (p.share (s'.gs c))) : Turn s s' c := by
  have hp : s'.pc c = p := by rw [hpc, update_self]
  refine ⟨?_, hgs, hp.symm ▸ hcurrent, ?_⟩
  · intro d hd
    rw [hpc, update_of_ne hd]
  · rw [hbalance, State.share, hp]

lemma Turn.of_share_eq (hpc : s'.pc = update s.pc c p) (hgs : s'.gs = s.gs)
    (hworking : s'.workingCpus = s.workingCpus) (hcurrent : p.Current (s.gs c))
    (hshare : p.share (s.gs c) = s.share c) : Turn s s' c := by
  apply Turn.of_setPc hpc
  · exact fun _ _ => congrFun hgs _
  · rw [hgs]
    exact hcurrent
  · rw [hworking, hgs, hshare]

lemma share_of_pc (hp : s.pc c = p) : s.share c = p.share (s.gs c) :=
  congrArg (Pc.share (s.gs c)) hp

lemma scanNext_current {number : Cpu} {checked : ℕ} :
    (scanNext cpu gs number index checked).Current gs := by
  unfold scanNext
  split_ifs <;> rfl

lemma share_scanNext {number : Cpu} {current : Option Tid} {checked : ℕ} :
    (scanNext cpu current number index checked).share gs = if gs.isSome then 1 else 0 := by
  by_cases hchecked : checked + 1 < maxThreads
  · rw [scanNext, if_pos hchecked]
    rfl
  · rw [scanNext, if_neg hchecked]
    rfl

lemma dispatch_current {new : Option Tid} : (dispatch cpu new index).Current gs := by
  cases new <;> trivial

lemma share_dispatch {new : Option Tid} : (dispatch cpu new index).share gs = 0 := by
  cases new <;> rfl

lemma schedulerIsr_turn (h : schedulerIsr s c = some s')
    (hcurrent : (s.pc c).Current (s.gs c)) : Turn s s' c := by
  unfold schedulerIsr at h
  cases hp : s.pc c <;>
    simp only [hp, Option.some.injEq, Option.map_eq_some_iff, reduceCtorEq] at h hcurrent
  case getCpu =>
    obtain ⟨cpu, -, rfl⟩ := h
    exact .of_share_eq rfl rfl rfl trivial (share_of_pc hp).symm
  case clearIdle cpu =>
    subst h
    exact .of_share_eq rfl rfl rfl rfl (share_of_pc hp).symm
  case scanStart cpu current =>
    obtain ⟨number, -, rfl⟩ := h
    exact .of_share_eq rfl rfl rfl hcurrent (share_of_pc hp).symm
  case scanSlot cpu current number index checked =>
    cases hslot : s.queue index with
    | none =>
      simp only [hslot, Option.some.injEq] at h
      subst h hcurrent
      exact .of_share_eq rfl rfl rfl scanNext_current (share_scanNext.trans (share_of_pc hp).symm)
    | some t =>
      simp only [hslot] at h
      cases h
      exact .of_share_eq rfl rfl rfl hcurrent (share_of_pc hp).symm
  case scanOwner cpu current number index checked t =>
    split_ifs at h <;> cases h
    · exact .of_share_eq rfl rfl rfl hcurrent (share_of_pc hp).symm
    · exact .of_share_eq rfl rfl rfl hcurrent (share_of_pc hp).symm
  case scanLock cpu current number index checked t =>
    split_ifs at h <;> cases h
    · exact .of_share_eq rfl rfl rfl hcurrent (share_of_pc hp).symm
    · subst hcurrent
      exact .of_share_eq rfl rfl rfl scanNext_current (share_scanNext.trans (share_of_pc hp).symm)
  case selected cpu current new index =>
    have hgs : current = s.gs c := hcurrent
    have hshare := share_of_pc hp
    cases hcur : current with
    | none =>
      rw [hcur] at h hgs
      cases h
      refine .of_share_eq rfl rfl rfl dispatch_current ?_
      rw [share_dispatch, hshare, ← hgs]
      rfl
    | some t =>
      rw [hcur] at h hgs
      cases h
      split_ifs
      · exact .of_share_eq rfl rfl rfl hgs.symm hshare.symm
      · refine .of_share_eq rfl rfl rfl trivial ?_
        rw [hshare, ← hgs]
        rfl
  case sameThread cpu t index =>
    have hgs : s.gs c = some t := hcurrent
    split_ifs at h <;> cases h
    · exact .of_share_eq rfl rfl rfl trivial (share_of_pc hp).symm
    · refine .of_share_eq rfl rfl rfl trivial ?_
      rw [share_of_pc hp, hgs]
      rfl
  case saveState cpu t new index | clearCpuid cpu t new index | releaseLock cpu t new index =>
    subst h
    exact .of_share_eq rfl rfl rfl trivial (share_of_pc hp).symm
  case decWorking cpu new index =>
    subst h
    refine .of_setPc rfl (fun _ _ => rfl) dispatch_current ?_
    rw [share_of_pc hp, share_dispatch]
    exact (UInt64.sub_add_cancel s.workingCpus 1).trans (UInt64.add_zero _).symm
  case goIdle cpu =>
    subst h
    refine .of_setPc rfl (fun d hd => update_of_ne hd _ _) (update_self _ _ _) ?_
    rw [share_of_pc hp]
    rfl
  case heartbeatWorking =>
    have hgs : s.gs c = none := hcurrent
    split_ifs at h <;> cases h
    · exact .of_share_eq rfl rfl rfl hgs (share_of_pc hp).symm
    · refine .of_share_eq rfl rfl rfl trivial ?_
      rw [share_of_pc hp, hgs]
      rfl
  case heartbeatStartup =>
    have hgs : s.gs c = none := hcurrent
    split_ifs at h <;> cases h
    · refine .of_share_eq rfl rfl rfl trivial ?_
      rw [share_of_pc hp, hgs]
      rfl
    · exact .of_share_eq rfl rfl rfl trivial (share_of_pc hp).symm
  case incWorking cpu t index =>
    subst h
    refine .of_setPc rfl (fun _ _ => rfl) trivial ?_
    rw [share_of_pc hp]
    exact UInt64.add_zero _
  case restoreGs cpu t index =>
    subst h
    refine .of_setPc rfl (fun d hd => update_of_ne hd _ _) (update_self _ _ _) ?_
    rw [share_of_pc hp]
    rfl
  case setCpuid cpu t =>
    subst h
    exact .of_share_eq rfl rfl rfl hcurrent (share_of_pc hp).symm
  case resume t =>
    have hgs : s.gs c = some t := hcurrent
    subst h
    refine .of_share_eq rfl rfl rfl trivial ?_
    rw [share_of_pc hp, hgs]
    rfl

end Turn

def shares (cpuCount : ℕ) (s : State) : ℕ :=
  ∑ c ∈ Finset.range cpuCount, s.share c

section Sum

variable {cpuCount : ℕ} {s s' : State} {c : Cpu}

lemma shares_turn (h : Turn s s' c) (hc : c < cpuCount) :
    shares cpuCount s' + s.share c = shares cpuCount s + s'.share c := by
  have hmem : c ∈ Finset.range cpuCount := Finset.mem_range.mpr hc
  have hrest : ∑ d ∈ (Finset.range cpuCount).erase c, s'.share d =
      ∑ d ∈ (Finset.range cpuCount).erase c, s.share d := by
    apply Finset.sum_congr rfl
    intro d hd
    have hdc := Finset.ne_of_mem_erase hd
    rw [State.share, State.share, h.pc d hdc, h.gs d hdc]
  have hs : s.share c + ∑ d ∈ (Finset.range cpuCount).erase c, s.share d = shares cpuCount s :=
    Finset.add_sum_erase _ _ hmem
  have hs' : s'.share c + ∑ d ∈ (Finset.range cpuCount).erase c, s'.share d = shares cpuCount s' :=
    Finset.add_sum_erase _ _ hmem
  omega

lemma shares_of_outside (h : ∀ c < cpuCount, s.pc c = .outside) :
    shares cpuCount s = {c ∈ Finset.range cpuCount | (s.gs c).isSome}.card := by
  rw [Finset.card_filter, shares]
  apply Finset.sum_congr rfl
  intro c hc
  exact share_of_pc (h c (Finset.mem_range.mp hc))

end Sum

structure Accounted (cpuCount : ℕ) (s : State) : Prop where
  current : ∀ c, (s.pc c).Current (s.gs c)
  working : s.workingCpus = UInt64.ofNat (shares cpuCount s)

section Step

variable {cpuCount : ℕ} {s s' : State}

lemma Accounted.turn {c : Cpu} (h : Accounted cpuCount s) (hc : c < cpuCount)
    (hturn : Turn s s' c) : Accounted cpuCount s' := by
  refine ⟨?_, ?_⟩
  · intro d
    by_cases hdc : d = c
    · exact hdc ▸ hturn.current
    · rw [hturn.pc d hdc, hturn.gs d hdc]
      exact h.current d
  · have hsum := congrArg UInt64.ofNat (shares_turn hturn hc)
    have hbalance := hturn.balance
    rw [UInt64.ofNat_add, UInt64.ofNat_add, ← h.working, ← hbalance] at hsum
    exact (UInt64.add_left_inj _).mp hsum.symm

lemma Accounted.congr (h : Accounted cpuCount s) (hpc : s'.pc = s.pc) (hgs : s'.gs = s.gs)
    (hworking : s'.workingCpus = s.workingCpus) : Accounted cpuCount s' := by
  have hshare : ∀ c, s'.share c = s.share c := fun c => by rw [State.share, State.share, hpc, hgs]
  refine ⟨?_, ?_⟩
  · rw [hpc, hgs]
    exact h.current
  · rw [hworking, h.working, shares, shares]
    simp only [hshare]

lemma enqueueThread_same {k : ℕ} (h : enqueueThread cpuCount s k = some s') :
    s'.pc = s.pc ∧ s'.gs = s.gs ∧ s'.workingCpus = s.workingCpus := by
  unfold enqueueThread at h
  split at h
  all_goals first
    | (split_ifs at h <;> (cases h; exact ⟨rfl, rfl, rfl⟩))
    | (cases h; done)
    | (cases h; exact ⟨rfl, rfl, rfl⟩)

lemma threadStep_same {c : Cpu} {t : Tid} (hdie : s.regs c ≠ .yieldDie)
    (h : threadStep s c t = some s') :
    s'.pc = s.pc ∧ s'.gs = s.gs ∧ s'.workingCpus = s.workingCpus := by
  unfold threadStep at h
  split at h
  all_goals first
    | (split_ifs at h <;> (cases h; exact ⟨rfl, rfl, rfl⟩))
    | (cases h; done)
    | (cases h; exact ⟨rfl, rfl, rfl⟩)
    | exact absurd ‹s.regs c = .yieldDie› hdie

/-- No thread ends: none reaches the point of `scheduler_yield(false)` at which
the GS base is reset. -/
def NoDeath (s : State) (e : Event) : Prop :=
  ∀ c ∈ (match e with | .thread c => some c | _ => none), s.regs c ≠ .yieldDie

instance (s : State) (e : Event) : Decidable (NoDeath s e) := by
  cases e <;> unfold NoDeath <;> infer_instance

lemma Accounted.step {e : Event} (h : Accounted cpuCount s) (hok : NoDeath s e)
    (hstep : step cpuCount s e = some s') : Accounted cpuCount s' := by
  cases e with
  | interrupt c =>
    simp only [Scheduler.step] at hstep
    split_ifs at hstep with hc
    cases hstep
    exact h.turn hc.1 (.of_share_eq rfl rfl rfl trivial (share_of_pc hc.2).symm)
  | isr c =>
    simp only [Scheduler.step] at hstep
    split_ifs at hstep with hc
    exact h.turn hc (schedulerIsr_turn hstep (h.current c))
  | call c request =>
    simp only [Scheduler.step] at hstep
    split_ifs at hstep with hc
    cases hstep
    exact h.congr rfl rfl rfl
  | thread c =>
    simp only [Scheduler.step] at hstep
    split_ifs at hstep with hc
    obtain ⟨t, -, hthread⟩ := Option.bind_eq_some_iff.mp hstep
    obtain ⟨hpc, hgs, hworking⟩ := threadStep_same (hok c rfl) hthread
    exact h.congr hpc hgs hworking
  | enqueueCall k t bySignal =>
    simp only [Scheduler.step] at hstep
    split_ifs at hstep with hc
    cases hstep
    exact h.congr rfl rfl rfl
  | enqueue k =>
    obtain ⟨hpc, hgs, hworking⟩ := enqueueThread_same hstep
    exact h.congr hpc hgs hworking

end Step

/-! ## The count when no processor is inside the scheduler -/

def bootSystem (cpuCount : ℕ) : System State Event where
  init s := Initial s ∧ s.workingCpus = 0
  step := step cpuCount

lemma Accounted.of_boot {cpuCount : ℕ} {s : State} (h : Initial s) (hzero : s.workingCpus = 0) :
    Accounted cpuCount s := by
  obtain ⟨-, -, hcpus, -⟩ := h
  refine ⟨?_, ?_⟩
  · intro c
    rw [(hcpus c).1]
    trivial
  · have hshare : ∀ c, s.share c = 0 := by
      intro c
      rw [share_of_pc (hcpus c).1, (hcpus c).2.1]
      rfl
    rw [hzero, shares, Finset.sum_eq_zero fun c _ => hshare c]
    rfl

def WorkingCounted (cpuCount : ℕ) (s : State) : Prop :=
  (∀ c < cpuCount, s.pc c = .outside) →
    s.workingCpus.toNat = {c ∈ Finset.range cpuCount | (s.gs c).isSome}.card ∧
      s.workingCpus.toNat ≤ cpuCount

/-- The count is right whenever no processor is inside `scheduler_isr`, in
every run in which no thread ends, on any number of processors that
`cpu_count` can hold. -/
theorem working_counted_of_noDeath {cpuCount : ℕ} (hcount : cpuCount < 2 ^ 64) {s : State}
    (h : (bootSystem cpuCount).ReachableVia NoDeath s) : WorkingCounted cpuCount s := by
  have hinv : Accounted cpuCount s := h.invariant (fun _ hs => .of_boot hs.1 hs.2)
    fun _ _ _ hinv hok hstep => hinv.step hok hstep
  intro houtside
  have hle : {c ∈ Finset.range cpuCount | (s.gs c).isSome}.card ≤ cpuCount :=
    (Finset.card_filter_le _ _).trans (Finset.card_range cpuCount).le
  rw [hinv.working, shares_of_outside houtside, UInt64.toNat_ofNat_of_lt' (hle.trans_lt hcount)]
  exact ⟨rfl, hle⟩

theorem working_counted_one_running : ∃ s, (bootSystem 2).ReachableVia NoDeath s ∧
    Running s 0 1 ∧ WorkingCounted 2 s := by
  have hrun : (((bootSystem 2).guard NoDeath).run queuedTwo
      (.interrupt 0 :: List.replicate 11 (.isr 0))).any fun s => decide (Running s 0 1) := by
    decide +kernel
  have hinit : ((bootSystem 2).guard NoDeath).init queuedTwo := ⟨queuedTwo_initial, rfl⟩
  obtain ⟨s, hs, hrunning⟩ := System.Reachable.exists_of_run_any (.init hinit) _ _ hrun
  have hvia := System.reachableVia_of_guard hs
  exact ⟨s, hvia, of_decide_eq_true hrunning, working_counted_of_noDeath (by decide) hvia⟩

def runAndDie : List Event :=
  [(1, .interrupt 0), (11, .isr 0), (1, .call 0 .dequeueAndDie), (5, .thread 0), (1, .interrupt 0),
    (521, .isr 0)].flatMap fun (n, e) => List.replicate n e

theorem working_exceeds_cpuCount : ∃ s, (bootSystem 1).Reachable s ∧ ¬ WorkingCounted 1 s := by
  have hrun : ((bootSystem 1).run queuedTwo runAndDie).any fun s =>
      decide (Running s 0 0 ∧ s.workingCpus = 2) := by
    decide +kernel
  have hinit : (bootSystem 1).init queuedTwo := ⟨queuedTwo_initial, rfl⟩
  obtain ⟨s, hs, hover⟩ := System.Reachable.exists_of_run_any (.init hinit) _ _ hrun
  obtain ⟨⟨hpc, -⟩, hworking⟩ := of_decide_eq_true hover
  refine ⟨s, hs, ?_⟩
  intro hcounted
  have houtside : ∀ c < 1, s.pc c = .outside := by
    intro c hc
    rw [Nat.lt_one_iff.mp hc, hpc]
  have hle := (hcounted houtside).2
  rw [hworking] at hle
  exact absurd hle (by decide)

end Cottage.Scheduler
