import Cottage.Foundations.Ownership
import Cottage.Scheduler.Model

/-!
# Who owns a thread

A processor owns a thread from the moment `get_next_thread` hands it out until
`scheduler_isr` releases the thread's lock.  Ownership is read off the program
counters; with the `lock` and `cpuid` fields it forms a view of the state in
the sense of `Cottage.Ownership`.  Every step of the scheduler is a move of
that view as long as the branch that puts the current thread away although
`get_next_thread` has just handed it out again is not taken.
-/

namespace Cottage.Scheduler

open Transition Ownership Function

/-- The threads a processor at the given program point has not yet let go
of. -/
def Pc.held (gs : Option Tid) : Pc → List Tid
  | .outside | .getCpu | .clearIdle _ => gs.toList
  | .scanStart _ current | .scanSlot _ current .. | .scanOwner _ current ..
  | .scanLock _ current .. => current.toList
  | .selected _ current new _ => current.toList ++ new.toList
  | .sameThread _ t _ => [t]
  | .saveState _ t new _ | .clearCpuid _ t new _ | .releaseLock _ t new _ => t :: new.toList
  | .decWorking _ new _ => new.toList
  | .incWorking _ t _ | .restoreGs _ t _ | .setCpuid _ t | .resume t => [t]
  | .goIdle _ | .heartbeatWorking | .heartbeatStartup | .panicked => []

def State.held (s : State) (c : Cpu) : List Tid :=
  (s.pc c).held (s.gs c)

def Running (s : State) (c : Cpu) (t : Tid) : Prop :=
  s.pc c = .outside ∧ s.gs c = some t

instance (s : State) (c : Cpu) (t : Tid) : Decidable (Running s c t) :=
  inferInstanceAs (Decidable (_ ∧ _))

def Selected (s : State) (c : Cpu) (t : Tid) : Prop :=
  t ∈ s.held c

def Restoring (s : State) (c : Cpu) (t : Tid) : Prop :=
  (∃ cpu index, s.pc c = .restoreGs cpu t index) ∨ (∃ cpu, s.pc c = .setCpuid cpu t) ∨
    s.pc c = .resume t

/-- No thread is run by two processors, and no processor loads the saved state
of a thread that another one has selected and not yet released. -/
def ThreadsExclusive (s : State) : Prop :=
  (∀ c d t, Running s c t → Running s d t → c = d) ∧
    ∀ c d t, Restoring s c t → Selected s d t → c = d

def view (s : State) : View Cpu Tid where
  lock := s.lock
  tag := s.cpuid
  owns c t := t ∈ s.held c

/-- What a processor's local variables say about its own number, its GS base
and the `cpuid` of the thread it is putting away or taking up. -/
def Pc.Coherent (c : Cpu) (gs : Option Tid) (cpuid : Tid → Option Cpu) : Pc → Prop
  | .outside | .getCpu => ∀ t, gs = some t → cpuid t = some c
  | .clearIdle cpu => cpu = c ∧ ∀ t, gs = some t → cpuid t = some c
  | .scanStart cpu current =>
    cpu = c ∧ current = gs ∧ ∀ t, gs = some t → cpuid t = some c
  | .scanSlot cpu current number .. | .scanOwner cpu current number ..
  | .scanLock cpu current number .. =>
    cpu = c ∧ number = c ∧ current = gs ∧ ∀ t, gs = some t → cpuid t = some c
  | .selected cpu current _ _ =>
    cpu = c ∧ current = gs ∧ ∀ t, gs = some t → cpuid t = some c
  | .sameThread cpu t _ => cpu = c ∧ gs = some t ∧ cpuid t = some c
  | .saveState cpu t new _ | .clearCpuid cpu t new _ => cpu = c ∧ new ≠ some t
  | .releaseLock cpu t new _ => cpu = c ∧ new ≠ some t ∧ cpuid t = none
  | .decWorking cpu _ _ | .goIdle cpu | .incWorking cpu _ _ | .restoreGs cpu _ _ => cpu = c
  | .setCpuid cpu t => cpu = c ∧ gs = some t
  | .resume t => gs = some t ∧ cpuid t = some c
  | .heartbeatWorking | .heartbeatStartup => gs = none
  | .panicked => True

structure Inv (s : State) : Prop where
  exclusive : (view s).Exclusive
  coherent : ∀ c, (s.pc c).Coherent c (s.gs c) s.cpuid
  record : ∀ c, s.record c = c

lemma Pc.Coherent.congr {c : Cpu} {gs : Option Tid} {cpuid cpuid' : Tid → Option Cpu} {p : Pc}
    (h : p.Coherent c gs cpuid) (heq : ∀ t ∈ p.held gs, cpuid' t = cpuid t) :
    p.Coherent c gs cpuid' := by
  cases p <;> simp_all [Pc.Coherent, Pc.held]

section Moves

variable {s t : State} {c : Cpu}

lemma owns_of_local {P : Cpu → Tid → Prop}
    (hpc : ∀ d, d ≠ c → t.pc d = s.pc d) (hgs : ∀ d, d ≠ c → t.gs d = s.gs d)
    (hother : ∀ d u, d ≠ c → u ∈ s.held d → P d u)
    (hself : ∀ u ∈ t.held c, P c u) (d : Cpu) (u : Tid) (hd : (view t).owns d u) : P d u := by
  by_cases hdc : d = c
  · subst hdc
    exact hself u hd
  · apply hother d u hdc
    simpa only [view, State.held, hpc d hdc, hgs d hdc] using hd

lemma Inv.ne_of_held (h : Inv s) {u v : Tid} {d : Cpu} (hdc : d ≠ c) (hu : u ∈ s.held c)
    (hv : v ∈ s.held d) : v ≠ u := by
  rintro rfl
  exact hdc (h.exclusive.unique d c v hv hu)

variable (h : Inv s) (hpc : ∀ d, d ≠ c → t.pc d = s.pc d)
  (hgs : ∀ d, d ≠ c → t.gs d = s.gs d) (hrecord : ∀ d, t.record d = d)
  (hcoherent : (t.pc c).Coherent c (t.gs c) t.cpuid)

include h hpc hgs hrecord hcoherent

lemma Inv.of_move (hcpuid : ∀ d, d ≠ c → ∀ u ∈ s.held d, t.cpuid u = s.cpuid u)
    (hmove : Move (view s) (view t)) : Inv t where
  exclusive := hmove.exclusive h.exclusive
  coherent d := by
    by_cases hdc : d = c
    · exact hdc ▸ hcoherent
    · rw [hpc d hdc, hgs d hdc]
      exact (h.coherent d).congr (hcpuid d hdc)
  record := hrecord

lemma Inv.retag (u : Tid) (hu : u ∈ s.held c) (tag : Option Cpu)
    (htag : tag = none ∨ tag = some c) (hlock : t.lock = s.lock)
    (hcpuid : t.cpuid = update s.cpuid u tag) (hheld : ∀ v ∈ t.held c, v ∈ s.held c) :
    Inv t := by
  have howns := owns_of_local hpc hgs (fun _ _ _ hv => hv) hheld
  refine h.of_move hpc hgs hrecord hcoherent (fun d hdc v hv => ?_) ?_
  · rw [hcpuid, update_of_ne (h.ne_of_held hdc hu hv)]
  · rcases htag with rfl | rfl
    · exact .clearTag u hlock hcpuid howns
    · exact .setTag c u hu hlock hcpuid howns

variable (hcpuid : t.cpuid = s.cpuid)

include hcpuid

lemma Inv.keep (hlock : t.lock = s.lock) (hheld : ∀ u ∈ t.held c, u ∈ s.held c) : Inv t :=
  h.of_move hpc hgs hrecord hcoherent (fun _ _ u _ => congrFun hcpuid u)
    (.keep hlock hcpuid (owns_of_local hpc hgs (fun _ _ _ hu => hu) hheld))

lemma Inv.acquire (u : Tid) (hfree : s.lock u = false) (hlock : t.lock = update s.lock u true)
    (hheld : ∀ v ∈ t.held c, v ∈ s.held c ∨ v = u) : Inv t :=
  h.of_move hpc hgs hrecord hcoherent (fun _ _ v _ => congrFun hcpuid v)
    (.acquire c u hfree hlock hcpuid (owns_of_local hpc hgs (fun _ _ _ hv => Or.inl hv)
      fun v hv => (hheld v hv).imp_right fun huv => ⟨rfl, huv⟩))

lemma Inv.adopt (u : Tid) (hmine : s.cpuid u = some c) (hlock : t.lock = s.lock)
    (hheld : ∀ v ∈ t.held c, v ∈ s.held c ∨ v = u) : Inv t :=
  h.of_move hpc hgs hrecord hcoherent (fun _ _ v _ => congrFun hcpuid v)
    (.adopt c u hmine hlock hcpuid (owns_of_local hpc hgs (fun _ _ _ hv => Or.inl hv)
      fun v hv => (hheld v hv).imp_right fun huv => ⟨rfl, huv⟩))

lemma Inv.release (u : Tid) (hu : u ∈ s.held c) (huntagged : s.cpuid u = none)
    (hlock : t.lock = update s.lock u false)
    (hheld : ∀ v ∈ t.held c, v ∈ s.held c ∧ v ≠ u) : Inv t :=
  h.of_move hpc hgs hrecord hcoherent (fun _ _ v _ => congrFun hcpuid v)
    (.release c u hu huntagged hlock hcpuid (owns_of_local hpc hgs
      (fun _ _ hdc hv => ⟨hv, fun hd => hdc hd.1⟩)
      fun v hv => ⟨(hheld v hv).1, fun hc => (hheld v hv).2 hc.2⟩))

end Moves

def Pc.reselected : Pc → Option Tid
  | .sameThread _ t _ => some t
  | _ => none

/-- The condition under which the scheduler keeps threads apart: whenever
`scheduler_isr` has been handed its own current thread, it finds
`is_in_queue` set. -/
def ReselectedInQueue (s : State) : Event → Prop
  | .isr c => ∀ t ∈ (s.pc c).reselected, s.isInQueue t = true
  | _ => True

instance (s : State) : ∀ e, Decidable (ReselectedInQueue s e)
  | .isr c => inferInstanceAs (Decidable (∀ t ∈ (s.pc c).reselected, s.isInQueue t = true))
  | .interrupt _ | .call .. | .thread _ | .enqueueCall .. | .enqueue _ =>
    inferInstanceAs (Decidable True)

section Preservation

variable {s t : State} {c : Cpu}

lemma Inv.frame (h : Inv s) (hlock : t.lock = s.lock) (hcpuid : t.cpuid = s.cpuid)
    (hpc : t.pc = s.pc) (hgs : t.gs = s.gs) (hrecord : t.record = s.record) : Inv t := by
  refine h.keep (c := 0) (fun d _ => congrFun hpc d) (fun d _ => congrFun hgs d)
    (hrecord ▸ h.record) ?_ hcpuid hlock ?_
  · rw [hpc, hgs, hcpuid]
    exact h.coherent 0
  · intro u hu
    rwa [State.held, hpc, hgs] at hu

section

variable (h : Inv s)

include h

lemma Inv.cpuGetCurrent_eq (hcoh : ∀ t, s.gs c = some t → s.cpuid t = some c) :
    cpuGetCurrent s c = some c := by
  unfold cpuGetCurrent
  cases hgs : s.gs c with
  | none => exact congrArg some (h.record c)
  | some t => exact hcoh t hgs

lemma Inv.record_update : ∀ d, update s.record c c d = d := by
  intro d
  by_cases hdc : d = c
  · rw [hdc, update_self]
  · rw [update_of_ne hdc, h.record d]

lemma Inv.setPc_keep {p : Pc} (hheld : ∀ u ∈ p.held (s.gs c), u ∈ s.held c)
    (hcoherent : p.Coherent c (s.gs c) s.cpuid) : Inv (s.setPc c p) := by
  refine h.keep (c := c) (fun d hd => ?_) (fun _ _ => rfl) h.record ?_ rfl rfl ?_
  · simp [hd]
  · simpa using hcoherent
  · simpa [State.held] using hheld

lemma Inv.scanNext_keep {cpu : Cpu} {current : Option Tid} {number : Cpu} {index checked : ℕ}
    (hheld : ∀ u ∈ current.toList, u ∈ s.held c)
    (hcoherent : cpu = c ∧ number = c ∧ current = s.gs c ∧
      ∀ t, s.gs c = some t → s.cpuid t = some c) :
    Inv (s.setPc c (scanNext cpu current number index checked)) := by
  unfold scanNext
  split_ifs
  · exact h.setPc_keep hheld hcoherent
  · exact h.setPc_keep hheld hcoherent
  · exact h.setPc_keep (by simpa [Pc.held] using hheld) ⟨hcoherent.1, hcoherent.2.2⟩

lemma Inv.dispatch_keep {cpu : Cpu} {new : Option Tid} {index : ℕ} (hcpu : cpu = c)
    (hheld : ∀ u ∈ new.toList, u ∈ s.held c) : Inv (s.setPc c (dispatch cpu new index)) := by
  cases new with
  | none => exact h.setPc_keep (by simp [dispatch, Pc.held]) hcpu
  | some u => exact h.setPc_keep (by simpa [dispatch, Pc.held] using hheld) hcpu

lemma schedulerIsr_inv (hok : ReselectedInQueue s (.isr c)) (hstep : schedulerIsr s c = some t) :
    Inv t := by
  have hcoh := h.coherent c
  unfold schedulerIsr at hstep
  cases hpc : s.pc c <;> simp only [hpc, Pc.Coherent, reduceCtorEq] at hstep hcoh
  case getCpu =>
    rw [h.cpuGetCurrent_eq hcoh] at hstep
    cases hstep
    exact h.setPc_keep (by simp [State.held, hpc, Pc.held]) ⟨rfl, hcoh⟩
  case clearIdle cpu =>
    cases hstep
    have hs : Inv { s with isIdle := update s.isIdle cpu false } :=
      h.frame rfl rfl rfl rfl rfl
    exact hs.setPc_keep (by simp [State.held, hpc, Pc.held]) ⟨hcoh.1, rfl, hcoh.2⟩
  case scanStart cpu current =>
    obtain ⟨hcpu, hcur, hgs⟩ := hcoh
    rw [h.cpuGetCurrent_eq hgs] at hstep
    cases hstep
    exact h.setPc_keep (by simp [State.held, hpc, Pc.held]) ⟨hcpu, rfl, hcur, hgs⟩
  case scanSlot cpu current number index checked =>
    cases hq : s.queue index with
    | none =>
      simp only [hq] at hstep
      cases hstep
      exact h.scanNext_keep (by simp [State.held, hpc, Pc.held]) hcoh
    | some u =>
      simp only [hq] at hstep
      cases hstep
      exact h.setPc_keep (by simp [State.held, hpc, Pc.held]) hcoh
  case scanOwner cpu current number index checked u =>
    obtain ⟨hcpu, hnumber, hcur, hgs⟩ := hcoh
    split_ifs at hstep with hmine
    · cases hstep
      rw [hnumber] at hmine
      refine h.adopt (c := c) (fun d hd => ?_) (fun _ _ => rfl) h.record ?_ rfl u hmine rfl ?_
      · simp [hd]
      · simpa using ⟨hcpu, hcur, hgs⟩
      · simp [State.held, hpc, Pc.held]
    · cases hstep
      exact h.setPc_keep (by simp [State.held, hpc, Pc.held]) ⟨hcpu, hnumber, hcur, hgs⟩
  case scanLock cpu current number index checked u =>
    split_ifs at hstep with hfree
    · cases hstep
      refine h.acquire (c := c) (fun d hd => ?_) (fun _ _ => rfl) h.record ?_ rfl u hfree rfl ?_
      · simp [hd]
      · simpa using ⟨hcoh.1, hcoh.2.2⟩
      · simp [State.held, hpc, Pc.held]
    · cases hstep
      exact h.scanNext_keep (by simp [State.held, hpc, Pc.held]) hcoh
  case selected cpu current new index =>
    obtain ⟨hcpu, hcur, hgs⟩ := hcoh
    cases current with
    | none =>
      cases hstep
      exact h.dispatch_keep hcpu (by simp [State.held, hpc, Pc.held])
    | some u =>
      cases hstep
      have hs : Inv { s with yieldAwait := update s.yieldAwait u false } :=
        h.frame rfl rfl rfl rfl rfl
      split_ifs with hsame
      · exact hs.setPc_keep (by simp [State.held, hpc, Pc.held]) ⟨hcpu, hcur.symm, hgs u hcur.symm⟩
      · exact hs.setPc_keep (by simp [State.held, hpc, Pc.held]) ⟨hcpu, hsame⟩
  case sameThread cpu u index =>
    obtain ⟨_, hgs, hcpuid⟩ := hcoh
    simp only [ReselectedInQueue, hpc, Pc.reselected, Option.mem_some_iff, forall_eq'] at hok
    rw [if_pos hok, Option.some.injEq] at hstep
    subst hstep
    refine h.setPc_keep (by simp [State.held, hpc, Pc.held, hgs]) ?_
    intro v hv
    rw [hgs, Option.some.injEq] at hv
    exact hv ▸ hcpuid
  case saveState cpu u new index =>
    cases hstep
    have hs : Inv { s with cpuState := update s.cpuState u (s.regs c) } :=
      h.frame rfl rfl rfl rfl rfl
    exact hs.setPc_keep (by simp [State.held, hpc, Pc.held]) hcoh
  case clearCpuid cpu u new index =>
    cases hstep
    refine h.retag (c := c) (fun d hd => ?_) (fun _ _ => rfl) h.record ?_ u
      (by simp [State.held, hpc, Pc.held]) none (.inl rfl) rfl rfl ?_
    · simp [hd]
    · simpa [Pc.Coherent] using hcoh
    · simp [State.held, hpc, Pc.held]
  case releaseLock cpu u new index =>
    obtain ⟨hcpu, hnew, huntagged⟩ := hcoh
    cases hstep
    refine h.release (c := c) (fun d hd => ?_) (fun _ _ => rfl) h.record ?_ rfl u
      (by simp [State.held, hpc, Pc.held]) huntagged rfl ?_
    · simp [hd]
    · simpa [Pc.Coherent] using hcpu
    · intro v hv
      have hvnew : new = some v := by simpa [State.held, Pc.held] using hv
      exact ⟨by simp [State.held, hpc, Pc.held, hvnew], fun huv => hnew (huv ▸ hvnew)⟩
  case decWorking cpu new index =>
    cases hstep
    have hs : Inv { s with workingCpus := s.workingCpus - 1 } := h.frame rfl rfl rfl rfl rfl
    exact hs.dispatch_keep hcoh (by simp [State.held, hpc, Pc.held])
  case goIdle cpu =>
    cases hstep
    obtain rfl := hcoh
    refine h.keep (c := cpu) (fun d hd => ?_) (fun d hd => ?_) h.record_update ?_ rfl rfl ?_
    · simp [hd]
    · simp [hd]
    · simp [Pc.Coherent]
    · simp [State.held, Pc.held]
  case heartbeatWorking =>
    split_ifs at hstep
    · cases hstep
      exact h.setPc_keep (by simp [Pc.held]) hcoh
    · cases hstep
      exact h.setPc_keep (by simp [Pc.held, hcoh]) (by simp [Pc.Coherent, hcoh])
  case heartbeatStartup =>
    split_ifs at hstep
    · cases hstep
      exact h.setPc_keep (by simp [Pc.held, hcoh]) (by simp [Pc.Coherent, hcoh])
    · cases hstep
      exact h.setPc_keep (by simp [Pc.held]) trivial
  case incWorking cpu u index =>
    cases hstep
    have hs : Inv { s with workingCpus := s.workingCpus + 1 } := h.frame rfl rfl rfl rfl rfl
    exact hs.setPc_keep (by simp [State.held, hpc, Pc.held]) hcoh
  case restoreGs cpu u index =>
    cases hstep
    refine h.keep (c := c) (fun d hd => ?_) (fun d hd => ?_) h.record ?_ rfl rfl ?_
    · simp [hd]
    · simp [hd]
    · simpa [Pc.Coherent] using hcoh
    · simp [State.held, hpc, Pc.held]
  case setCpuid cpu u =>
    obtain ⟨rfl, hgs⟩ := hcoh
    cases hstep
    refine h.retag (c := cpu) (fun d hd => ?_) (fun _ _ => rfl) h.record ?_ u
      (by simp [State.held, hpc, Pc.held]) (some cpu) (.inr rfl) rfl rfl ?_
    · simp [hd]
    · simpa [Pc.Coherent] using hgs
    · simp [State.held, hpc, Pc.held]
  case resume u =>
    obtain ⟨hgs, hcpuid⟩ := hcoh
    cases hstep
    have hs : Inv (s.setRegs c (s.cpuState u)) := h.frame rfl rfl rfl rfl rfl
    refine hs.setPc_keep (by simp [State.held, hpc, Pc.held, hgs]) ?_
    intro v hv
    rw [State.setRegs_gs, hgs, Option.some.injEq] at hv
    exact hv ▸ hcpuid

lemma enqueueThread_inv {cpuCount k : ℕ} (hstep : enqueueThread cpuCount s k = some t) :
    Inv t := by
  unfold enqueueThread at hstep
  cases hcall : s.calls k with
  | none => simp [hcall] at hstep
  | some call =>
    cases call <;> simp only [hcall] at hstep <;> (try split_ifs at hstep) <;>
      first
        | cases hstep; exact h.frame rfl rfl rfl rfl rfl
        | cases hstep

lemma threadStep_inv {u : Tid} (hpc : s.pc c = .outside) (hstep : threadStep s c u = some t) :
    Inv t := by
  unfold threadStep at hstep
  cases hregs : s.regs c with
  | yieldDie =>
    have hcoh := h.coherent c
    simp only [hpc, Pc.Coherent] at hcoh
    simp only [hregs, h.cpuGetCurrent_eq hcoh, Option.map_some] at hstep
    cases hstep
    refine h.keep (c := c) (fun _ _ => rfl) (fun d hd => ?_) h.record_update ?_ rfl rfl ?_
    · simp [hd]
    · simp [hpc, Pc.Coherent]
    · simp [State.held, hpc, Pc.held]
  | _ =>
    simp only [hregs] at hstep
    (try split_ifs at hstep) <;>
      first
        | cases hstep; exact h.frame rfl rfl rfl rfl rfl
        | cases hstep

lemma step_inv {cpuCount : ℕ} {e : Event} (hok : ReselectedInQueue s e)
    (hstep : step cpuCount s e = some t) : Inv t := by
  cases e with
  | interrupt c =>
    simp only [step] at hstep
    split_ifs at hstep with hguard
    cases hstep
    have hcoh := h.coherent c
    simp only [hguard.2, Pc.Coherent] at hcoh
    exact h.setPc_keep (by simp [State.held, hguard.2, Pc.held]) hcoh
  | isr c =>
    simp only [step] at hstep
    split_ifs at hstep
    exact schedulerIsr_inv h hok hstep
  | call c request =>
    simp only [step] at hstep
    split_ifs at hstep
    cases hstep
    exact h.frame rfl rfl rfl rfl rfl
  | thread c =>
    simp only [step] at hstep
    split_ifs at hstep with hguard
    obtain ⟨u, _, hthread⟩ := Option.bind_eq_some_iff.mp hstep
    exact threadStep_inv h hguard.2 hthread
  | enqueueCall k u bySignal =>
    simp only [step] at hstep
    split_ifs at hstep
    cases hstep
    exact h.frame rfl rfl rfl rfl rfl
  | enqueue k => exact enqueueThread_inv h hstep

end

lemma initial_inv (h : Initial s) : Inv s := by
  obtain ⟨_, hcpuid, hcpus, _⟩ := h
  have hheld : ∀ c, s.held c = [] := by
    intro c
    simp [State.held, Pc.held, hcpus c]
  refine ⟨⟨?_, ?_, ?_⟩, ?_, fun c => (hcpus c).2.2⟩
  · intro c d u hc
    simp [view, hheld] at hc
  · intro c u hc
    simp [view, hheld] at hc
  · intro c u hc
    simp [view, hcpuid] at hc
  · intro c
    simp [Pc.Coherent, hcpus c]

end Preservation

lemma Inv.threadsExclusive {s : State} (h : Inv s) : ThreadsExclusive s := by
  have hunique : ∀ c d t, Selected s c t → Selected s d t → c = d := h.exclusive.unique
  have hrunning : ∀ c t, Running s c t → Selected s c t := by
    rintro c t ⟨hpc, hgs⟩
    simp [Selected, State.held, hpc, hgs, Pc.held]
  have hrestoring : ∀ c t, Restoring s c t → Selected s c t := by
    rintro c t (⟨cpu, index, hpc⟩ | ⟨cpu, hpc⟩ | hpc) <;>
      simp [Selected, State.held, hpc, Pc.held]
  exact ⟨fun c d t hc hd => hunique c d t (hrunning c t hc) (hrunning d t hd),
    fun c d t hc hd => hunique c d t (hrestoring c t hc) hd⟩

/-- In every run in which `scheduler_isr` never puts away the thread it has
just been handed, threads are exclusive in every state reached, on any number
of processors. -/
theorem threads_exclusive_of_reselectedInQueue {cpuCount : ℕ} {s : State}
    (h : (system cpuCount).ReachableVia ReselectedInQueue s) : ThreadsExclusive s :=
  (h.invariant (fun _ => initial_inv) fun _ _ _ hI => step_inv hI).threadsExclusive

def queuedTwo : State where
  queue i := if i < 2 then some i else none
  lock _ := false
  yieldAwait _ := false
  cpuid _ := none
  isInQueue t := t < 2
  enqueuedBySignal _ := false
  cpuState _ := .code
  isIdle _ := false
  lastRunQueueIndex _ := 0
  workingCpus := 0
  startupPhaseIgnoreHeartbeat := false
  gs _ := none
  record c := c
  regs _ := .halted
  pc _ := .outside
  calls _ := none

lemma queuedTwo_initial : Initial queuedTwo := by
  simp [Initial, queuedTwo]

theorem threads_exclusive_running : ∃ s, Running s 0 1 ∧
    (system 2).ReachableVia ReselectedInQueue s ∧ ThreadsExclusive s := by
  have hrun : (((system 2).guard ReselectedInQueue).run queuedTwo
      (.interrupt 0 :: List.replicate 11 (.isr 0))).any fun s =>
        decide (Running s 0 1) := by
    decide +kernel
  obtain ⟨s, hs, hrunning⟩ := System.Reachable.exists_of_run_any (.init queuedTwo_initial) _ _ hrun
  have hvia := System.reachableVia_of_guard hs
  exact ⟨s, of_decide_eq_true hrunning, hvia, threads_exclusive_of_reselectedInQueue hvia⟩

/-- Thread 1 blocks on processor 0, is woken by `enqueue_thread` and, before
the wake-up has stored `is_in_queue`, handed out again to processor 0, which
releases its lock; processor 1 then picks it as well. -/
def wakeRace : List Event :=
  [(1, .interrupt 0), (11, .isr 0), (1, .call 0 .dequeue), (4, .thread 0), (1, .call 0 .yield),
    (1, .thread 0), (1, .enqueueCall 0 2 false), (5, .enqueue 0), (1, .interrupt 1), (11, .isr 1),
    (1, .enqueueCall 1 1 false), (5, .enqueue 1), (1, .interrupt 0), (7, .isr 0), (1, .enqueue 1),
    (3, .isr 0), (1, .interrupt 1), (15, .isr 1), (5, .isr 0)].flatMap
      fun (n, e) => List.replicate n e

theorem threads_not_exclusive :
    ¬ ∀ s, (system 2).Reachable s → ThreadsExclusive s := by
  intro h
  have hrace : ((system 2).run queuedTwo wakeRace).any fun s =>
      decide (Running s 0 1 ∧ Running s 1 1) := by
    decide +kernel
  obtain ⟨s, hs, hboth⟩ := System.Reachable.exists_of_run_any (.init queuedTwo_initial) _ _ hrace
  obtain ⟨hzero, hone⟩ := of_decide_eq_true hboth
  cases (h s hs).1 0 1 1 hzero hone

end Cottage.Scheduler
