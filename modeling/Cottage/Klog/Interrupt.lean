import Cottage.Lock.Spinlock

/-!
# Logging from interrupt handlers

One processor whose thread is inside `vklog` when interrupts arrive, each
handler making a `klog` call of its own.  The frames of the calls in progress
form a stack with the running one on top.  All gates are interrupt gates, so a
handler runs with interrupts disabled until it returns.

The ring needs no lock, but `vsnprintf` formats under `printf_lock` and
`term_write` draws under `term_lock`, and neither disables interrupts around
the whole of its critical section.  `term_write` clears `have_term` before it
takes its lock, which makes a handler skip the terminal.
-/

namespace Cottage.Klog.Interrupt

open Transition

inductive Lock
  | printf
  | term
  deriving DecidableEq, Repr

/-- The program points of `vklog`.  The flag of the formatting points tells the
call of `snprintf` for the line from that of `vsnprintf` for the message. -/
inductive Pc
  | timestamp
  | cpuId
  | formatAcquire (line : Bool)
  | format (line : Bool)
  | formatRelease (line : Bool)
  | testInitialized
  | produce
  | testConsumer
  | testTerm
  | testLength
  | termClear
  | termAcquire
  | termWrite
  | testSmp
  | maskInterrupts
  | flush (saved : Option Bool)
  | unmaskInterrupts (saved : Bool)
  | termRelease
  | termSet
  | done
  deriving DecidableEq, Repr

structure State where
  interruptFlag : Bool
  haveTerm : Bool
  haveSmp : Bool
  ringInitialized : Bool
  consumerRunning : Bool
  locked : Lock → Bool
  frames : List Pc

def State.setFrames (s : State) (frames : List Pc) : State :=
  { s with frames := frames }

/-- `lock_acquire`: take the lock and go on, or spin. -/
def lockAcquire (s : State) (l : Lock) (frames : List Pc) : State :=
  if s.locked l then s
  else { s with locked := Function.update s.locked l true }.setFrames frames

def lockRelease (s : State) (l : Lock) (frames : List Pc) : State :=
  { s with locked := Function.update s.locked l false }.setFrames frames

/-- The lock is taken, and the frame moves on, with the compare-exchange that a
round of the loop of `lock_acquire` makes. -/
lemma exec_lockAcquire {e : Spinlock.Env} {lock : Spinlock.Lock} {myCpu : Option ℕ} {i : ℕ}
    {s : State} {l : Lock} {frames : List Pc} (hlock : lock.isLocked = s.locked l)
    (hi : i < Spinlock.lockDeadlockThreshold) :
    Spinlock.exec e lock (.spin myCpu i) =
        .ok ({ lock with isLocked := (lockAcquire s l frames).locked l },
          if s.locked l then .spin myCpu (i + 1) else .spinOwner myCpu) ∧
      (lockAcquire s l frames).frames = if s.locked l then s.frames else frames := by
  obtain ⟨isLocked, ownerCpu, acquireCount⟩ := lock
  obtain rfl : isLocked = s.locked l := hlock
  rw [Spinlock.exec, if_pos hi, lockAcquire]
  cases hl : s.locked l with
  | false => simp [State.setFrames]
  | true => simp [hl]

lemma exec_lockRelease (e : Spinlock.Env) (lock : Spinlock.Lock) (s : State) (l : Lock)
    (frames : List Pc) :
    Spinlock.exec e lock .unlock =
      .ok ({ lock with isLocked := (lockRelease s l frames).locked l }, .code) := by
  simp [Spinlock.exec, lockRelease, State.setFrames]

/-- The next step of the running frame; `rest` are the frames below it. -/
def vklogStep (s : State) (rest : List Pc) (lengthPositive : Bool) : Pc → State
  | .timestamp => s.setFrames (.cpuId :: rest)
  | .cpuId => s.setFrames (.formatAcquire false :: rest)
  | .formatAcquire line => lockAcquire s .printf (.format line :: rest)
  | .format line => s.setFrames (.formatRelease line :: rest)
  | .formatRelease line =>
    lockRelease s .printf ((if line then .testLength else .testInitialized) :: rest)
  | .testInitialized => s.setFrames ((if s.ringInitialized then .produce else .testTerm) :: rest)
  | .produce => s.setFrames (.testConsumer :: rest)
  | .testConsumer => s.setFrames ((if s.consumerRunning then .done else .testTerm) :: rest)
  | .testTerm => s.setFrames ((if s.haveTerm then .formatAcquire true else .done) :: rest)
  | .testLength => s.setFrames ((if lengthPositive then .termClear else .done) :: rest)
  | .termClear => { s with haveTerm := false }.setFrames (.termAcquire :: rest)
  | .termAcquire => lockAcquire s .term (.termWrite :: rest)
  | .termWrite => s.setFrames (.testSmp :: rest)
  | .testSmp => s.setFrames ((if s.haveSmp then .maskInterrupts else .flush none) :: rest)
  | .maskInterrupts =>
    { s with interruptFlag := false }.setFrames (.flush (some s.interruptFlag) :: rest)
  | .flush none => s.setFrames (.termRelease :: rest)
  | .flush (some saved) => s.setFrames (.unmaskInterrupts saved :: rest)
  | .unmaskInterrupts saved =>
    { s with interruptFlag := s.interruptFlag || saved }.setFrames (.termRelease :: rest)
  | .termRelease => lockRelease s .term (.termSet :: rest)
  | .termSet => { s with haveTerm := true }.setFrames (.done :: rest)
  | .done => { s with interruptFlag := s.interruptFlag || !rest.isEmpty }.setFrames rest

/-- `call` enters `vklog` from the thread, `interrupt` from a handler on top of
what is running, and `advance` is the next step of the running frame.  The other
events belong to the rest of the kernel; `setTerm` is a store to `have_term`,
one variable for all processors, as `term_write` makes it on another one. -/
inductive Event
  | call
  | interrupt
  | advance (lengthPositive : Bool)
  | setInterrupts (value : Bool)
  | setInitialized
  | startConsumer
  | setSmp
  | setTerm (value : Bool)
  deriving DecidableEq, Repr

def step (s : State) : Event → Option State
  | .call => if s.frames = [] then some (s.setFrames [.timestamp]) else none
  | .interrupt =>
    if s.interruptFlag ∧ s.frames ≠ [] then
      some ({ s with interruptFlag := false }.setFrames (.timestamp :: s.frames))
    else none
  | .advance lengthPositive =>
    match s.frames with
    | [] => none
    | pc :: rest => some (vklogStep s rest lengthPositive pc)
  | .setInterrupts value =>
    if s.frames = [] then some { s with interruptFlag := value } else none
  | .setInitialized => some { s with ringInitialized := true }
  | .startConsumer => some { s with consumerRunning := true }
  | .setSmp => some { s with haveSmp := true }
  | .setTerm value => some { s with haveTerm := value }

def Initial (s : State) : Prop :=
  s.frames = [] ∧ ∀ l, s.locked l = false

def system : System State Event where
  init := Initial
  step := step

namespace Pc

def holds : Pc → Option Lock
  | .format _ | .formatRelease _ => some .printf
  | .termWrite | .testSmp | .maskInterrupts | .flush _ | .unmaskInterrupts _
  | .termRelease => some .term
  | _ => none

def acquires : Pc → Option Lock
  | .formatAcquire _ => some .printf
  | .termAcquire => some .term
  | _ => none

def silent : Pc → Bool
  | .termAcquire | .termWrite | .testSmp | .maskInterrupts | .flush _ | .unmaskInterrupts _
  | .termRelease | .termSet => true
  | _ => false

/-- Bound for the terminal: `have_term` was found set. -/
def bound : Pc → Bool
  | .formatAcquire line | .format line | .formatRelease line => line
  | .testLength | .termClear => true
  | pc => pc.silent

end Pc

/-- The running frame is about to take a lock that a frame it interrupted
holds. -/
def HandlerSpins (s : State) : Prop :=
  ∃ pc rest l, s.frames = pc :: rest ∧ pc.acquires = some l ∧ ∃ f ∈ rest, f.holds = some l

def State.held (s : State) : List Lock :=
  s.frames.filterMap Pc.holds

structure LocksHeld (s : State) : Prop where
  nodup : s.held.Nodup
  locked_iff : ∀ l, s.locked l = true ↔ l ∈ s.held

variable {s t : State} {pc pc' : Pc} {rest : List Pc} {l : Lock} {lengthPositive : Bool}

namespace LocksHeld

lemma of_held_eq (h : LocksHeld s) (hlocked : t.locked = s.locked) (hheld : t.held = s.held) :
    LocksHeld t :=
  ⟨hheld ▸ h.nodup, fun l => by rw [hlocked, hheld, h.locked_iff]⟩

section

variable (h : LocksHeld s) (hs : s.frames = pc :: rest)

include h hs

lemma keep (ht : t.frames = pc' :: rest) (hlocked : t.locked = s.locked)
    (hholds : pc'.holds = pc.holds) : LocksHeld t :=
  h.of_held_eq hlocked (by simp [State.held, hs, ht, List.filterMap_cons, hholds])

lemma acquire (hpc : pc.holds = none) (hpc' : pc'.holds = some l) :
    LocksHeld (lockAcquire s l (pc' :: rest)) := by
  unfold lockAcquire
  split_ifs with hl
  · exact h
  · have hheld : s.held = rest.filterMap Pc.holds := by
      simp [State.held, hs, hpc]
    have hnot : l ∉ s.held := fun hmem => hl ((h.locked_iff l).mpr hmem)
    have hheld' (s : State) : (s.setFrames (pc' :: rest)).held = l :: rest.filterMap Pc.holds := by
      simp [State.held, State.setFrames, hpc']
    refine ⟨?_, ?_⟩
    · rw [hheld', ← hheld]
      exact List.nodup_cons.mpr ⟨hnot, h.nodup⟩
    · intro l'
      rw [hheld', ← hheld, List.mem_cons, ← h.locked_iff]
      by_cases hl' : l' = l
      · simp [State.setFrames, hl']
      · simp [State.setFrames, hl']

lemma release (hpc : pc.holds = some l) (hpc' : pc'.holds = none) :
    LocksHeld (lockRelease s l (pc' :: rest)) := by
  have hheld : s.held = l :: rest.filterMap Pc.holds := by
    simp [State.held, hs, hpc]
  have hheld' : (lockRelease s l (pc' :: rest)).held = rest.filterMap Pc.holds := by
    simp [State.held, lockRelease, State.setFrames, hpc']
  obtain ⟨hnot, hnodup⟩ := List.nodup_cons.mp (hheld ▸ h.nodup)
  refine ⟨hheld'.symm ▸ hnodup, ?_⟩
  intro l'
  have hiff := h.locked_iff l'
  rw [hheld, List.mem_cons] at hiff
  rw [hheld']
  by_cases hl' : l' = l
  · simp [lockRelease, State.setFrames, hl', hnot]
  · simpa [lockRelease, State.setFrames, hl'] using hiff

lemma vklogStep : LocksHeld (vklogStep s rest lengthPositive pc) := by
  cases pc with
  | formatAcquire line => exact h.acquire hs rfl rfl
  | formatRelease line => exact h.release hs rfl (by split_ifs <;> rfl)
  | termAcquire => exact h.acquire hs rfl rfl
  | termRelease => exact h.release hs rfl rfl
  | testInitialized | testConsumer | testTerm | testLength | testSmp =>
    exact h.keep hs rfl rfl (by split_ifs <;> rfl)
  | flush saved => cases saved <;> exact h.keep hs rfl rfl rfl
  | done =>
    refine h.of_held_eq rfl ?_
    rw [State.held, State.held, hs, List.filterMap_cons]
    rfl
  | _ => exact h.keep hs rfl rfl rfl

end

lemma step {e : Event} (h : LocksHeld s) (hstep : step s e = some t) : LocksHeld t := by
  cases e with
  | call =>
    simp only [Interrupt.step] at hstep
    split_ifs at hstep with hempty
    cases hstep
    exact h.of_held_eq rfl (by rw [State.held, State.held, hempty]; rfl)
  | interrupt =>
    simp only [Interrupt.step] at hstep
    split_ifs at hstep
    cases hstep
    exact ⟨h.nodup, h.locked_iff⟩
  | advance lengthPositive =>
    cases hs : s.frames with
    | nil => simp [Interrupt.step, hs] at hstep
    | cons pc rest =>
      simp only [Interrupt.step, hs, Option.some.injEq] at hstep
      exact hstep ▸ h.vklogStep hs
  | setInterrupts value =>
    simp only [Interrupt.step] at hstep
    split_ifs at hstep
    cases hstep
    exact ⟨h.nodup, h.locked_iff⟩
  | _ =>
    cases hstep
    exact ⟨h.nodup, h.locked_iff⟩

lemma of_initial (h : Initial s) : LocksHeld s :=
  ⟨by simp [State.held, h.1], fun l => by simp [State.held, h.1, h.2 l]⟩

lemma of_reachable (h : system.Reachable s) : LocksHeld s :=
  h.invariant (fun _ => of_initial) fun _ _ _ hI hstep => hI.step hstep

end LocksHeld

/-- Interrupts arrive only while nothing on the processor formats, and
`have_term` is not set from elsewhere while a frame here is in `term_write`. -/
def Undisturbed (s : State) : Event → Prop
  | .interrupt => ∀ f ∈ s.frames, f.holds ≠ some .printf
  | .setTerm value => value = true → ∀ f ∈ s.frames, f.silent = false
  | _ => True

/-- While a frame is in `term_write`, `have_term` is clear and no frame above
it is bound for the terminal; no interrupted frame formats. -/
structure Silenced (s : State) : Prop where
  clear : ∀ f ∈ s.frames, f.silent = true → s.haveTerm = false
  above : s.frames.Pairwise fun upper lower => lower.silent = true → upper.bound = false
  outside : ∀ f ∈ s.frames.tail, f.holds ≠ some .printf

lemma Pc.bound_of_silent (h : pc.silent = true) : pc.bound = true := by
  cases pc <;> first | rfl | cases h

lemma Pc.silent_of_holds (h : pc.holds = some .term) : pc.silent = true := by
  cases pc <;> first | rfl | cases h

lemma Pc.bound_of_acquires (h : pc.acquires = some .term) : pc.bound = true := by
  cases pc <;> first | rfl | cases h

namespace Silenced

section

variable (h : Silenced s) (hs : s.frames = pc :: rest)

include h hs

lemma move (ht : t.frames = pc' :: rest)
    (hbound : pc'.bound = true → pc.bound = true ∨ s.haveTerm = true)
    (hclear : pc'.silent = true → t.haveTerm = false)
    (hset : t.haveTerm = true → s.haveTerm = true ∨ pc.silent = true) : Silenced t := by
  have habove := h.above
  rw [hs, List.pairwise_cons] at habove
  have hbelow : ∀ f ∈ rest, f.silent = true → s.haveTerm = false := by
    intro f hf
    exact h.clear f (hs ▸ List.mem_cons_of_mem pc hf)
  refine ⟨?_, ?_, ?_⟩
  · intro f hf hsilent
    rw [ht, List.mem_cons] at hf
    rcases hf with rfl | hf
    · exact hclear hsilent
    · by_contra hterm
      rcases hset (by simpa using hterm) with hterm' | hpc
      · simp [hbelow f hf hsilent] at hterm'
      · simpa [Pc.bound_of_silent hpc] using habove.1 f hf hsilent
  · rw [ht, List.pairwise_cons]
    refine ⟨?_, habove.2⟩
    intro f hf hsilent
    by_contra hpc'
    rcases hbound (by simpa using hpc') with hpc | hterm
    · simpa [hpc] using habove.1 f hf hsilent
    · simp [hbelow f hf hsilent] at hterm
  · have houtside := h.outside
    rw [hs] at houtside
    rw [ht]
    exact houtside

lemma move_keep (ht : t.frames = pc' :: rest) (hterm : t.haveTerm = s.haveTerm)
    (hbound : pc'.bound = true → pc.bound = true ∨ s.haveTerm = true)
    (hsilent : pc'.silent = true → pc.silent = true) : Silenced t :=
  h.move hs ht hbound
    (fun hpc' => hterm.trans (h.clear pc (hs ▸ (.head _)) (hsilent hpc')))
    (fun ht' => .inl (hterm.symm.trans ht'))

lemma lockAcquire (hbound : pc'.bound = true → pc.bound = true)
    (hsilent : pc'.silent = true → pc.silent = true) :
    Silenced (lockAcquire s l (pc' :: rest)) := by
  unfold Interrupt.lockAcquire
  split_ifs
  · exact h
  · exact h.move_keep hs rfl rfl (fun hpc' => .inl (hbound hpc')) hsilent

lemma vklogStep : Silenced (vklogStep s rest lengthPositive pc) := by
  cases pc with
  | formatAcquire line => exact h.lockAcquire hs id (by simp [Pc.silent])
  | format line => exact h.move_keep hs rfl rfl .inl id
  | formatRelease line =>
    refine h.move_keep hs rfl rfl ?_ ?_ <;> cases line <;> simp [Pc.bound, Pc.silent]
  | termAcquire => exact h.lockAcquire hs id id
  | testInitialized | testConsumer | testLength | testSmp =>
    refine h.move_keep hs rfl rfl ?_ ?_ <;> split_ifs <;> simp [Pc.bound, Pc.silent]
  | testTerm =>
    refine h.move_keep hs rfl rfl ?_ ?_ <;> split_ifs with hterm <;>
      simp [Pc.bound, Pc.silent, hterm]
  | flush saved =>
    cases saved <;> exact h.move_keep hs rfl rfl (fun _ => .inl rfl) id
  | termClear =>
    refine h.move hs rfl (fun _ => .inl rfl) (fun _ => rfl) ?_
    exact fun hset => absurd hset Bool.false_ne_true
  | termSet =>
    refine h.move hs rfl (fun _ => .inl rfl) ?_ (fun _ => .inr rfl)
    exact fun hsilent => absurd hsilent Bool.false_ne_true
  | done =>
    have habove := h.above
    rw [hs, List.pairwise_cons] at habove
    refine ⟨?_, habove.2, ?_⟩
    · intro f hf
      exact h.clear f (hs ▸ List.mem_cons_of_mem _ hf)
    · intro f hf
      exact h.outside f (hs ▸ List.mem_of_mem_tail hf)
  | _ => exact h.move_keep hs rfl rfl .inl id

end

lemma step {e : Event} (h : Silenced s) (hok : Undisturbed s e)
    (hstep : step s e = some t) : Silenced t := by
  cases e with
  | call =>
    simp only [Interrupt.step] at hstep
    split_ifs at hstep
    cases hstep
    refine ⟨?_, List.pairwise_singleton _ _, ?_⟩ <;> simp [State.setFrames, Pc.silent]
  | interrupt =>
    simp only [Interrupt.step] at hstep
    split_ifs at hstep
    cases hstep
    refine ⟨?_, List.pairwise_cons.mpr ⟨?_, h.above⟩, hok⟩
    · intro f hf hsilent
      rcases List.mem_cons.mp hf with rfl | hf
      · simp [Pc.silent] at hsilent
      · exact h.clear f hf hsilent
    · intro _ _ _
      rfl
  | advance lengthPositive =>
    cases hs : s.frames with
    | nil => simp [Interrupt.step, hs] at hstep
    | cons pc rest =>
      simp only [Interrupt.step, hs, Option.some.injEq] at hstep
      exact hstep ▸ h.vklogStep hs
  | setInterrupts value =>
    simp only [Interrupt.step] at hstep
    split_ifs at hstep
    cases hstep
    exact ⟨h.clear, h.above, h.outside⟩
  | setTerm value =>
    cases hstep
    refine ⟨fun f hf hsilent => ?_, h.above, h.outside⟩
    cases value with
    | false => rfl
    | true => cases (hok rfl f hf).symm.trans hsilent
  | _ =>
    cases hstep
    exact ⟨h.clear, h.above, h.outside⟩

lemma of_initial (h : Initial s) : Silenced s := by
  constructor <;> simp [h.1]

lemma of_reachableVia (h : system.ReachableVia Undisturbed s) : Silenced s :=
  h.invariant (fun _ => of_initial) fun _ _ _ hI hok hstep => hI.step hok hstep

lemma not_handlerSpins (h : Silenced s) : ¬ HandlerSpins s := by
  rintro ⟨pc, rest, l, hs, hpc, f, hf, hholds⟩
  have houtside := h.outside f (by simpa [hs] using hf)
  have habove := h.above
  rw [hs, List.pairwise_cons] at habove
  cases l with
  | printf => exact houtside hholds
  | term =>
    have hbound := habove.1 f hf (Pc.silent_of_holds hholds)
    cases hbound.symm.trans (Pc.bound_of_acquires hpc)

end Silenced

/-- No handler waits for a lock of the code it interrupted. -/
theorem handler_not_spinning (h : system.ReachableVia Undisturbed s) : ¬ HandlerSpins s :=
  (Silenced.of_reachableVia h).not_handlerSpins

instance (s : State) : ∀ e, Decidable (Undisturbed s e)
  | .interrupt => inferInstanceAs (Decidable (∀ f ∈ s.frames, f.holds ≠ some .printf))
  | .setTerm value =>
    inferInstanceAs (Decidable (value = true → ∀ f ∈ s.frames, f.silent = false))
  | .call | .advance _ | .setInterrupts _ | .setInitialized | .startConsumer | .setSmp =>
    inferInstanceAs (Decidable True)

def early : State where
  interruptFlag := true
  haveTerm := true
  haveSmp := true
  ringInitialized := true
  consumerRunning := false
  locked := fun _ => false
  frames := []

lemma early_initial : Initial early :=
  ⟨rfl, fun _ => rfl⟩

theorem handler_not_spinning_while_drawing :
    ∃ s, system.ReachableVia Undisturbed s ∧ s.frames = [.testTerm, .termWrite] ∧
      s.locked .term = true ∧ ¬ HandlerSpins s := by
  obtain ⟨s, hs, hstate⟩ := System.Reachable.exists_of_run_any
    (S := system.guard Undisturbed) (s := early) (.init early_initial)
    (.call :: List.replicate 15 (.advance true) ++ .interrupt ::
      List.replicate 8 (.advance true))
    (fun s => decide (s.frames = [.testTerm, .termWrite] ∧ s.locked .term = true))
    (by decide +kernel)
  have hreach := System.reachableVia_of_guard hs
  obtain ⟨hframes, hlocked⟩ := of_decide_eq_true hstate
  exact ⟨s, hreach, hframes, hlocked, handler_not_spinning hreach⟩

/-! ## Interrupts during formatting -/

lemma handlerSpins_of_interrupt (h : system.Reachable s) (lengthPositive : Bool)
    (hformat : ∃ f ∈ s.frames, f.holds = some .printf) (hstep : step s .interrupt = some t) :
    ∃ u, system.run t [.advance lengthPositive, .advance lengthPositive] = some u ∧
      HandlerSpins u ∧ step u (.advance lengthPositive) = some u := by
  obtain ⟨f, hf, hholds⟩ := hformat
  have hlocked : s.locked .printf = true :=
    ((LocksHeld.of_reachable h).locked_iff .printf).mpr (List.mem_filterMap.mpr ⟨f, hf, hholds⟩)
  simp only [step] at hstep
  split_ifs at hstep
  cases hstep
  refine ⟨_, rfl, ⟨_, _, .printf, rfl, rfl, f, hf, hholds⟩, ?_⟩
  exact congrArg some (if_pos hlocked)

theorem handler_spins_on_printf_lock : ¬ ∀ s, system.Reachable s → ¬ HandlerSpins s := by
  intro hnever
  obtain ⟨s, hs, hframes⟩ := System.Reachable.exists_of_run_any
    (S := system) (s := early) (.init early_initial)
    [.call, .advance true, .advance true, .advance true]
    (fun s => decide (s.frames = [.format false] ∧ s.interruptFlag = true))
    (by decide +kernel)
  obtain ⟨hframes, hflag⟩ := of_decide_eq_true hframes
  have hstep : step s .interrupt =
      some ({ s with interruptFlag := false }.setFrames (.timestamp :: s.frames)) :=
    if_pos ⟨hflag, by simp [hframes]⟩
  obtain ⟨u, hrun, hspins, _⟩ := handlerSpins_of_interrupt hs true
    ⟨.format false, by simp [hframes], rfl⟩ hstep
  have ht : system.Reachable _ := .step (a := .interrupt) hs trivial hstep
  exact hnever u (ht.run hrun) hspins

end Cottage.Klog.Interrupt
