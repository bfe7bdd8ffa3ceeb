import Cottage.Scheduler.Model
import Mathlib.Data.List.Rotate

/-!
# Round-robin selection

`get_next_thread` as one function, for a processor that nobody disturbs while it
scans the run queue.  It goes once around the queue from the slot after the
last index and takes the first thread that belongs to this processor already or
whose lock is free.  The atomic steps of the scheduler model, made by one
processor in a row, come to the same end.
-/

namespace Cottage.Scheduler

open Function

def lockTestAndAcquire (t : Tid) (s : State) : State × Bool :=
  if s.lock t = false then ({ s with lock := update s.lock t true }, true) else (s, false)

/-- What the scan leaves: the thread and the index it returns, and the slots it
has looked at. -/
structure Selection where
  sched : State
  thread : Option Tid
  outIndex : ℤ
  examined : List ℕ

def Selection.after (index : ℕ) (r : Selection) : Selection :=
  { r with examined := index :: r.examined }

/-- `if (index >= MAX_THREADS) index = 0` -/
def wrap (index : ℕ) : ℕ :=
  if index ≥ maxThreads then 0 else index

def scan (cpuNumber : Cpu) : ℕ → ℕ → State → Selection
  | 0, _, s => ⟨s, none, -1, []⟩
  | turns + 1, index, s =>
    let index := wrap index
    match s.queue index with
    | none => (scan cpuNumber turns (index + 1) s).after index
    | some t =>
      if s.cpuid t = some cpuNumber then ⟨s, some t, index, [index]⟩
      else
        let (s, acquired) := lockTestAndAcquire t s
        if acquired then ⟨s, some t, index, [index]⟩
        else (scan cpuNumber turns (index + 1) s).after index

def getNextThread (cpuNumber : Cpu) (origI : ℕ) (s : State) : Selection :=
  scan cpuNumber maxThreads (origI + 1) s

/-- The slots of `turns` turns of the loop. -/
def order : ℕ → ℕ → List ℕ
  | 0, _ => []
  | turns + 1, index => wrap index :: order turns (wrap index + 1)

lemma wrap_eq_mod {index : ℕ} (h : index ≤ maxThreads) : wrap index = index % maxThreads := by
  unfold wrap
  split_ifs with hge
  · rw [le_antisymm h hge, Nat.mod_self]
  · rw [Nat.mod_eq_of_lt (not_le.mp hge)]

lemma wrap_lt (index : ℕ) : wrap index < maxThreads := by
  unfold wrap
  split_ifs with hge
  · decide
  · exact not_le.mp hge

lemma order_eq_map (turns : ℕ) {index : ℕ} (h : index ≤ maxThreads) :
    order turns index = (List.range turns).map fun k => (k + index) % maxThreads := by
  induction turns generalizing index with
  | zero => rfl
  | succ turns ih =>
    rw [order, ih (wrap_lt index), List.range_succ_eq_map, List.map_cons, List.map_map,
      wrap_eq_mod h, Nat.zero_add]
    congr 1
    apply List.map_congr_left
    intro k _
    have hassoc : k + (index % maxThreads + 1) = k + 1 + index % maxThreads := by omega
    rw [comp_apply, hassoc, Nat.add_mod_mod]

lemma order_eq_rotate {index : ℕ} (h : index ≤ maxThreads) :
    order maxThreads index = (List.range maxThreads).rotate index := by
  rw [order_eq_map maxThreads h]
  apply List.ext_getElem
  · simp
  · intro k _ _
    simp [List.getElem_rotate]

/-- The slot holds a thread that belongs to the processor or whose lock is
free. -/
def Eligible (s : State) (cpuNumber : Cpu) (i : ℕ) : Prop :=
  ∃ t, s.queue i = some t ∧ (s.cpuid t = some cpuNumber ∨ s.lock t = false)

def pick (s : State) (cpuNumber : Cpu) (t : Tid) : State :=
  if s.cpuid t = some cpuNumber then s else { s with lock := update s.lock t true }

structure Picked (s : State) (cpuNumber : Cpu) (slots : List ℕ) (r : Selection) (before : List ℕ)
    (i : ℕ) (t : Tid) : Prop where
  initial : before ++ [i] <+: slots
  passed : ∀ j ∈ before, ¬ Eligible s cpuNumber j
  eligible : Eligible s cpuNumber i
  queue_eq : s.queue i = some t
  result : r = ⟨pick s cpuNumber t, some t, i, before ++ [i]⟩

variable {s : State} {cpuNumber : Cpu} {slots before : List ℕ} {r : Selection} {i j : ℕ} {t : Tid}

lemma Picked.after (h : Picked s cpuNumber slots r before i t) (hj : ¬ Eligible s cpuNumber j) :
    Picked s cpuNumber (j :: slots) (r.after j) (j :: before) i t where
  initial := h.initial.imp fun _ hrest => congrArg (j :: ·) hrest
  passed := List.forall_mem_cons.mpr ⟨hj, h.passed⟩
  eligible := h.eligible
  queue_eq := h.queue_eq
  result := by
    rw [h.result]
    rfl

lemma picked_first (slots : List ℕ) (hqueue : s.queue i = some t)
    (ht : s.cpuid t = some cpuNumber ∨ s.lock t = false) :
    Picked s cpuNumber (i :: slots) ⟨pick s cpuNumber t, some t, i, [i]⟩ [] i t where
  initial := ⟨slots, rfl⟩
  passed := nofun
  eligible := ⟨t, hqueue, ht⟩
  queue_eq := hqueue
  result := rfl

/-- Either no slot is eligible, or the first one that is gets picked. -/
def Outcome (s : State) (cpuNumber : Cpu) (slots : List ℕ) (r : Selection) : Prop :=
  (r = ⟨s, none, -1, slots⟩ ∧ ∀ i ∈ slots, ¬ Eligible s cpuNumber i) ∨
    ∃ before i t, Picked s cpuNumber slots r before i t

lemma Outcome.after (h : Outcome s cpuNumber slots r) (hj : ¬ Eligible s cpuNumber j) :
    Outcome s cpuNumber (j :: slots) (r.after j) := by
  rcases h with ⟨rfl, hnone⟩ | ⟨before, i, t, hpicked⟩
  · exact .inl ⟨rfl, List.forall_mem_cons.mpr ⟨hj, hnone⟩⟩
  · exact .inr ⟨j :: before, i, t, hpicked.after hj⟩

lemma scan_outcome (turns index : ℕ) :
    Outcome s cpuNumber (order turns index) (scan cpuNumber turns index s) := by
  induction turns generalizing index with
  | zero => exact .inl ⟨rfl, nofun⟩
  | succ turns ih =>
    rw [scan, order]
    cases hqueue : s.queue (wrap index) with
    | none =>
      apply (ih (wrap index + 1)).after
      rintro ⟨t, ht, _⟩
      exact Option.some_ne_none t (ht.symm.trans hqueue)
    | some t =>
      dsimp only
      by_cases howned : s.cpuid t = some cpuNumber
      · rw [if_pos howned]
        have hpicked := picked_first (order turns (wrap index + 1)) hqueue (.inl howned)
        rw [pick, if_pos howned] at hpicked
        exact .inr ⟨[], _, t, hpicked⟩
      · rw [if_neg howned, lockTestAndAcquire]
        by_cases hfree : s.lock t = false
        · have hpicked : Picked s cpuNumber _ _ [] _ t :=
            picked_first (order turns (wrap index + 1)) hqueue (.inr hfree)
          rw [pick, if_neg howned] at hpicked
          rw [if_pos hfree]
          exact .inr ⟨[], _, t, hpicked⟩
        · rw [if_neg hfree]
          apply (ih (wrap index + 1)).after
          rintro ⟨t', ht', hcan⟩
          cases ht'.symm.trans hqueue
          exact hcan.elim howned hfree

/-! ## Round robin -/

/-- The slots are looked at in cyclic order from the one after the last index,
none of them twice and none left out unless a thread is returned.  The thread
is that of the first eligible slot, and its lock is the only one to change. -/
structure RoundRobin (s : State) (cpuNumber : Cpu) (origI : ℕ) (r : Selection) : Prop where
  cyclic : r.examined <+: (List.range maxThreads).rotate (origI + 1)
  once : r.examined.Nodup
  all : r.thread = none → r.examined.Perm (List.range maxThreads)
  first : ∀ t, r.thread = some t → ∃ (before : List ℕ) (i : ℕ),
    r.examined = before ++ [i] ∧ r.outIndex = i ∧ s.queue i = some t ∧ Eligible s cpuNumber i ∧
      ∀ j ∈ before, ¬ Eligible s cpuNumber j
  acquired : ∀ t, r.thread = some t →
    s.cpuid t = some cpuNumber ∧ r.sched.lock t = s.lock t ∨
      s.lock t = false ∧ r.sched.lock t = true
  others : ∀ t, r.thread ≠ some t → r.sched.lock t = s.lock t
  frame : r.sched = { s with lock := r.sched.lock }
  null_iff : r.thread = none ↔ ∀ i < maxThreads, ¬ Eligible s cpuNumber i
  null_index : r.thread = none → r.outIndex = -1

lemma pick_eq_lock (s : State) (cpuNumber : Cpu) (t : Tid) :
    pick s cpuNumber t = { s with lock := (pick s cpuNumber t).lock } := by
  unfold pick
  split_ifs <;> rfl

lemma pick_lock_of_ne {t t' : Tid} (h : t' ≠ t) :
    (pick s cpuNumber t).lock t' = s.lock t' := by
  unfold pick
  split_ifs
  · rfl
  · exact update_of_ne h true s.lock

lemma Picked.acquired (h : Picked s cpuNumber slots r before i t) :
    s.cpuid t = some cpuNumber ∧ (pick s cpuNumber t).lock t = s.lock t ∨
      s.lock t = false ∧ (pick s cpuNumber t).lock t = true := by
  obtain ⟨t', ht', hcan⟩ := h.eligible
  obtain rfl := Option.some.inj (ht'.symm.trans h.queue_eq)
  unfold pick
  split_ifs with howned
  · exact .inl ⟨howned, rfl⟩
  · exact .inr ⟨hcan.resolve_left howned, update_self t' true s.lock⟩

lemma Outcome.roundRobin {origI : ℕ} (h : Outcome s cpuNumber slots r)
    (hslots : slots = (List.range maxThreads).rotate (origI + 1)) :
    RoundRobin s cpuNumber origI r := by
  have hperm : slots.Perm (List.range maxThreads) := by
    rw [hslots]
    exact List.rotate_perm _ _
  have hnodup := hperm.nodup_iff.mpr List.nodup_range
  rcases h with ⟨rfl, hnone⟩ | ⟨before, i, t, hpicked⟩
  · refine ⟨⟨[], (List.append_nil slots).trans hslots⟩, hnodup, fun _ => hperm, ?_, ?_,
      fun _ _ => rfl, rfl, ?_, fun _ => rfl⟩
    · exact fun t ht => absurd ht.symm (Option.some_ne_none t)
    · exact fun t ht => absurd ht.symm (Option.some_ne_none t)
    · refine iff_of_true rfl fun i hi => hnone i ?_
      exact hperm.mem_iff.mpr (List.mem_range.mpr hi)
  · have hi : i ∈ List.range maxThreads :=
      hperm.mem_iff.mp (hpicked.initial.subset (List.mem_append_right before (.head _)))
    rw [hpicked.result]
    refine ⟨hslots ▸ hpicked.initial, hpicked.initial.sublist.nodup hnodup, ?_, ?_, ?_, ?_, ?_, ?_,
      ?_⟩
    · exact fun hnone => absurd hnone (Option.some_ne_none t)
    · intro t' ht'
      cases ht'
      exact ⟨before, i, rfl, rfl, hpicked.queue_eq, hpicked.eligible, hpicked.passed⟩
    · intro t' ht'
      cases ht'
      exact hpicked.acquired
    · intro t' ht'
      exact pick_lock_of_ne fun heq => ht' (congrArg some heq.symm)
    · exact pick_eq_lock s cpuNumber t
    · refine iff_of_false (Option.some_ne_none t) fun hnone => ?_
      exact hnone i (List.mem_range.mp hi) hpicked.eligible
    · exact fun hnone => absurd hnone (Option.some_ne_none t)

/-- `get_next_thread` selects round robin, from any run queue and locks. -/
theorem get_next_thread_round_robin (s : State) (cpuNumber : Cpu) (origI : Fin maxThreads) :
    RoundRobin s cpuNumber origI (getNextThread cpuNumber origI s) := by
  have houtcome : Outcome s cpuNumber _ (getNextThread cpuNumber origI s) :=
    scan_outcome maxThreads (origI + 1)
  exact houtcome.roundRobin (order_eq_rotate origI.isLt)

/-! ## The atomic steps -/

def Alone (c : Cpu) : State → State → Prop :=
  Relation.ReflTransGen fun s s' => schedulerIsr s c = some s'

def Selection.resumed (r : Selection) (c cpu : Cpu) (current : Option Tid) : State :=
  r.sched.setPc c (.selected cpu current r.thread r.outIndex.toNat)

lemma setPc_setPc (s : State) (c : Cpu) (p q : Pc) : (s.setPc c p).setPc c q = s.setPc c q := by
  simp only [State.setPc, update_idem]

section Steps

variable (c cpu : Cpu) (current : Option Tid) (checked : ℕ)

lemma isr_empty_slot (hqueue : s.queue i = none) :
    schedulerIsr (s.setPc c (.scanSlot cpu current cpuNumber i checked)) c =
      some (s.setPc c (scanNext cpu current cpuNumber i checked)) := by
  have hqueue' : (s.setPc c (.scanSlot cpu current cpuNumber i checked)).queue i = none := hqueue
  simp only [schedulerIsr, State.setPc_pc, update_self, hqueue', setPc_setPc]

lemma isr_slot (hqueue : s.queue i = some t) :
    schedulerIsr (s.setPc c (.scanSlot cpu current cpuNumber i checked)) c =
      some (s.setPc c (.scanOwner cpu current cpuNumber i checked t)) := by
  have hqueue' : (s.setPc c (.scanSlot cpu current cpuNumber i checked)).queue i = some t := hqueue
  simp only [schedulerIsr, State.setPc_pc, update_self, hqueue', setPc_setPc]

lemma isr_owned (howned : s.cpuid t = some cpuNumber) :
    schedulerIsr (s.setPc c (.scanOwner cpu current cpuNumber i checked t)) c =
      some (s.setPc c (.selected cpu current (some t) i)) := by
  simp only [schedulerIsr, State.setPc_pc, update_self, State.setPc_cpuid, if_pos howned,
    setPc_setPc]

lemma isr_not_owned (howned : s.cpuid t ≠ some cpuNumber) :
    schedulerIsr (s.setPc c (.scanOwner cpu current cpuNumber i checked t)) c =
      some (s.setPc c (.scanLock cpu current cpuNumber i checked t)) := by
  simp only [schedulerIsr, State.setPc_pc, update_self, State.setPc_cpuid, if_neg howned,
    setPc_setPc]

lemma isr_free (hfree : s.lock t = false) :
    schedulerIsr (s.setPc c (.scanLock cpu current cpuNumber i checked t)) c =
      some ({ s with lock := update s.lock t true }.setPc c
        (.selected cpu current (some t) i)) := by
  simp only [schedulerIsr, State.setPc_pc, update_self, State.setPc_lock, hfree, if_true]
  simp only [State.setPc, update_idem]

lemma isr_held (hheld : ¬ s.lock t = false) :
    schedulerIsr (s.setPc c (.scanLock cpu current cpuNumber i checked t)) c =
      some (s.setPc c (scanNext cpu current cpuNumber i checked)) := by
  simp only [schedulerIsr, State.setPc_pc, update_self, State.setPc_lock, if_neg hheld,
    setPc_setPc]

lemma alone_scanNext {turns : ℕ} (hchecked : checked + (turns + 1) = maxThreads)
    (ih : checked + 1 + turns = maxThreads → 0 < turns →
      Alone c (s.setPc c (.scanSlot cpu current cpuNumber (wrap (i + 1)) (checked + 1)))
        ((scan cpuNumber turns (i + 1) s).resumed c cpu current)) :
    Alone c (s.setPc c (scanNext cpu current cpuNumber i checked))
      (((scan cpuNumber turns (i + 1) s).after i).resumed c cpu current) := by
  unfold scanNext
  by_cases hmore : checked + 1 < maxThreads
  · rw [if_pos hmore]
    exact ih (by omega) (by omega)
  · rw [if_neg hmore]
    obtain rfl : turns = 0 := by omega
    exact Relation.ReflTransGen.refl

lemma scan_alone (turns index : ℕ) (hchecked : checked + turns = maxThreads) (hpos : 0 < turns) :
    Alone c (s.setPc c (.scanSlot cpu current cpuNumber (wrap index) checked))
      ((scan cpuNumber turns index s).resumed c cpu current) := by
  induction turns generalizing index checked with
  | zero => exact absurd hpos (lt_irrefl 0)
  | succ turns ih =>
    have hrest := alone_scanNext c cpu current checked hchecked (ih (checked + 1) (wrap index + 1))
    rw [scan]
    cases hqueue : s.queue (wrap index) with
    | none => exact .head (isr_empty_slot c cpu current checked hqueue) hrest
    | some t =>
      refine .head (isr_slot c cpu current checked hqueue) ?_
      dsimp only
      by_cases howned : s.cpuid t = some cpuNumber
      · rw [if_pos howned]
        exact .single (isr_owned c cpu current checked howned)
      · rw [if_neg howned, lockTestAndAcquire]
        refine .head (isr_not_owned c cpu current checked howned) ?_
        by_cases hfree : s.lock t = false
        · rw [if_pos hfree]
          exact .single (isr_free c cpu current checked hfree)
        · rw [if_neg hfree]
          exact .head (isr_held c cpu current checked hfree) hrest

/-- A processor that scans the queue alone gets what `get_next_thread`
returns. -/
theorem getNextThread_alone (hpc : s.pc c = .scanStart cpu current)
    (hnumber : cpuGetCurrent s c = some cpuNumber) :
    Alone c s ((getNextThread cpuNumber (s.lastRunQueueIndex cpu) s).resumed c cpu current) := by
  refine .head ?_ (scan_alone c cpu current 0 maxThreads (s.lastRunQueueIndex cpu + 1)
    (Nat.zero_add maxThreads) (by decide))
  simp only [schedulerIsr, hpc, hnumber, Option.map_some, wrap]

end Steps

def scanning : State where
  queue i := if i = 3 then some 7 else none
  lock _ := false
  yieldAwait _ := false
  cpuid _ := none
  isInQueue t := t = 7
  enqueuedBySignal _ := false
  cpuState _ := .code
  isIdle _ := false
  lastRunQueueIndex _ := 0
  workingCpus := 0
  startupPhaseIgnoreHeartbeat := false
  gs _ := none
  record c := c
  regs _ := .halted
  pc _ := .scanStart 0 none
  calls _ := none

theorem getNextThread_alone_picks :
    ∃ s, Alone 0 scanning s ∧ s.pc 0 = .selected 0 none (some 7) 3 ∧ s.lock 7 = true :=
  ⟨_, getNextThread_alone 0 0 none rfl rfl, by decide +kernel, by decide +kernel⟩

end Cottage.Scheduler
