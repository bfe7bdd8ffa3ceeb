import Cottage.Foundations.Transition
import Cottage.Fs.Vfs
import Mathlib.Data.Fintype.Card

/-!
# Giving up references to a file

`n` calls of `tmpfs_resource_unref` on one resource of a tmpfs that has `n`
references.  A call takes one reference away, reads the count again, and frees
the storage and then the resource if it has read zero; these are its steps, and
the steps of different calls are in any order.

The call that takes the last reference and another one that has not read the
count yet both read zero.
-/

namespace Cottage.ResourceRefs

open Transition Vfs

/-- Where a call is: before the decrement, before it reads the count, before
`free(self->storage)`, before `free(self)`, and behind its end. -/
inductive Phase
  | enter
  | decremented
  | freeing
  | storageFreed
  | done
  deriving DecidableEq, Repr

/-- The resource, the calls, and how often the storage and the resource have
been freed.  `touched` says that a call has read or written the resource when it
was freed; what it finds there is then of no importance. -/
structure State (n : ℕ) where
  refcount : ℤ
  mode : ℕ
  calls : Fin n → Phase
  storageFrees : ℕ
  resourceFrees : ℕ
  touched : Bool

variable {n : ℕ}

def State.touch (s : State n) : State n :=
  { s with touched := s.touched || decide (0 < s.resourceFrees) }

def State.goto (s : State n) (t : Fin n) (phase : Phase) : State n :=
  { s with calls := Function.update s.calls t phase }

/-- One step of the call `t` of `tmpfs_resource_unref`. -/
def unrefStep (s : State n) (t : Fin n) : Option (State n) :=
  match s.calls t with
  | .enter => some ({ s.touch with refcount := s.refcount - 1 }.goto t .decremented)
  | .decremented =>
    if s.refcount = 0 ∧ statIsReg s.mode then some (s.touch.goto t .freeing)
    else some (s.touch.goto t .done)
  | .freeing =>
    some ({ s.touch with storageFrees := s.storageFrees + 1 }.goto t .storageFreed)
  | .storageFreed => some ({ s with resourceFrees := s.resourceFrees + 1 }.goto t .done)
  | .done => none

def initial (n mode : ℕ) : State n where
  refcount := n
  mode := mode
  calls := fun _ => .enter
  storageFrees := 0
  resourceFrees := 0
  touched := false

def unrefs (n : ℕ) : System (State n) (Fin n) where
  init s := ∃ mode, statIsReg mode = true ∧ s = initial n mode
  step := unrefStep

/-- The step does not take the last reference while another call is about to
read the count. -/
def Alone (s : State n) (t : Fin n) : Prop :=
  s.calls t = .enter → s.refcount = 1 → ∀ u, s.calls u ≠ .decremented

instance (s : State n) (t : Fin n) : Decidable (Alone s t) :=
  inferInstanceAs (Decidable (_ → _ → ∀ _ : Fin n, _))

def State.waiting (s : State n) : Finset (Fin n) :=
  {t | s.calls t = .enter}

variable {s s' : State n} {t : Fin n}

lemma mem_waiting : t ∈ s.waiting ↔ s.calls t = .enter := by
  rw [State.waiting, Finset.mem_filter, and_iff_right (Finset.mem_univ t)]

lemma goto_calls (s : State n) (t : Fin n) (phase : Phase) (u : Fin n) :
    (s.goto t phase).calls u = if u = t then phase else s.calls u :=
  Function.update_apply ..

lemma waiting_goto {phase : Phase} (hne : phase ≠ .enter) :
    (s.goto t phase).waiting = s.waiting.erase t := by
  ext u
  rw [Finset.mem_erase, mem_waiting, mem_waiting, goto_calls]
  split_ifs with h
  · simp only [hne, h, ne_eq, not_true_eq_false, false_and]
  · simp only [h, ne_eq, not_false_eq_true, true_and]

/-- The resource is freed by nobody, and some call has its reference still; or
there is no call at all. -/
structure Counting (s : State n) : Prop where
  phases : ∀ u, s.calls u = .enter ∨ s.calls u = .decremented ∨ s.calls u = .done
  some_waiting : ∀ _ : Fin n, ∃ v, s.calls v = .enter
  storageFrees_eq : s.storageFrees = 0
  resourceFrees_eq : s.resourceFrees = 0

/-- The call `t` has taken the last reference, and all others have returned. -/
structure Last (s : State n) (t : Fin n) : Prop where
  others : ∀ u, u ≠ t → s.calls u = .done
  frees : s.calls t = .decremented ∧ s.storageFrees = 0 ∧ s.resourceFrees = 0 ∨
    s.calls t = .freeing ∧ s.storageFrees = 0 ∧ s.resourceFrees = 0 ∨
    s.calls t = .storageFreed ∧ s.storageFrees = 1 ∧ s.resourceFrees = 0 ∨
    s.calls t = .done ∧ s.storageFrees = 1 ∧ s.resourceFrees = 1

structure Inv (s : State n) : Prop where
  regular : statIsReg s.mode = true
  refcount_eq : s.refcount = s.waiting.card
  untouched : s.touched = false
  stage : Counting s ∨ ∃ t, Last s t

lemma inv_initial {mode : ℕ} (hmode : statIsReg mode = true) : Inv (initial n mode) := by
  refine ⟨hmode, ?_, rfl, .inl ⟨fun _ => .inl rfl, fun u => ⟨u, rfl⟩, rfl, rfl⟩⟩
  have hall : (initial n mode).waiting = Finset.univ := by
    ext u
    exact iff_of_true (mem_waiting.mpr rfl) (Finset.mem_univ u)
  rw [hall, Finset.card_univ, Fintype.card_fin]
  rfl

lemma touch_eq (huntouched : s.touched = false) (hfrees : s.resourceFrees = 0) : s.touch = s := by
  cases s
  subst huntouched hfrees
  rfl

lemma unrefStep_isSome (hcall : s.calls t ≠ .done) : (unrefStep s t).isSome = true := by
  unfold unrefStep
  cases hphase : s.calls t with
  | done => exact absurd hphase hcall
  | decremented =>
    split_ifs <;> rfl
  | enter => rfl
  | freeing => rfl
  | storageFreed => rfl

lemma Inv.counting_step (h : Inv s) (hcounting : Counting s) (halone : Alone s t)
    (hstep : unrefStep s t = some s') : Inv s' := by
  have htouch := touch_eq h.untouched hcounting.resourceFrees_eq
  rw [unrefStep, htouch] at hstep
  have hcount := h.refcount_eq
  rcases hcounting.phases t with hphase | hphase | hphase
  · rw [hphase] at hstep
    cases hstep
    have hwaiting : (State.goto { s with refcount := s.refcount - 1 } t .decremented).waiting =
        s.waiting.erase t := waiting_goto (by decide)
    have hmem : t ∈ s.waiting := mem_waiting.mpr hphase
    have hcard := Finset.card_erase_add_one hmem
    refine ⟨h.regular, ?_, h.untouched, ?_⟩
    · rw [hwaiting]
      simp only [State.goto]
      omega
    · by_cases hlast : s.refcount = 1
      · have hempty : s.waiting.erase t = ∅ := by
          apply Finset.card_eq_zero.mp
          omega
        refine .inr ⟨t, fun u hne => ?_, .inl ⟨?_, hcounting.storageFrees_eq,
          hcounting.resourceFrees_eq⟩⟩
        · rw [goto_calls, if_neg hne]
          rcases hcounting.phases u with hu | hu | hu
          · have hin : u ∈ s.waiting.erase t := Finset.mem_erase.mpr ⟨hne, mem_waiting.mpr hu⟩
            rw [hempty] at hin
            exact absurd hin (Finset.notMem_empty u)
          · exact absurd hu (halone hphase hlast u)
          · exact hu
        · rw [goto_calls, if_pos rfl]
      · have hpos : 0 < (s.waiting.erase t).card := by omega
        obtain ⟨v, hv⟩ := Finset.card_pos.mp hpos
        obtain ⟨hvt, hv⟩ := Finset.mem_erase.mp hv
        refine .inl ⟨fun u => ?_, fun _ => ⟨v, ?_⟩, hcounting.storageFrees_eq,
          hcounting.resourceFrees_eq⟩
        · rw [goto_calls]
          split_ifs
          · exact .inr (.inl rfl)
          · exact hcounting.phases u
        · rw [goto_calls, if_neg hvt]
          exact mem_waiting.mp hv
  · obtain ⟨v, hv⟩ := hcounting.some_waiting t
    have hpos : 0 < s.waiting.card := Finset.card_pos.mpr ⟨v, mem_waiting.mpr hv⟩
    rw [hphase] at hstep
    rw [if_neg (by omega)] at hstep
    cases hstep
    have hvt : v ≠ t := by
      rintro rfl
      rw [hphase] at hv
      cases hv
    have hwaiting : (s.goto t .done).waiting = s.waiting := by
      rw [waiting_goto (by decide), Finset.erase_eq_of_notMem]
      rw [mem_waiting, hphase]
      decide
    refine ⟨h.regular, ?_, h.untouched, .inl ⟨fun u => ?_, fun _ => ⟨v, ?_⟩,
      hcounting.storageFrees_eq, hcounting.resourceFrees_eq⟩⟩
    · rw [hwaiting]
      exact hcount
    · rw [goto_calls]
      split_ifs
      · exact .inr (.inr rfl)
      · exact hcounting.phases u
    · rw [goto_calls, if_neg hvt]
      exact hv
  · rw [hphase] at hstep
    cases hstep

lemma Last.waiting_eq (h : Last s t) : s.waiting = ∅ := by
  apply Finset.eq_empty_of_forall_notMem
  intro u hu
  rw [mem_waiting] at hu
  by_cases hut : u = t
  · subst hut
    rcases h.frees with ⟨h, _⟩ | ⟨h, _⟩ | ⟨h, _⟩ | ⟨h, _⟩ <;> rw [h] at hu <;> cases hu
  · rw [h.others u hut] at hu
    cases hu

lemma Last.next {phase : Phase} (h : Last s t) (hcalls : s'.calls = (s.goto t phase).calls)
    (hfrees : phase = .freeing ∧ s'.storageFrees = 0 ∧ s'.resourceFrees = 0 ∨
      phase = .storageFreed ∧ s'.storageFrees = 1 ∧ s'.resourceFrees = 0 ∨
      phase = .done ∧ s'.storageFrees = 1 ∧ s'.resourceFrees = 1) : Last s' t where
  others u hne := by
    rw [hcalls, goto_calls, if_neg hne]
    exact h.others u hne
  frees := by
    rw [hcalls, goto_calls, if_pos rfl]
    exact .inr hfrees

lemma Inv.last_step {u : Fin n} (h : Inv s) (hlast : Last s u)
    (hstep : unrefStep s t = some s') : Inv s' := by
  have hzero : s.refcount = 0 := by
    rw [h.refcount_eq, hlast.waiting_eq, Finset.card_empty]
    rfl
  obtain rfl : t = u := by
    by_contra hne
    rw [unrefStep, hlast.others t hne] at hstep
    cases hstep
  have hnext : ∀ r : State n, r.refcount = s.refcount → r.mode = s.mode → r.touched = s.touched →
      Last r t → Inv r := by
    intro r hrefcount hmode htouched hr
    refine ⟨hmode ▸ h.regular, ?_, htouched.trans h.untouched, .inr ⟨t, hr⟩⟩
    rw [hrefcount, hzero, hr.waiting_eq, Finset.card_empty]
    rfl
  rcases hlast.frees with ⟨hphase, hsf, hrf⟩ | ⟨hphase, hsf, hrf⟩ | ⟨hphase, hsf, hrf⟩ | ⟨hphase, _⟩
  · rw [unrefStep, hphase, touch_eq h.untouched hrf] at hstep
    rw [if_pos ⟨hzero, h.regular⟩] at hstep
    cases hstep
    exact hnext _ rfl rfl rfl (hlast.next rfl (.inl ⟨rfl, hsf, hrf⟩))
  · rw [unrefStep, hphase, touch_eq h.untouched hrf] at hstep
    cases hstep
    exact hnext _ rfl rfl rfl (hlast.next rfl (.inr (.inl ⟨rfl, congrArg (· + 1) hsf, hrf⟩)))
  · rw [unrefStep, hphase] at hstep
    cases hstep
    exact hnext _ rfl rfl rfl (hlast.next rfl (.inr (.inr ⟨rfl, hsf, congrArg (· + 1) hrf⟩)))
  · rw [unrefStep, hphase] at hstep
    cases hstep

lemma inv_of_reachable (h : (unrefs n).ReachableVia Alone s) : Inv s := by
  apply h.invariant
  · rintro _ ⟨mode, hmode, rfl⟩
    exact inv_initial hmode
  · intro s t s' hI halone hstep
    rcases hI.stage with hcounting | ⟨u, hlast⟩
    · exact hI.counting_step hcounting halone hstep
    · exact hI.last_step hlast hstep

/-! ## Freeing once -/

/-- The storage and the resource are freed at most once, and once when all calls
have returned, and no call touches the freed resource. -/
structure FreedOnce (s : State n) : Prop where
  storage_le : s.storageFrees ≤ 1
  resource_le : s.resourceFrees ≤ 1
  untouched : s.touched = false
  goes_on : ∀ t, s.calls t ≠ .done → ((unrefs n).step s t).isSome = true
  freed : 0 < n → (∀ t, s.calls t = .done) → s.storageFrees = 1 ∧ s.resourceFrees = 1

/-- If the last reference is taken away only when no other call is about to read
the count, the resource is freed once. -/
theorem freedOnce_of_alone (h : (unrefs n).ReachableVia Alone s) : FreedOnce s := by
  have hI := inv_of_reachable h
  rcases hI.stage with hcounting | ⟨t, hlast⟩
  · have hsf := hcounting.storageFrees_eq
    have hrf := hcounting.resourceFrees_eq
    refine ⟨by omega, by omega, hI.untouched, fun _ => unrefStep_isSome, fun hn hdone => ?_⟩
    obtain ⟨v, hv⟩ := hcounting.some_waiting ⟨0, hn⟩
    rw [hdone v] at hv
    cases hv
  · have hfrees := hlast.frees
    refine ⟨by omega, by omega, hI.untouched, fun _ => unrefStep_isSome, fun _ hdone => ?_⟩
    rw [hdone t] at hfrees
    simpa using hfrees

theorem freedOnce_of_alone_twoCalls :
    ∃ s : State 2, (unrefs 2).ReachableVia Alone s ∧ (∀ t, s.calls t = .done) ∧ FreedOnce s := by
  have hinit : ((unrefs 2).guard Alone).Reachable (initial 2 (0o644 ||| statIfreg)) :=
    .init ⟨_, by decide, rfl⟩
  obtain ⟨s, hreach, hdone⟩ := hinit.exists_of_run_any [0, 0, 1, 1, 1, 1]
    (fun s => decide (∀ t, s.calls t = .done)) (by decide)
  have hvia := System.reachableVia_of_guard hreach
  exact ⟨s, hvia, of_decide_eq_true hdone, freedOnce_of_alone hvia⟩

/-- Both calls take their reference before one of them reads the count. -/
theorem freed_twice :
    ∃ s : State 2, (unrefs 2).Reachable s ∧ s.storageFrees = 2 ∧ s.resourceFrees = 2 ∧
      s.touched = true := by
  have hinit : (unrefs 2).Reachable (initial 2 (0o644 ||| statIfreg)) :=
    .init ⟨_, by decide, rfl⟩
  obtain ⟨s, hreach, hfrees⟩ := hinit.exists_of_run_any [0, 1, 0, 0, 0, 1, 1, 1]
    (fun s => decide (s.storageFrees = 2 ∧ s.resourceFrees = 2 ∧ s.touched = true)) (by decide)
  exact ⟨s, hreach, of_decide_eq_true hfrees⟩

end Cottage.ResourceRefs
