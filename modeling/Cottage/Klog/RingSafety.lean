import Cottage.Klog.RingInvariant

/-!
# What the log ring guarantees in every reachable state

The invariant holds right after `klog_init` and is kept by every step, so it
holds in every interleaving of any number of `klog_produce` calls with the
consumer.  The safety of the ring is read off from it.
-/

namespace Cottage.Klog

open Transition SequenceRing

variable {s t : Ring}

lemma step_inv {e : Event} (h : Inv s) (hstep : step s e = some t) : Inv t := by
  cases e with
  | produceCall k r =>
    cases hk : s.producers k with
    | none =>
      simp only [step, hk, Option.some.injEq] at hstep
      exact hstep ▸ h.produceCall hk
    | some q => simp [step, hk] at hstep
  | produce k =>
    obtain ⟨q, hq, hstep⟩ := Option.bind_eq_some_iff.mp hstep
    exact h.of_klogProduceStep hq hstep
  | consumeCall =>
    cases hc : s.consumer with
    | idle result =>
      simp only [step, hc, Option.some.injEq] at hstep
      refine hstep ▸ h.setConsumer_outside ?_ ?_ rfl (.inl rfl) <;>
        simp [Ring.released, Ring.emitted, hc]
    | _ => simp [step, hc] at hstep
  | consume => exact h.of_klogConsumeStep hstep
  | setTerm value =>
    rw [step, Option.some.injEq] at hstep
    subst hstep
    exact ⟨h.initialized, fun k q hq => ⟨(h.producer k q hq).pos_lt,
      (h.producer k q hq).released_le, (h.producer k q hq).window, (h.producer k q hq).stored⟩,
      h.unique, h.reserved, h.released_le_tail, h.encodes,
      ⟨h.consumer.position_eq, h.consumer.published, h.consumer.hasRead⟩,
      h.output_lt, h.output_sorted, h.output_call⟩

lemma foldl_update_range (f : ℕ → ℕ) {n i : ℕ} (hi : i < n) :
    (List.range n).foldl (fun seq i => Function.update seq i i) f i = i := by
  induction n with
  | zero => omega
  | succ n ih =>
    rw [List.range_succ, List.foldl_append, List.foldl_cons, List.foldl_nil]
    by_cases hin : i = n
    · simp [hin]
    · rw [Function.update_of_ne hin]
      exact ih (by omega)

lemma klogInit_sequence (boot : Ring) {i : ℕ} (hi : i < klogRingSize) :
    (klogInit boot).sequence i = i := by
  simp only [klogInit, foldl_update_range boot.sequence hi]

lemma initial_inv (h : Initial s) : Inv s := by
  obtain ⟨boot, rfl⟩ := h
  refine ⟨rfl, ?_, ?_, ?_, le_rfl, ⟨?_, ?_⟩, ⟨?_, ?_, ?_⟩, ?_, List.Pairwise.nil, ?_⟩
  · simp
  · simp
  · intro p hp
    cases hp
  · rintro p - - ⟨k, r, hk⟩
    simp [Ring.PublishedBy] at hk
  · intro p _ hp _
    have hlt : p < klogRingSize := by simpa [Ring.released, klogInit] using hp
    simp only [Nat.mod_eq_of_lt hlt, klogInit_sequence boot hlt]
  · simp [Consumer.position]
  · simp [Consumer.reading]
  · simp [Consumer.reading]
  · simp
  · simp

lemma reachable_inv (h : system.Reachable s) : Inv s :=
  h.invariant (fun _ => initial_inv) fun _ _ _ hI hstep => step_inv hI hstep

/-- Call `k` is between finding slot `i` free and publishing it. -/
def WritesSlot (s : Ring) (k i : ℕ) : Prop :=
  ∃ q p, s.producers k = some q ∧ q.writing = some p ∧ slotOf p = i

/-- The consumer is between finding slot `i` ready and giving it back. -/
def ReadsSlot (s : Ring) (i : ℕ) : Prop :=
  ∃ p, s.consumer.reading = some p ∧ slotOf p = i

/-- Call `k` is the only one that reserved position `p`, and its arguments
are those of `r`. -/
def ReservedOnlyBy (s : Ring) (p k : ℕ) (r : LogCall) : Prop :=
  (∃ q, s.producers k = some q ∧ q.pos = some p ∧ q.call = r) ∧
    ∀ j q, s.producers j = some q → q.pos = some p → j = k

structure RingSafe (s : Ring) : Prop where
  one_writer : ∀ i j k, WritesSlot s j i → WritesSlot s k i → j = k
  not_written_while_read : ∀ i k, WritesSlot s k i → ¬ ReadsSlot s i
  increasing : (s.outputs.map Prod.fst).Pairwise (· < ·)
  contents : ∀ p e, (p, e) ∈ s.outputs → ∃ k r, ReservedOnlyBy s p k r ∧ e = r.entry

namespace Inv

lemma window_of_writing {k p : ℕ} {q : Producer} (h : Inv s) (hq : s.producers k = some q)
    (hp : q.writing = some p) : s.released ≤ p ∧ p < s.released + klogRingSize :=
  ⟨(h.producer k q hq).released_le p (Producer.pos_of_writing hp)
      (Producer.published_of_writing hp),
    (h.producer k q hq).window p (by simp [Producer.active, hp])⟩

lemma one_writer {i j k : ℕ} (h : Inv s) (hj : WritesSlot s j i) (hk : WritesSlot s k i) :
    j = k := by
  obtain ⟨q, p, hq, hp, rfl⟩ := hj
  obtain ⟨q', p', hq', hp', hslot⟩ := hk
  obtain ⟨hle, hlt⟩ := h.window_of_writing hq hp
  obtain ⟨hle', hlt'⟩ := h.window_of_writing hq' hp'
  obtain rfl : p = p' := by
    by_contra hne
    exact slotOf_ne hle hlt hle' hlt' hne hslot.symm
  exact h.unique j k q q' p hq hq' (Producer.pos_of_writing hp) (Producer.pos_of_writing hp')

lemma not_written_while_read {i k : ℕ} (h : Inv s) (hk : WritesSlot s k i) :
    ¬ ReadsSlot s i := by
  obtain ⟨q, p, hq, hp, rfl⟩ := hk
  rintro ⟨p', hp', hslot⟩
  have hpub := h.consumer.published p' hp'
  obtain ⟨hle, hlt⟩ := h.window_of_writing hq hp
  obtain rfl : p' = p := by
    by_contra hne
    exact slotOf_ne (h.released_le_of_reading hp') (h.published_lt hpub) hle hlt hne hslot
  exact h.not_published hq (Producer.pos_of_writing hp) (Producer.published_of_writing hp) hpub

lemma output_reservedOnlyBy {p : ℕ} {e : Entry} (h : Inv s) (ho : (p, e) ∈ s.outputs) :
    ∃ k r, ReservedOnlyBy s p k r ∧ e = r.entry := by
  obtain ⟨k, r, hk, he⟩ := h.output_call _ ho
  refine ⟨k, r, ⟨⟨_, hk, rfl, rfl⟩, ?_⟩, he⟩
  intro j q hq hp
  exact h.unique j k q _ p hq hk hp rfl

end Inv

/-- In every run a slot has one writer and is not read meanwhile, and what is
output was logged by one call, in the order of its positions. -/
theorem ring_safe (h : system.Reachable s) : RingSafe s where
  one_writer _ _ _ := (reachable_inv h).one_writer
  not_written_while_read _ _ := (reachable_inv h).not_written_while_read
  increasing := (reachable_inv h).output_sorted
  contents _ _ := (reachable_inv h).output_reservedOnlyBy

def booted : Ring :=
  { klogInit {
      ringInitialized := false, tail := 0, head := 0, sequence := fun _ => 0
      entries := fun _ => default, droppedCount := 0, haveTerm := true
      producers := fun _ => none, consumer := .idle none, outputs := [] } with
    producers := fun _ => none, consumer := .idle none, outputs := [] }

lemma booted_reachable : system.Reachable booted :=
  .init ⟨_, rfl⟩

def produceRun (k : ℕ) (r : LogCall) : List Event :=
  .produceCall k r :: List.replicate 8 (.produce k)

def consumeRun : List Event :=
  .consumeCall :: List.replicate 10 .consume

theorem ring_safe_after_one_message :
    ∃ s, system.Reachable s ∧ s.outputs = [(0, ⟨5, 1, [0x6b], [0x68, 0x69]⟩)] ∧ RingSafe s := by
  obtain ⟨s, hs, hout⟩ := booted_reachable.exists_of_run_any
    (produceRun 0 ⟨[0x6b], [0x68, 0x69], 5, 1⟩ ++ consumeRun)
    (fun s => decide (s.outputs = [(0, ⟨5, 1, [0x6b], [0x68, 0x69]⟩)]))
    (by decide +kernel)
  exact ⟨s, hs, of_decide_eq_true hout, ring_safe hs⟩

end Cottage.Klog
