import Cottage.Klog.Calls

/-!
# Draining the log ring

Which accepted messages does a drain with `klog_flush_sync` bring out? A
`klog_produce` call reserves its position before it learns that the ring is
full.  Such a position is never published, so the consumer never passes it, and
every message accepted at a later position stays behind.
-/

namespace Cottage.Klog

open Transition SequenceRing Function

variable {s t : Ring}

def Producer.Dropping : Producer → Prop
  | .countDrop .. => True
  | .returned _ (some _) false => True
  | .loadSequence _ _ spin => spin ≠ 0
  | _ => False

structure NoLoss (s : Ring) : Prop where
  inv : Inv s
  not_dropping : ∀ k q, s.producers k = some q → ¬ q.Dropping
  output : ∀ p, p < s.emitted → ∃ e, (p, e) ∈ s.outputs

namespace NoLoss

lemma not_dropping_update {k : ℕ} {q' : Producer} (h : NoLoss s)
    (ht : t.producers = update s.producers k (some q')) (hq' : ¬ q'.Dropping) :
    ∀ j q, t.producers j = some q → ¬ q.Dropping := by
  intro j q hq
  rw [ht] at hq
  by_cases hj : j = k
  · subst hj
    obtain rfl : q' = q := by simpa using hq
    exact hq'
  · rw [update_of_ne hj] at hq
    exact h.not_dropping j q hq

lemma klogProduceStep_spec {k : ℕ} {q : Producer} (h : NoLoss s)
    (hq : s.producers k = some q) (hok : Unhindered s (.produce k))
    (hstep : klogProduceStep s k q = some t) :
    t.consumer = s.consumer ∧ t.head = s.head ∧ t.outputs = s.outputs ∧
      ∃ q', t.producers = update s.producers k (some q') ∧ ¬ q'.Dropping := by
  have hdropping := h.not_dropping k q hq
  cases q with
  | testInitialized r =>
    rw [klogProduceStep, if_pos h.inv.initialized] at hstep
    cases hstep
    exact ⟨rfl, rfl, rfl, _, rfl, id⟩
  | loadSequence r p spin =>
    obtain rfl : spin = 0 := not_not.mp hdropping
    have hpos : (Producer.loadSequence r p 0).pos = some p := rfl
    have hle := (h.inv.producer k _ hq).released_le p hpos rfl
    have hbehind := h.inv.encodes.le_of_not_ready (by decide) hle (h.inv.not_published hq hpos rfl)
    have hahead : p ≤ s.sequence (slotOf p) := by
      simpa [Unhindered, hq, Producer.checking] using hok
    rw [← slotOf_eq_mod] at hbehind
    rw [klogProduceStep, if_pos (by decide), if_pos (hbehind.antisymm hahead)] at hstep
    cases hstep
    exact ⟨rfl, rfl, rfl, _, rfl, id⟩
  | countDrop r p => exact absurd trivial hdropping
  | returned => simp [klogProduceStep] at hstep
  | reserve r =>
    cases hstep
    exact ⟨rfl, rfl, rfl, _, rfl, not_not.mpr rfl⟩
  | _ =>
    cases hstep
    exact ⟨rfl, rfl, rfl, _, rfl, id⟩

lemma klogConsumeStep_spec (h : NoLoss s) (hok : Unhindered s .consume)
    (hstep : klogConsumeStep s s.consumer = some t) :
    t.producers = s.producers ∧
      (t.emitted = s.emitted ∧ t.outputs = s.outputs ∨
        ∃ line, t.emitted = s.emitted + 1 ∧ t.outputs = s.outputs ++ [(s.emitted, line)]) := by
  cases hc : s.consumer with
  | idle result => simp [hc, klogConsumeStep] at hstep
  | loadSequence head =>
    rw [hc, klogConsumeStep] at hstep
    split_ifs at hstep <;> cases hstep <;>
      exact ⟨rfl, .inl ⟨by simp [Ring.emitted, Ring.setConsumer, hc], rfl⟩⟩
  | testTerm head =>
    have hterm : s.haveTerm = true := by simpa [Unhindered, hc, Consumer.reading] using hok
    rw [hc, klogConsumeStep, if_pos hterm] at hstep
    cases hstep
    exact ⟨rfl, .inl ⟨by simp [Ring.emitted, Ring.setConsumer, hc], rfl⟩⟩
  | termWrite head line =>
    have hhead : head = s.head := h.inv.consumer.position_eq head (by rw [hc]; rfl)
    rw [hc] at hstep
    cases hstep
    exact ⟨rfl, .inr ⟨line, by simp [Ring.emitted, Ring.setConsumer, hc, hhead],
      by simp [Ring.emitted, Ring.setConsumer, hc, hhead]⟩⟩
  | _ =>
    rw [hc] at hstep
    cases hstep
    exact ⟨rfl, .inl ⟨by simp [Ring.emitted, Ring.setConsumer, Ring.setSequence, hc], rfl⟩⟩

lemma step {e : Event} (h : NoLoss s) (hok : Unhindered s e)
    (hstep : Klog.step s e = some t) : NoLoss t := by
  have hinv := step_inv h.inv hstep
  cases e with
  | produceCall k r =>
    cases hk : s.producers k with
    | none =>
      simp only [Klog.step, hk] at hstep
      cases hstep
      exact ⟨hinv, h.not_dropping_update rfl id, h.output⟩
    | some q => simp [Klog.step, hk] at hstep
  | produce k =>
    obtain ⟨q, hq, hstep⟩ := Option.bind_eq_some_iff.mp hstep
    obtain ⟨hconsumer, hhead, houtputs, q', hproducers, hq'⟩ :=
      h.klogProduceStep_spec hq hok hstep
    have hemitted : t.emitted = s.emitted := by simp only [Ring.emitted, hconsumer, hhead]
    refine ⟨hinv, h.not_dropping_update hproducers hq', ?_⟩
    rw [hemitted, houtputs]
    exact h.output
  | consumeCall =>
    cases hc : s.consumer with
    | idle result =>
      simp only [Klog.step, hc] at hstep
      cases hstep
      refine ⟨hinv, h.not_dropping, ?_⟩
      simpa [Ring.emitted, Ring.setConsumer, hc] using h.output
    | _ => simp [Klog.step, hc] at hstep
  | consume =>
    obtain ⟨hproducers, hout⟩ := h.klogConsumeStep_spec hok hstep
    refine ⟨hinv, hproducers ▸ h.not_dropping, ?_⟩
    rcases hout with ⟨hemitted, houtputs⟩ | ⟨line, hemitted, houtputs⟩
    · rw [hemitted, houtputs]
      exact h.output
    · intro p hp
      rw [hemitted] at hp
      rcases Nat.lt_succ_iff_lt_or_eq.mp hp with hlt | rfl
      · obtain ⟨e, he⟩ := h.output p hlt
        exact ⟨e, by simp [houtputs, he]⟩
      · exact ⟨line, by simp [houtputs]⟩
  | setTerm value =>
    rw [Klog.step, Option.some.injEq] at hstep
    subst hstep
    exact ⟨hinv, h.not_dropping, h.output⟩

lemma of_initial (h : Initial s) : NoLoss s := by
  refine ⟨initial_inv h, ?_, ?_⟩
  · obtain ⟨boot, rfl⟩ := h
    simp
  · obtain ⟨boot, rfl⟩ := h
    intro p hp
    simp [Ring.emitted, klogInit] at hp

lemma of_reachableVia (h : system.ReachableVia Unhindered s) : NoLoss s :=
  h.invariant (fun _ => of_initial) fun _ _ _ hI hok hstep => hI.step hok hstep

end NoLoss

/-- No call is inside `klog_produce` and the consumer is between calls. -/
def Quiet (s : Ring) : Prop :=
  (∀ k q, s.producers k = some q → ∃ r p result, q = .returned r p result) ∧
    ∃ result, s.consumer = .idle result

/-- A drain ends, and then every accepted message has been output. -/
def NoneStranded (s : Ring) : Prop :=
  ∃ fuel t, klogFlushSync fuel s = some t ∧ ∀ k r p, s.PublishedBy k r p → (p, r.entry) ∈ t.outputs

lemma step_isConsume_haveTerm {e : Event} (he : e.IsConsume) (hterm : s.haveTerm = true)
    (hstep : step s e = some t) : t.haveTerm = true := by
  cases e with
  | consumeCall =>
    cases hc : s.consumer <;> simp [step, hc] at hstep
    exact hstep ▸ hterm
  | consume =>
    change klogConsumeStep s s.consumer = some t at hstep
    cases hc : s.consumer <;> rw [hc, klogConsumeStep] at hstep <;>
      first
        | split_ifs at hstep <;> cases hstep <;> exact hterm
        | cases hstep <;> exact hterm
  | _ => exact absurd he id

lemma reachableVia_klogConsumeOne (h : system.ReachableVia Unhindered s)
    (hterm : s.haveTerm = true) {result : Option Bool} (hidle : s.consumer = .idle result) :
    system.ReachableVia Unhindered (klogConsumeOne s).1 := by
  obtain ⟨n, hrun⟩ := exists_run_klogConsumeOne hidle
  refine (h.run (P := fun s => s.haveTerm = true) (A := Event.IsConsume) hterm ?_ ?_ ?_ hrun).1
  · intro s e t he hterm hstep
    exact step_isConsume_haveTerm he hterm hstep
  · intro s e he hterm
    cases e with
    | consumeCall => trivial
    | consume => exact fun _ _ _ => hterm
    | _ => exact absurd he id
  · simp [Event.IsConsume]

lemma Quiet.klogConsumeOne (h : Quiet s) : Quiet (klogConsumeOne s).1 :=
  ⟨(klogConsumeOne_frame (s := s)).1.symm ▸ h.1, _, klogConsumeOne_consumer⟩

variable {p k n : ℕ} {r : LogCall}

lemma NoLoss.published_of_quiet (h : NoLoss s) (hquiet : Quiet s) (hp : p < s.tail) :
    s.Published p := by
  obtain ⟨k, q, hq, hpos⟩ := h.inv.reserved p hp
  obtain ⟨r, p', result, rfl⟩ := hquiet.1 k q hq
  obtain rfl : p' = some p := hpos
  cases result with
  | true => exact ⟨k, r, hq⟩
  | false => exact absurd trivial (h.not_dropping k _ hq)

lemma Quiet.setProducer {p : Option ℕ} {result : Bool} (h : Quiet s)
    (hproducers : t.producers = update s.producers k (some (.returned r p result)))
    (hconsumer : t.consumer = s.consumer) : Quiet t := by
  refine ⟨?_, hconsumer ▸ h.2⟩
  intro j q hq
  rw [hproducers] at hq
  by_cases hj : j = k
  · subst hj
    obtain rfl : _ = q := by simpa using hq
    exact ⟨r, p, result, rfl⟩
  · rw [update_of_ne hj] at hq
    exact h.1 j q hq

lemma Quiet.released_eq (h : Quiet s) : s.released = s.head := by
  obtain ⟨result, hc⟩ := h.2
  simp [Ring.released, hc]

lemma Quiet.emitted_eq (h : Quiet s) : s.emitted = s.head := by
  obtain ⟨result, hc⟩ := h.2
  simp [Ring.emitted, hc]

lemma NoLoss.klogConsumeOne_eq (h : NoLoss s) (hquiet : Quiet s) :
    (klogConsumeOne s).2 = decide (s.head < s.tail) ∧
      (klogConsumeOne s).1.head = if s.head < s.tail then s.head + 1 else s.head := by
  have hseq : s.sequence (slotOf s.head) = s.head + 1 ↔ s.head < s.tail := by
    rw [slotOf_eq_mod]
    constructor
    · intro heq
      obtain ⟨k, r, hk⟩ := (h.inv.encodes.eq_of_succ (by decide) heq).2.2
      exact (h.inv.producer k _ hk).pos_lt _ rfl
    · intro hlt
      refine h.inv.encodes.of_ready _ hquiet.released_eq.le ?_ (h.published_of_quiet hquiet hlt)
      exact h.inv.published_lt (h.published_of_quiet hquiet hlt)
  unfold klogConsumeOne
  by_cases hlt : s.head < s.tail
  · rw [if_neg (not_not.mpr (hseq.mpr hlt))]
    simp [hlt, Ring.setConsumer]
  · rw [if_pos (fun heq => hlt (hseq.mp heq))]
    simp [hlt, Ring.setConsumer]

lemma exists_klogFlushSync (h : system.ReachableVia Unhindered s)
    (hterm : s.haveTerm = true) (hquiet : Quiet s) :
    ∃ fuel t, klogFlushSync fuel s = some t ∧ system.ReachableVia Unhindered t ∧ Quiet t ∧
      t.producers = s.producers ∧ t.tail ≤ t.head := by
  induction hn : s.tail - s.head generalizing s with
  | zero =>
    obtain ⟨hresult, hhead⟩ := (NoLoss.of_reachableVia h).klogConsumeOne_eq hquiet
    have hnot : ¬ s.head < s.tail := by omega
    rw [decide_eq_false hnot] at hresult
    rw [if_neg hnot] at hhead
    refine ⟨1, (klogConsumeOne s).1, by simp [klogFlushSync, hresult],
      reachableVia_klogConsumeOne h hterm hquiet.2.choose_spec, hquiet.klogConsumeOne,
      klogConsumeOne_frame.1, ?_⟩
    rw [klogConsumeOne_frame.2.1, hhead]
    omega
  | succ n ih =>
    obtain ⟨hresult, hhead⟩ := (NoLoss.of_reachableVia h).klogConsumeOne_eq hquiet
    have hlt : s.head < s.tail := by omega
    rw [decide_eq_true hlt] at hresult
    rw [if_pos hlt] at hhead
    obtain ⟨hproducers, htail, hterm'⟩ := klogConsumeOne_frame (s := s)
    obtain ⟨fuel, t, hflush, hreach, hquiet', hproducers', hdone⟩ :=
      ih (reachableVia_klogConsumeOne h hterm hquiet.2.choose_spec) (hterm'.trans hterm)
        hquiet.klogConsumeOne (by omega)
    exact ⟨fuel + 1, t, by simp [klogFlushSync, hresult, hflush], hreach, hquiet',
      hproducers'.trans hproducers, hdone⟩

/-- When no check was hindered and all is quiet, a drain outputs every message
that was accepted. -/
theorem none_stranded_of_unhindered (h : system.ReachableVia Unhindered s)
    (hterm : s.haveTerm = true) (hquiet : Quiet s) : NoneStranded s := by
  obtain ⟨fuel, t, hflush, hreach, hquiet', hproducers, hdone⟩ :=
    exists_klogFlushSync h hterm hquiet
  refine ⟨fuel, t, hflush, ?_⟩
  intro k r p hk
  have ht := NoLoss.of_reachableVia hreach
  have hkt : t.PublishedBy k r p := by rwa [Ring.PublishedBy, hproducers]
  have hlt : p < t.emitted := by
    have := (ht.inv.producer k _ hkt).pos_lt p rfl
    rw [hquiet'.emitted_eq]
    omega
  obtain ⟨e, he⟩ := ht.output p hlt
  obtain ⟨j, r', hj, hentry⟩ := ht.inv.output_call _ he
  obtain rfl : j = k := ht.inv.unique j k _ _ p hj hkt rfl rfl
  obtain rfl : r' = r := by
    have heq := hj.symm.trans hkt
    simpa using heq
  exact hentry ▸ he

/-- The state of the ring after `n` accepted messages of a quiet system that
has consumed nothing. -/
structure Filled (s : Ring) (n : ℕ) : Prop where
  initialized : s.ringInitialized = true
  tail : s.tail = n
  head : s.head = 0
  haveTerm : s.haveTerm = true
  consumer : s.consumer = .idle none
  returned : ∀ k q, s.producers k = some q → k < n ∧ ∃ r p result, q = .returned r p result
  sequence : ∀ i, i < klogRingSize → s.sequence i = if i < n then i + 1 else i

lemma filled_booted : Filled booted 0 where
  initialized := rfl
  tail := rfl
  head := rfl
  haveTerm := rfl
  consumer := rfl
  returned := by simp [booted]
  sequence i hi := by simp only [booted, klogInit_sequence _ hi]; simp

def filler : LogCall := ⟨[], [], 0, 0⟩

lemma Filled.accept (h : Filled s n) (hn : n < klogRingSize) :
    Filled (s.accept n filler) (n + 1) := by
  have hslot : slotOf n = n := by rw [slotOf_eq_mod, Nat.mod_eq_of_lt hn]
  refine ⟨h.initialized, congrArg (· + 1) h.tail, h.head, h.haveTerm, h.consumer, ?_, ?_⟩
  · intro k q hq
    by_cases hk : k = n
    · subst hk
      obtain rfl : _ = q := Option.some.inj ((Ring.setProducer_producers_self ..).symm.trans hq)
      exact ⟨Nat.lt_succ_self k, _, _, _, rfl⟩
    · have hq' : s.producers k = some q := by
        rwa [Ring.accept, Ring.setProducer_producers_of_ne _ _ _ hk] at hq
      obtain ⟨hlt, hret⟩ := h.returned k q hq'
      exact ⟨hlt.trans (Nat.lt_succ_self n), hret⟩
  · intro i hi
    have hseq := h.sequence i hi
    by_cases hin : i = n
    · simp [Ring.accept, Ring.setSequence, h.tail, hslot, hin]
    · simp only [Ring.accept, Ring.setProducer_sequence, Ring.setSequence, h.tail, hslot,
        update_of_ne hin]
      change s.sequence i = _
      rw [hseq]
      split_ifs <;> omega

lemma exists_filled (hn : n ≤ klogRingSize) :
    ∃ s, system.ReachableVia Unhindered s ∧ Filled s n := by
  induction n with
  | zero => exact ⟨booted, .init ⟨_, rfl⟩, filled_booted⟩
  | succ n ih =>
    obtain ⟨s, hs, hfilled⟩ := ih (Nat.le_of_succ_le hn)
    have hslot : slotOf s.tail = n := by
      rw [slotOf_eq_mod, hfilled.tail, Nat.mod_eq_of_lt hn]
    have hnone : s.producers n = none := by
      by_contra hsome
      obtain ⟨q, hq⟩ := Option.ne_none_iff_exists'.mp hsome
      exact absurd (hfilled.returned n q hq).1 (lt_irrefl n)
    have hseq : s.sequence (slotOf s.tail) = s.tail := by
      rw [hslot, hfilled.sequence n hn, if_neg (lt_irrefl n), hfilled.tail]
    refine ⟨s.accept n filler, ?_, hfilled.accept hn⟩
    exact hs.run_guard (guard_run_accept hfilled.initialized hnone hseq)

lemma Filled.quiet (h : Filled s n) : Quiet s :=
  ⟨fun k q hq => (h.returned k q hq).2, none, h.consumer⟩

theorem none_stranded_after_accept :
    (booted.accept 0 filler).Published 0 ∧ NoneStranded (booted.accept 0 filler) := by
  have hfilled : Filled (booted.accept 0 filler) 1 := filled_booted.accept (by decide)
  have hseq : booted.sequence (slotOf booted.tail) = booted.tail :=
    filled_booted.sequence 0 (by decide)
  have hreach : system.ReachableVia Unhindered (booted.accept 0 filler) :=
    System.ReachableVia.run_guard (.init ⟨_, rfl⟩) (guard_run_accept rfl rfl hseq)
  exact ⟨⟨0, filler, Ring.setProducer_producers_self ..⟩,
    none_stranded_of_unhindered hreach rfl hfilled.quiet⟩

/-! ## A dropped message holds back what is accepted after it -/

lemma output_lt_of_dropped (h : Inv s) (hquiet : Quiet s)
    (hk : s.producers k = some (.returned r (some p) false)) : ∀ o ∈ s.outputs, o.1 < p := by
  intro o ho
  calc
    o.1 < s.emitted := h.output_lt o ho
    _ = s.head := hquiet.emitted_eq
    _ = s.released := hquiet.released_eq.symm
    _ ≤ p := (h.producer k _ hk).released_le p rfl rfl

lemma klogFlushSync_spec {fuel : ℕ} (h : system.Reachable s) (hquiet : Quiet s)
    (hflush : klogFlushSync fuel s = some t) :
    system.Reachable t ∧ Quiet t ∧ t.producers = s.producers := by
  induction fuel generalizing s with
  | zero => simp [klogFlushSync] at hflush
  | succ fuel ih =>
    obtain ⟨n, hrun⟩ := exists_run_klogConsumeOne hquiet.2.choose_spec
    have hproducers := (klogConsumeOne_frame (s := s)).1
    rw [klogFlushSync] at hflush
    split_ifs at hflush with hresult
    · obtain ⟨hreach, hquiet', heq⟩ := ih (h.run hrun) hquiet.klogConsumeOne hflush
      exact ⟨hreach, hquiet', heq.trans hproducers⟩
    · cases hflush
      exact ⟨h.run hrun, hquiet.klogConsumeOne, hproducers⟩

lemma not_noneStranded_of_dropped {j p' : ℕ} {r' : LogCall} (h : system.Reachable s)
    (hquiet : Quiet s) (hk : s.producers k = some (.returned r (some p) false))
    (hj : s.PublishedBy j r' p') (hlt : p < p') : ¬ NoneStranded s := by
  rintro ⟨fuel, t, hflush, hall⟩
  obtain ⟨hreach, hquiet', hproducers⟩ := klogFlushSync_spec h hquiet hflush
  have := output_lt_of_dropped (reachable_inv hreach) hquiet' (hproducers ▸ hk) _ (hall j r' p' hj)
  omega

/-- The ring was filled, one call was turned away, and `n` entries have been
consumed since. -/
structure Overflowed (s : Ring) (n : ℕ) : Prop where
  reachable : system.Reachable s
  quiet : Quiet s
  initialized : s.ringInitialized = true
  haveTerm : s.haveTerm = true
  tail : s.tail = klogRingSize + 1
  head : s.head = n
  dropped : s.producers klogRingSize = some (.returned filler (some klogRingSize) false)
  unused : s.producers (klogRingSize + 1) = none
  sequence : ∀ i, i < klogRingSize → s.sequence i = if i < n then i + klogRingSize else i + 1

lemma exists_overflowed : ∃ s, Overflowed s 0 := by
  obtain ⟨s, hs, hfilled⟩ := exists_filled le_rfl
  have hfree (k : ℕ) (hk : klogRingSize ≤ k) : s.producers k = none := by
    by_contra hsome
    obtain ⟨q, hq⟩ := Option.ne_none_iff_exists'.mp hsome
    exact absurd (hfilled.returned k q hq).1 (by omega)
  have hfull : s.sequence (slotOf s.tail) < s.tail := by
    rw [hfilled.tail]
    exact (hfilled.sequence 0 (by decide)).trans_lt (by decide)
  refine ⟨s.drop klogRingSize filler,
    hs.reachable.run (run_drop hfilled.initialized (hfree _ le_rfl) hfull),
    hfilled.quiet.setProducer rfl rfl, hfilled.initialized, hfilled.haveTerm,
    congrArg (· + 1) hfilled.tail, hfilled.head, ?_, ?_, ?_⟩
  · rw [Ring.drop, Ring.setProducer_producers_self, hfilled.tail]
  · rw [Ring.drop, Ring.setProducer_producers_of_ne _ _ _ (by decide)]
    exact hfree (klogRingSize + 1) (Nat.le_succ _)
  · intro i hi
    have := hfilled.sequence i hi
    rw [if_pos hi] at this
    rw [if_neg (Nat.not_lt_zero i)]
    exact this

lemma Overflowed.klogConsumeOne (h : Overflowed s n) (hn : n < klogRingSize) :
    Overflowed (klogConsumeOne s).1 (n + 1) := by
  have hslot : slotOf s.head = n := by rw [slotOf_eq_mod, h.head, Nat.mod_eq_of_lt hn]
  have hready : s.sequence (slotOf s.head) = s.head + 1 := by
    rw [hslot, h.sequence n hn, if_neg (lt_irrefl n), h.head]
  obtain ⟨m, hrun⟩ := exists_run_klogConsumeOne h.quiet.2.choose_spec
  obtain ⟨hproducers, htail, hterm⟩ := klogConsumeOne_frame (s := s)
  obtain ⟨hhead, hinit, hseq⟩ := klogConsumeOne_of_ready hready
  refine ⟨h.reachable.run hrun, h.quiet.klogConsumeOne, hinit.trans h.initialized,
    hterm.trans h.haveTerm, htail.trans h.tail, by rw [hhead, h.head],
    hproducers ▸ h.dropped, hproducers ▸ h.unused, ?_⟩
  intro i hi
  rw [hseq, hslot, h.head]
  by_cases hin : i = n
  · simp [hin]
  · rw [update_of_ne hin, h.sequence i hi]
    split_ifs <;> omega

/-- Fill the ring, have one call turned away, consume two entries, and have one
more call accepted. -/
theorem accepted_message_stranded :
    ¬ ∀ s, system.Reachable s → s.haveTerm = true → Quiet s → NoneStranded s := by
  intro hall
  obtain ⟨s₀, h₀⟩ := exists_overflowed
  obtain ⟨s, h⟩ : ∃ s, Overflowed s 2 :=
    ⟨_, (h₀.klogConsumeOne (by decide)).klogConsumeOne (by decide)⟩
  have hfree : s.sequence (slotOf s.tail) = s.tail := by
    rw [h.tail]
    exact h.sequence 1 (by decide)
  have haccept := guard_run_accept (r := filler) h.initialized h.unused hfree
  have hreach := h.reachable.run (System.run_of_guard haccept)
  have hquiet : Quiet (s.accept (klogRingSize + 1) filler) := h.quiet.setProducer rfl rfl
  have hdropped : (s.accept (klogRingSize + 1) filler).producers klogRingSize =
      some (.returned filler (some klogRingSize) false) := by
    rw [Ring.accept, Ring.setProducer_producers_of_ne _ _ _ (by decide)]
    exact h.dropped
  have haccepted : (s.accept (klogRingSize + 1) filler).PublishedBy (klogRingSize + 1) filler
      s.tail := Ring.setProducer_producers_self ..
  exact not_noneStranded_of_dropped hreach hquiet hdropped haccepted
    (h.tail ▸ Nat.lt_succ_self klogRingSize) (hall _ hreach h.haveTerm hquiet)

end Cottage.Klog
