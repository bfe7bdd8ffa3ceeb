import Cottage.Foundations.SequenceRing
import Cottage.Klog.Ring

/-!
# Safety of the log ring

The window of the ring starts at the first position the consumer has not
released yet, which is `head`, or `head + 1` between its two last stores.  The
slot numbers encode which positions of the window are published, a call that
writes owns an unpublished position of the window, and a position whose call
did not publish is never passed by the window.
-/

namespace Cottage.Klog

open Transition SequenceRing Function

variable {s : Ring} {j k p : ℕ} {q q' : Producer}

def Ring.PublishedBy (s : Ring) (k : ℕ) (r : LogCall) (p : ℕ) : Prop :=
  s.producers k = some (.returned r (some p) true)

def Ring.Published (s : Ring) (p : ℕ) : Prop :=
  ∃ k r, s.PublishedBy k r p

def Ring.released (s : Ring) : ℕ :=
  match s.consumer with
  | .storeHead head => head + 1
  | _ => s.head

def Ring.emitted (s : Ring) : ℕ :=
  match s.consumer with
  | .storeSequence head | .storeHead head => head + 1
  | _ => s.head

/-- What a slot holds when its call has come as far as `q`. -/
def Producer.Stored (e : Entry) : Producer → Prop
  | .writeCpu r _ => e.timestampMs = r.timestamp
  | .writeModule r _ => e.timestampMs = r.timestamp ∧ e.cpuId = r.cpu
  | .writeMessage r _ => e.timestampMs = r.timestamp ∧ e.cpuId = r.cpu ∧ e.module = r.entry.module
  | .publish r _ => e = r.entry
  | .returned r _ true => e = r.entry
  | _ => True

def Producer.active (q : Producer) : Option ℕ :=
  q.writing.or q.published

/-- The invariant of one call: an unpublished position is not passed by the
window, a slot is written only for a position the window has come to, and it
holds what has been written so far until it is released. -/
structure ProducerOk (s : Ring) (q : Producer) : Prop where
  pos_lt : ∀ p, q.pos = some p → p < s.tail
  released_le : ∀ p, q.pos = some p → q.published = none → s.released ≤ p
  window : ∀ p, q.active = some p → p < s.released + klogRingSize
  stored : ∀ p, q.active = some p → s.released ≤ p → q.Stored (s.entries (slotOf p))

def Consumer.position : Consumer → Option ℕ
  | .idle _ | .loadHead => none
  | .loadSequence head | .testTerm head | .readTimestamp head | .readCpu head _
  | .readModule head _ _ | .readMessage head _ _ _ | .termWrite head _
  | .storeSequence head | .storeHead head => some head

def Consumer.HasRead (e : Entry) : Consumer → Prop
  | .readCpu _ timestamp => timestamp = e.timestampMs
  | .readModule _ timestamp cpu => timestamp = e.timestampMs ∧ cpu = e.cpuId
  | .readMessage _ timestamp cpu module =>
    timestamp = e.timestampMs ∧ cpu = e.cpuId ∧ module = e.module
  | .termWrite _ line => line = e
  | _ => True

/-- The invariant of the consumer: it works on the current head, whose
position is published while its slot is read. -/
structure ConsumerOk (s : Ring) : Prop where
  position_eq : ∀ h, s.consumer.position = some h → h = s.head
  published : ∀ h, s.consumer.reading = some h → s.Published h
  hasRead : ∀ h, s.consumer.reading = some h → s.consumer.HasRead (s.entries (slotOf h))

structure Inv (s : Ring) : Prop where
  initialized : s.ringInitialized = true
  producer : ∀ k q, s.producers k = some q → ProducerOk s q
  unique : ∀ j k q q' p, s.producers j = some q → s.producers k = some q' →
    q.pos = some p → q'.pos = some p → j = k
  reserved : ∀ p, p < s.tail → ∃ k q, s.producers k = some q ∧ q.pos = some p
  released_le_tail : s.released ≤ s.tail
  encodes : Encodes klogRingSize s.released s.Published s.sequence
  consumer : ConsumerOk s
  output_lt : ∀ o ∈ s.outputs, o.1 < s.emitted
  output_sorted : (s.outputs.map Prod.fst).Pairwise (· < ·)
  output_call : ∀ o ∈ s.outputs, ∃ k r, s.PublishedBy k r o.1 ∧ o.2 = r.entry

lemma Producer.pos_of_writing (h : q.writing = some p) : q.pos = some p := by
  cases q <;> simp_all [writing, pos]

lemma Producer.pos_of_published (h : q.published = some p) : q.pos = some p := by
  cases q with
  | returned r position result => cases result <;> simp_all [published, pos]
  | _ => simp [published] at h

lemma Producer.published_of_writing (h : q.writing = some p) : q.published = none := by
  cases q <;> simp_all [writing, published]

lemma Producer.pos_of_active (h : q.active = some p) : q.pos = some p := by
  rcases Option.or_eq_some_iff.mp h with hw | ⟨_, hp⟩
  · exact pos_of_writing hw
  · exact pos_of_published hp

lemma Producer.published_eq_some {p : ℕ} :
    q.published = some p ↔ ∃ r, q = .returned r (some p) true := by
  cases q with
  | returned r position result => cases result <;> simp [published]
  | _ => simp [published]

lemma Consumer.position_of_reading {c : Consumer} (h : c.reading = some p) :
    c.position = some p := by
  cases c <;> simp_all [reading, position]

lemma Ring.released_of_reading (h : s.consumer.reading = some p) : s.released = s.head := by
  unfold released
  cases hc : s.consumer <;> simp_all [Consumer.reading]

lemma Ring.published_iff :
    s.Published p ↔ ∃ k q, s.producers k = some q ∧ q.published = some p := by
  constructor
  · rintro ⟨k, r, h⟩
    exact ⟨k, _, h, rfl⟩
  · rintro ⟨k, q, hq, hp⟩
    obtain ⟨r, rfl⟩ := Producer.published_eq_some.mp hp
    exact ⟨k, r, hq⟩

lemma Ring.PublishedBy.of_update {t : Ring} {r : LogCall} {o : Option Producer}
    (h : s.PublishedBy j r p) (hk : ∀ q, s.producers k = some q → q.published = none)
    (ht : t.producers = update s.producers k o) : t.PublishedBy j r p := by
  unfold PublishedBy at h ⊢
  rw [ht]
  by_cases hjk : j = k
  · have := hk _ (hjk ▸ h)
    simp [Producer.published] at this
  · rwa [update_of_ne hjk]

lemma Ring.published_update {t : Ring} (hk : ∀ q, s.producers k = some q → q.published = none)
    (ht : t.producers = update s.producers k (some q')) :
    t.Published p ↔ s.Published p ∨ q'.published = some p := by
  constructor
  · intro h
    obtain ⟨j, q, hq, hp⟩ := published_iff.mp h
    rw [ht] at hq
    by_cases hj : j = k
    · subst hj
      obtain rfl : q' = q := by simpa using hq
      exact .inr hp
    · rw [update_of_ne hj] at hq
      exact .inl (published_iff.mpr ⟨j, q, hq, hp⟩)
  · rintro (⟨j, r, hj⟩ | hp)
    · exact ⟨j, r, hj.of_update hk ht⟩
    · exact published_iff.mpr ⟨k, q', by simp [ht], hp⟩

lemma slotOf_ne {base p p' : ℕ} (hp : base ≤ p) (hpN : p < base + klogRingSize)
    (hp' : base ≤ p') (hpN' : p' < base + klogRingSize) (hne : p ≠ p') :
    slotOf p ≠ slotOf p' := by
  rw [slotOf_eq_mod, slotOf_eq_mod]
  exact fun heq => hne (eq_of_slot_eq hp hpN hp' hpN' heq)

namespace Inv

variable {t : Ring}

lemma not_published (h : Inv s) (hq : s.producers k = some q) (hpos : q.pos = some p)
    (hpub : q.published = none) : ¬ s.Published p := by
  rintro ⟨j, r, hj⟩
  obtain rfl : j = k := h.unique j k _ q p hj hq rfl hpos
  obtain rfl : q = _ := Option.some.inj (hq.symm.trans hj)
  simp [Producer.published] at hpub

lemma published_lt (h : Inv s) (hp : s.Published p) :
    p < s.released + klogRingSize := by
  obtain ⟨k, r, hk⟩ := hp
  exact (h.producer k _ hk).window p rfl

lemma stored_of_publishedBy {r : LogCall} (h : Inv s) (hk : s.PublishedBy k r p)
    (hp : s.released ≤ p) : s.entries (slotOf p) = r.entry :=
  (h.producer k _ hk).stored p rfl hp

lemma released_le_of_reading (h : Inv s) (hp : s.consumer.reading = some p) :
    s.released ≤ p := by
  rw [Ring.released_of_reading hp, h.consumer.position_eq p (Consumer.position_of_reading hp)]

section ProducerStep

variable {tail : ℕ} {sequence : ℕ → ℕ} {entries : ℕ → Entry} {droppedCount : UInt64}

variable (h : Inv s)

include h

lemma of_producer (hk : ∀ q, s.producers k = some q → q.published = none)
    (ht : t = { s with
      tail := tail, sequence := sequence, entries := entries, droppedCount := droppedCount,
      producers := update s.producers k (some q') })
    (hok : ProducerOk t q') (htail : s.tail ≤ tail)
    (hfresh : ∀ j q p, j ≠ k → s.producers j = some q → q.pos = some p → q'.pos ≠ some p)
    (hreserved : ∀ p, p < tail → q'.pos = some p ∨ ∃ j ≠ k, ∃ q,
      s.producers j = some q ∧ q.pos = some p)
    (hentries : ∀ p, s.released ≤ p → p < s.released + klogRingSize → q'.pos ≠ some p →
      entries (slotOf p) = s.entries (slotOf p))
    (hencodes : Encodes klogRingSize s.released t.Published sequence) : Inv t := by
  have hproducers : t.producers = update s.producers k (some q') := by rw [ht]
  have hself : t.producers k = some q' := by simp [hproducers]
  have hother : ∀ j, j ≠ k → t.producers j = s.producers j := by
    intro j hj
    simp [hproducers, update_of_ne hj]
  have hreleased : t.released = s.released := by rw [ht]; rfl
  have hpublished : ∀ p, s.Published p → t.Published p := by
    rintro p ⟨j, r, hj⟩
    exact ⟨j, r, hj.of_update hk hproducers⟩
  have hslot : ∀ p, s.Published p → s.released ≤ p →
      t.entries (slotOf p) = s.entries (slotOf p) := by
    rintro p ⟨j, r, hj⟩ hp
    have hjk : j ≠ k := by
      rintro rfl
      simpa [Producer.published] using hk _ hj
    rw [ht]
    exact hentries p hp (h.published_lt ⟨j, r, hj⟩) (hfresh j _ p hjk hj rfl)
  refine
    { initialized := ?_
      producer := ?_
      unique := ?_
      reserved := ?_
      released_le_tail := ?_
      encodes := ?_
      consumer := ?_
      output_lt := ?_
      output_sorted := ?_
      output_call := ?_ }
  · rw [ht]
    exact h.initialized
  · intro j q hq
    by_cases hj : j = k
    · subst hj
      obtain rfl : q' = q := Option.some.inj (hself.symm.trans hq)
      exact hok
    · rw [hother j hj] at hq
      have hqok := h.producer j q hq
      refine ⟨?_, ?_, ?_, ?_⟩
      · intro p hp
        have hlt := hqok.pos_lt p hp
        rw [ht]
        exact hlt.trans_le htail
      · intro p hp hpub
        rw [hreleased]
        exact hqok.released_le p hp hpub
      · intro p hp
        rw [hreleased]
        exact hqok.window p hp
      · intro p hp hle
        rw [hreleased] at hle
        rw [ht]
        change q.Stored (entries (slotOf p))
        rw [hentries p hle (hqok.window p hp) (hfresh j q p hj hq (Producer.pos_of_active hp))]
        exact hqok.stored p hp hle
  · intro i j q₁ q₂ p h₁ h₂ hp₁ hp₂
    by_cases hi : i = k <;> by_cases hj : j = k
    · rw [hi, hj]
    · subst hi
      rw [hother j hj] at h₂
      obtain rfl : q' = q₁ := Option.some.inj (hself.symm.trans h₁)
      exact absurd hp₁ (hfresh j q₂ p hj h₂ hp₂)
    · subst hj
      rw [hother i hi] at h₁
      obtain rfl : q' = q₂ := Option.some.inj (hself.symm.trans h₂)
      exact absurd hp₂ (hfresh i q₁ p hi h₁ hp₁)
    · rw [hother i hi] at h₁
      rw [hother j hj] at h₂
      exact h.unique i j q₁ q₂ p h₁ h₂ hp₁ hp₂
  · intro p hp
    rw [ht] at hp
    rcases hreserved p hp with hself' | ⟨j, hj, q, hq, hqp⟩
    · exact ⟨k, q', hself, hself'⟩
    · exact ⟨j, q, (hother j hj).trans hq, hqp⟩
  · rw [hreleased, ht]
    exact h.released_le_tail.trans htail
  · rw [hreleased]
    rw [ht] at hencodes ⊢
    exact hencodes
  · have hconsumer : t.consumer = s.consumer := by rw [ht]
    refine ⟨?_, ?_, ?_⟩
    · rw [ht]
      exact h.consumer.position_eq
    · intro p hp
      rw [hconsumer] at hp
      exact hpublished p (h.consumer.published p hp)
    · intro p hp
      rw [hconsumer] at hp ⊢
      rw [hslot p (h.consumer.published p hp) (h.released_le_of_reading hp)]
      exact h.consumer.hasRead p hp
  · rw [ht]
    exact h.output_lt
  · rw [ht]
    exact h.output_sorted
  · intro o ho
    have ho' : o ∈ s.outputs := by rwa [ht] at ho
    obtain ⟨j, r, hj, he⟩ := h.output_call o ho'
    exact ⟨j, r, hj.of_update hk hproducers, he⟩

lemma advance (hq : s.producers k = some q) (hpub : q.published = none) (hpos : q'.pos = q.pos)
    (hpub' : q'.published = none)
    (hentries : ∀ p, s.released ≤ p → p < s.released + klogRingSize → q'.pos ≠ some p →
      entries (slotOf p) = s.entries (slotOf p))
    (hwriting : ∀ p, q'.writing = some p →
      p < s.released + klogRingSize ∧ q'.Stored (entries (slotOf p))) :
    Inv { s with
      entries := entries, droppedCount := droppedCount,
      producers := update s.producers k (some q') } := by
  have hqok := h.producer k q hq
  have hk : ∀ q, s.producers k = some q → q.published = none := by
    rintro _ hq'
    exact Option.some.inj (hq.symm.trans hq') ▸ hpub
  have hactive : q'.active = q'.writing := by simp [Producer.active, hpub']
  refine h.of_producer hk rfl ⟨?_, ?_, ?_, ?_⟩ le_rfl ?_ ?_ hentries ?_
  · intro p hp
    exact hqok.pos_lt p (hpos ▸ hp)
  · intro p hp _
    exact hqok.released_le p (hpos ▸ hp) hpub
  · intro p hp
    exact (hwriting p (hactive ▸ hp)).1
  · intro p hp _
    exact (hwriting p (hactive ▸ hp)).2
  · intro j q₁ p hj h₁ hp₁ hp'
    exact hj (h.unique j k q₁ q p h₁ hq hp₁ (hpos ▸ hp'))
  · intro p hp
    obtain ⟨j, q₁, h₁, hp₁⟩ := h.reserved p hp
    by_cases hj : j = k
    · subst hj
      obtain rfl : q = q₁ := Option.some.inj (hq.symm.trans h₁)
      exact .inl (hpos.trans hp₁)
    · exact .inr ⟨j, hj, q₁, h₁, hp₁⟩
  · refine h.encodes.congr fun p _ _ => (Ring.published_update hk rfl).trans ?_
    simp [hpub']

lemma setProducer (hq : s.producers k = some q) (hpub : q.published = none)
    (hpos : q'.pos = q.pos) (hpub' : q'.published = none)
    (hwriting : ∀ p, q'.writing = some p →
      p < s.released + klogRingSize ∧ q'.Stored (s.entries (slotOf p))) :
    Inv (s.setProducer k q') :=
  h.advance hq hpub hpos hpub' (fun _ _ _ _ => rfl) hwriting

lemma setEntry {e : Entry} (hq : s.producers k = some q) (hwriting : q.writing = some p)
    (hwriting' : q'.writing = some p) (hstored : q'.Stored e) :
    Inv ((s.setEntry p e).setProducer k q') := by
  have hpub := Producer.published_of_writing hwriting
  have hpos := Producer.pos_of_writing hwriting
  have hpos' := Producer.pos_of_writing hwriting'
  have hle := (h.producer k q hq).released_le p hpos hpub
  have hlt := (h.producer k q hq).window p (by simp [Producer.active, hwriting])
  refine h.advance hq hpub (hpos'.trans hpos.symm) (Producer.published_of_writing hwriting') ?_ ?_
  · intro p' hp' hpN' hne
    have hne' : p' ≠ p := fun heq => hne (heq ▸ hpos')
    exact update_of_ne (slotOf_ne hp' hpN' hle hlt hne') _ _
  · intro p' hp'
    obtain rfl : p = p' := Option.some.inj (hwriting'.symm.trans hp')
    exact ⟨hlt, by simpa [Ring.setEntry] using hstored⟩

lemma produceCall {r : LogCall} (hk : s.producers k = none) :
    Inv (s.setProducer k (.testInitialized r)) := by
  have hpub : ∀ q, s.producers k = some q → q.published = none := by simp [hk]
  refine h.of_producer hpub rfl ?_ le_rfl ?_ ?_ (fun _ _ _ _ => rfl) ?_
  · constructor <;> simp [Producer.pos, Producer.active, Producer.writing, Producer.published]
  · simp [Producer.pos]
  · intro p hp
    obtain ⟨j, q, hq, hqp⟩ := h.reserved p hp
    refine .inr ⟨j, ?_, q, hq, hqp⟩
    rintro rfl
    simp [hk] at hq
  · refine h.encodes.congr fun p _ _ => (Ring.published_update hpub rfl).trans ?_
    simp [Producer.published]

lemma reserve {r : LogCall} (hq : s.producers k = some (.reserve r)) :
    Inv ((s.setTail (s.tail + 1)).setProducer k (.loadSequence r s.tail 0)) := by
  have hpub : ∀ q, s.producers k = some q → q.published = none := by
    simp [hq, Producer.published]
  refine h.of_producer hpub rfl ?_ (Nat.le_succ _) ?_ ?_ (fun _ _ _ _ => rfl) ?_
  · constructor
    · intro p hp
      obtain rfl : s.tail = p := Option.some.inj hp
      exact Nat.lt_succ_self _
    · intro p hp _
      obtain rfl : s.tail = p := Option.some.inj hp
      exact h.released_le_tail
    · simp [Producer.active, Producer.writing, Producer.published]
    · simp [Producer.active, Producer.writing, Producer.published]
  · intro j q p _ hj hp heq
    have := (h.producer j q hj).pos_lt p hp
    simp only [Producer.pos, Option.some.injEq] at heq
    omega
  · intro p hp
    rcases Nat.lt_succ_iff_lt_or_eq.mp hp with hlt | rfl
    · obtain ⟨j, q, hj, hqp⟩ := h.reserved p hlt
      refine .inr ⟨j, ?_, q, hj, hqp⟩
      rintro rfl
      obtain rfl : Producer.reserve r = q := Option.some.inj (hq.symm.trans hj)
      simp [Producer.pos] at hqp
    · exact .inl rfl
  · refine h.encodes.congr fun p _ _ => (Ring.published_update hpub rfl).trans ?_
    simp [Producer.published]

lemma publish {r : LogCall} (hq : s.producers k = some (.publish r p)) :
    Inv ((s.setSequence p (p + 1)).setProducer k (.returned r (some p) true)) := by
  have hqok := h.producer k _ hq
  have hle := hqok.released_le p rfl rfl
  have hlt := hqok.window p rfl
  have hpub : ∀ q, s.producers k = some q → q.published = none := by
    simp [hq, Producer.published]
  refine h.of_producer hpub rfl ⟨?_, ?_, ?_, ?_⟩ le_rfl ?_ ?_ (fun _ _ _ _ => rfl) ?_
  · exact hqok.pos_lt
  · intro p' hp' hnone
    simp [Producer.published] at hnone
  · exact hqok.window
  · exact hqok.stored
  · intro j q₁ p' hj h₁ hp₁ hp'
    exact hj (h.unique j k q₁ _ p' h₁ hq hp₁ hp')
  · intro p' hp'
    obtain ⟨j, q₁, h₁, hp₁⟩ := h.reserved p' hp'
    by_cases hj : j = k
    · subst hj
      obtain rfl : Producer.publish r p = q₁ := Option.some.inj (hq.symm.trans h₁)
      exact .inl hp₁
    · exact .inr ⟨j, hj, q₁, h₁, hp₁⟩
  · simp only [Ring.setSequence, slotOf_eq_mod]
    refine (h.encodes.publish hle hlt).congr fun p' _ _ => (Ring.published_update hpub rfl).trans ?_
    simp [Producer.published, eq_comm]

end ProducerStep

lemma of_klogProduceStep (h : Inv s) (hq : s.producers k = some q)
    (hstep : klogProduceStep s k q = some t) : Inv t := by
  cases q <;> simp only [klogProduceStep, Option.some.injEq, reduceCtorEq] at hstep
  case testInitialized r =>
    rw [if_pos h.initialized, Option.some.injEq] at hstep
    exact hstep ▸ h.setProducer hq rfl rfl rfl (by simp [Producer.writing])
  case reserve r =>
    exact hstep ▸ h.reserve hq
  case loadSequence r p spin =>
    split_ifs at hstep with hspin heq hlt <;>
      rw [Option.some.injEq] at hstep <;> subst hstep <;>
      refine h.setProducer hq rfl rfl rfl ?_
    · intro p' hp'
      obtain rfl : p = p' := Option.some.inj hp'
      rw [slotOf_eq_mod] at heq
      exact ⟨(h.encodes.eq_of_self (by decide) heq).2.1, trivial⟩
    · simp [Producer.writing]
    · simp [Producer.writing]
    · simp [Producer.writing]
  case writeTimestamp r p =>
    exact hstep ▸ h.setEntry hq rfl rfl rfl
  case writeCpu r p =>
    have hstored := (h.producer k _ hq).stored p rfl ((h.producer k _ hq).released_le p rfl rfl)
    exact hstep ▸ h.setEntry hq rfl rfl ⟨hstored, rfl⟩
  case writeModule r p =>
    have hstored := (h.producer k _ hq).stored p rfl ((h.producer k _ hq).released_le p rfl rfl)
    exact hstep ▸ h.setEntry hq rfl rfl ⟨hstored.1, hstored.2, rfl⟩
  case writeMessage r p =>
    have hstored := (h.producer k _ hq).stored p rfl ((h.producer k _ hq).released_le p rfl rfl)
    obtain ⟨htimestamp, hcpu, hmodule⟩ := hstored
    refine hstep ▸ h.setEntry hq rfl rfl ?_
    simp [Producer.Stored, LogCall.entry, htimestamp, hcpu, hmodule]
  case publish r p =>
    exact hstep ▸ h.publish hq
  case countDrop r p =>
    exact hstep ▸ h.advance hq rfl rfl rfl (fun _ _ _ _ => rfl) (by simp [Producer.writing])

/-! ## Steps of the consumer -/

section ConsumerStep

variable {head : ℕ} {sequence : ℕ → ℕ} {outputs : List (ℕ × Entry)} {c : Consumer}

variable (h : Inv s)

include h

lemma of_consumer
    (ht : t = { s with head := head, sequence := sequence, outputs := outputs, consumer := c })
    (hreleased : s.released ≤ t.released)
    (hpassed : ∀ p, s.released ≤ p → ¬ s.Published p → t.released ≤ p)
    (htail : t.released ≤ s.tail)
    (hencodes : Encodes klogRingSize t.released s.Published sequence) (hok : ConsumerOk t)
    (hlt : ∀ o ∈ outputs, o.1 < t.emitted) (hsorted : (outputs.map Prod.fst).Pairwise (· < ·))
    (hcall : ∀ o ∈ outputs, ∃ k r, s.PublishedBy k r o.1 ∧ o.2 = r.entry) : Inv t := by
  have hproducer : ∀ k q, s.producers k = some q → ProducerOk t q := by
    intro k q hq
    have hqok := h.producer k q hq
    refine ⟨?_, ?_, ?_, ?_⟩
    · rw [ht]
      exact hqok.pos_lt
    · intro p hp hpub
      exact hpassed p (hqok.released_le p hp hpub) (h.not_published hq hp hpub)
    · intro p hp
      have := hqok.window p hp
      omega
    · intro p hp hle
      rw [ht]
      exact hqok.stored p hp (hreleased.trans hle)
  subst ht
  exact ⟨h.initialized, hproducer, h.unique, h.reserved, htail, hencodes, hok, hlt, hsorted, hcall⟩

lemma setConsumer (hreleased : (s.setConsumer c).released = s.released)
    (hemitted : s.emitted ≤ (s.setConsumer c).emitted) (hok : ConsumerOk (s.setConsumer c)) :
    Inv (s.setConsumer c) := by
  refine h.of_consumer rfl hreleased.ge ?_ ?_ ?_ hok ?_ h.output_sorted h.output_call
  · intro p hp _
    exact hreleased.trans_le hp
  · exact hreleased.trans_le h.released_le_tail
  · exact hreleased ▸ h.encodes
  · intro o ho
    exact (h.output_lt o ho).trans_le hemitted

lemma setConsumer_reading (hreading : s.consumer.reading = some p)
    (hreading' : c.reading = some p) (hemitted : s.emitted ≤ (s.setConsumer c).emitted)
    (hread : c.HasRead (s.entries (slotOf p))) : Inv (s.setConsumer c) := by
  have hhead := h.consumer.position_eq p (Consumer.position_of_reading hreading)
  have hreleased : (s.setConsumer c).released = (s.setConsumer c).head :=
    Ring.released_of_reading hreading'
  refine h.setConsumer (hreleased.trans (Ring.released_of_reading hreading).symm) hemitted
    ⟨?_, ?_, ?_⟩
  · intro p' hp'
    obtain rfl : p = p' :=
      Option.some.inj ((Consumer.position_of_reading hreading').symm.trans hp')
    exact hhead
  · intro p' hp'
    obtain rfl : p = p' := Option.some.inj (hreading'.symm.trans hp')
    exact h.consumer.published p hreading
  · intro p' hp'
    obtain rfl : p = p' := Option.some.inj (hreading'.symm.trans hp')
    exact hread

lemma termWrite {line : Entry} (hc : s.consumer = .termWrite head line) :
    Inv ({ s with outputs := s.outputs ++ [(head, line)] }.setConsumer (.storeSequence head)) := by
  have hreading : s.consumer.reading = some head := by rw [hc]; rfl
  have hreleased : s.released = s.head := Ring.released_of_reading hreading
  have hemitted : s.emitted = s.head := by simp [Ring.emitted, hc]
  obtain rfl : head = s.head :=
    h.consumer.position_eq head (Consumer.position_of_reading hreading)
  obtain ⟨k, r, hk⟩ := h.consumer.published _ hreading
  have hline : line = s.entries (slotOf s.head) := by
    simpa [hc, Consumer.HasRead] using h.consumer.hasRead _ hreading
  refine h.of_consumer rfl hreleased.le ?_ ?_ ?_ ⟨?_, ?_, ?_⟩ ?_ ?_ ?_
  · intro p hp _
    exact hreleased.symm.trans_le hp
  · exact hreleased.symm.trans_le h.released_le_tail
  · exact hreleased ▸ h.encodes
  · intro p hp
    exact (Option.some.inj hp).symm
  · intro p hp
    obtain rfl : s.head = p := Option.some.inj hp
    exact ⟨k, r, hk⟩
  · intro p _
    trivial
  · intro o ho
    rcases List.mem_append.mp ho with ho | ho
    · have := h.output_lt o ho
      rw [hemitted] at this
      exact this.trans (Nat.lt_succ_self _)
    · obtain rfl := List.mem_singleton.mp ho
      exact Nat.lt_succ_self _
  · rw [List.map_append, List.pairwise_append]
    refine ⟨h.output_sorted, by simp, ?_⟩
    intro p hp p' hp'
    obtain ⟨o, ho, rfl⟩ := List.mem_map.mp hp
    obtain rfl : p' = s.head := by simpa using hp'
    exact hemitted ▸ h.output_lt o ho
  · intro o ho
    rcases List.mem_append.mp ho with ho | ho
    · exact h.output_call o ho
    · obtain rfl := List.mem_singleton.mp ho
      exact ⟨k, r, hk, hline.trans (h.stored_of_publishedBy hk hreleased.le)⟩

lemma storeSequence (hc : s.consumer = .storeSequence head) :
    Inv ((s.setSequence head (head + klogRingSize)).setConsumer (.storeHead head)) := by
  have hreading : s.consumer.reading = some head := by rw [hc]; rfl
  have hreleased : s.released = s.head := Ring.released_of_reading hreading
  obtain rfl : head = s.head :=
    h.consumer.position_eq head (Consumer.position_of_reading hreading)
  obtain ⟨k, r, hk⟩ := h.consumer.published _ hreading
  have hnext : ¬ s.Published (s.released + klogRingSize) :=
    fun hp => lt_irrefl _ (h.published_lt hp)
  have hencodes := h.encodes.release hnext
  rw [hreleased] at hencodes
  refine h.of_consumer rfl (hreleased.trans_le (Nat.le_succ _)) ?_ ?_ ?_ ⟨?_, ?_, ?_⟩ ?_
    h.output_sorted h.output_call
  · intro p hp hpub
    refine Nat.lt_of_le_of_ne (hreleased ▸ hp) ?_
    rintro rfl
    exact hpub ⟨k, r, hk⟩
  · exact (h.producer k _ hk).pos_lt _ rfl
  · change Encodes klogRingSize (s.head + 1) s.Published (s.setSequence s.head _).sequence
    rw [Ring.setSequence, slotOf_eq_mod]
    exact hencodes
  · intro p hp
    exact (Option.some.inj hp).symm
  · intro p hp
    simp [Ring.setConsumer, Consumer.reading] at hp
  · intro p hp
    simp [Ring.setConsumer, Consumer.reading] at hp
  · intro o ho
    simpa [Ring.emitted, Ring.setConsumer, hc] using h.output_lt o ho

lemma storeHead (hc : s.consumer = .storeHead head) :
    Inv ({ s with head := head + 1 }.setConsumer (.idle (some true))) := by
  have hreleased : s.released = head + 1 := by simp [Ring.released, hc]
  refine h.of_consumer rfl hreleased.le ?_ ?_ ?_ ⟨?_, ?_, ?_⟩ ?_ h.output_sorted h.output_call
  · intro p hp _
    exact hreleased.symm.trans_le hp
  · exact hreleased.symm.trans_le h.released_le_tail
  · exact hreleased ▸ h.encodes
  · intro p hp
    simp [Ring.setConsumer, Consumer.position] at hp
  · intro p hp
    simp [Ring.setConsumer, Consumer.reading] at hp
  · intro p hp
    simp [Ring.setConsumer, Consumer.reading] at hp
  · intro o ho
    simpa [Ring.emitted, Ring.setConsumer, hc] using h.output_lt o ho

lemma setConsumer_outside (hreleased : s.released = s.head) (hemitted : s.emitted = s.head)
    (hreading : c.reading = none) (hposition : c.position = none ∨ c = .loadSequence s.head) :
    Inv (s.setConsumer c) := by
  have hc : (s.setConsumer c).released = s.head ∧ (s.setConsumer c).emitted = s.head := by
    rcases hposition with hposition | rfl
    · cases c <;> simp_all [Consumer.position, Ring.released, Ring.emitted, Ring.setConsumer]
    · exact ⟨rfl, rfl⟩
  refine h.setConsumer (hc.1.trans hreleased.symm) (hemitted.trans hc.2.symm).le ⟨?_, ?_, ?_⟩
  · intro p hp
    rcases hposition with hposition | rfl
    · cases hposition.symm.trans hp
    · exact (Option.some.inj hp).symm
  · intro p hp
    cases hreading.symm.trans hp
  · intro p hp
    cases hreading.symm.trans hp

lemma of_klogConsumeStep (hstep : klogConsumeStep s s.consumer = some t) : Inv t := by
  cases hc : s.consumer <;>
    simp only [hc, klogConsumeStep, Option.some.injEq, reduceCtorEq] at hstep
  case loadHead =>
    refine hstep ▸ h.setConsumer_outside ?_ ?_ rfl (.inr rfl) <;>
      simp [Ring.released, Ring.emitted, hc]
  case loadSequence head =>
    have hhead : head = s.head := h.consumer.position_eq head (by rw [hc]; rfl)
    have hreleased : s.released = s.head := by simp [Ring.released, hc]
    have hemitted : s.emitted = s.head := by simp [Ring.emitted, hc]
    split_ifs at hstep with hseq <;> cases hstep
    · exact h.setConsumer_outside hreleased hemitted rfl (.inl rfl)
    · rw [not_not, slotOf_eq_mod] at hseq
      refine h.setConsumer hreleased.symm hemitted.le ⟨?_, ?_, ?_⟩
      · intro p hp
        exact (Option.some.inj hp).symm.trans hhead
      · intro p hp
        obtain rfl : head = p := Option.some.inj hp
        exact (h.encodes.eq_of_succ (by decide) hseq).2.2
      · intro p _
        trivial
  case testTerm head =>
    have hreading : s.consumer.reading = some head := by rw [hc]; rfl
    have hhead : head = s.head := h.consumer.position_eq head (by rw [hc]; rfl)
    split_ifs at hstep <;> cases hstep
    · exact h.setConsumer_reading hreading rfl (by simp [Ring.emitted, Ring.setConsumer, hc])
        trivial
    · refine h.setConsumer_reading hreading rfl ?_ trivial
      simp [Ring.emitted, Ring.setConsumer, hc, hhead]
  case readTimestamp head =>
    have hreading : s.consumer.reading = some head := by rw [hc]; rfl
    exact hstep ▸ h.setConsumer_reading hreading rfl
      (by simp [Ring.emitted, Ring.setConsumer, hc]) rfl
  case readCpu head timestamp =>
    have hreading : s.consumer.reading = some head := by rw [hc]; rfl
    have hread := h.consumer.hasRead head hreading
    rw [hc] at hread
    exact hstep ▸ h.setConsumer_reading hreading rfl
      (by simp [Ring.emitted, Ring.setConsumer, hc]) ⟨hread, rfl⟩
  case readModule head timestamp cpu =>
    have hreading : s.consumer.reading = some head := by rw [hc]; rfl
    have hread := h.consumer.hasRead head hreading
    rw [hc] at hread
    exact hstep ▸ h.setConsumer_reading hreading rfl
      (by simp [Ring.emitted, Ring.setConsumer, hc]) ⟨hread.1, hread.2, rfl⟩
  case readMessage head timestamp cpu module =>
    have hreading : s.consumer.reading = some head := by rw [hc]; rfl
    have hread := h.consumer.hasRead head hreading
    rw [hc] at hread
    obtain ⟨htimestamp, hcpu, hmodule⟩ := hread
    refine hstep ▸ h.setConsumer_reading hreading rfl
      (by simp [Ring.emitted, Ring.setConsumer, hc]) ?_
    simp [Consumer.HasRead, htimestamp, hcpu, hmodule]
  case termWrite head line =>
    exact hstep ▸ h.termWrite hc
  case storeSequence head =>
    exact hstep ▸ h.storeSequence hc
  case storeHead head =>
    exact hstep ▸ h.storeHead hc

end ConsumerStep

end Inv

end Cottage.Klog
