import Cottage.Klog.RingSafety

/-!
# Whole calls on the log ring

`klog_consume_one` and `klog_flush_sync` as functions on the ring, and the
state a `klog_produce` call leaves behind when nothing else runs.  Each of them
is tied to the step relation by the run that performs it.
-/

namespace Cottage.Klog

open Transition SequenceRing

variable {s t : Ring}

def klogOutputEntry (s : Ring) (pos : ℕ) : Ring :=
  if s.haveTerm then { s with outputs := s.outputs ++ [(pos, s.entries (slotOf pos))] } else s

def klogConsumeOne (s : Ring) : Ring × Bool :=
  if s.sequence (slotOf s.head) ≠ s.head + 1 then
    (s.setConsumer (.idle (some false)), false)
  else
    ({ (klogOutputEntry s s.head).setSequence s.head (s.head + klogRingSize) with
        head := s.head + 1 }.setConsumer (.idle (some true)), true)

/-- `klog_flush_sync`: call `klog_consume_one` until it returns false. -/
def klogFlushSync : ℕ → Ring → Option Ring
  | 0, _ => none
  | fuel + 1, s =>
    if (klogConsumeOne s).2 then klogFlushSync fuel (klogConsumeOne s).1
    else some (klogConsumeOne s).1

def Event.IsConsume : Event → Prop
  | .consumeCall | .consume => True
  | _ => False

lemma run_consume (hstep : klogConsumeStep s s.consumer = some t) (rest : List Event) :
    system.run s (.consume :: rest) = system.run t rest :=
  system.run_cons_of_step (a := .consume) hstep rest

lemma run_storeSequence (s : Ring) (head : ℕ) :
    system.run (s.setConsumer (.storeSequence head)) [.consume, .consume] =
      some ({ s.setSequence head (head + klogRingSize) with
        head := head + 1 }.setConsumer (.idle (some true))) :=
  (run_consume rfl _).trans (run_consume rfl _)

lemma run_testTerm (s : Ring) (head : ℕ) :
    ∃ n, system.run (s.setConsumer (.testTerm head)) (List.replicate n .consume) =
      some ({ (klogOutputEntry s head).setSequence head (head + klogRingSize) with
        head := head + 1 }.setConsumer (.idle (some true))) := by
  cases hterm : s.haveTerm with
  | true =>
    have hopen : klogConsumeStep (s.setConsumer (.testTerm head)) (.testTerm head) =
        some (s.setConsumer (.readTimestamp head)) := if_pos hterm
    let e := s.entries (slotOf head)
    refine ⟨8, (run_consume hopen _).trans ?_⟩
    refine (run_consume (t := s.setConsumer (.readCpu head e.timestampMs)) rfl _).trans ?_
    refine (run_consume (t := s.setConsumer (.readModule head e.timestampMs e.cpuId))
      rfl _).trans ?_
    refine (run_consume (t := s.setConsumer (.readMessage head e.timestampMs e.cpuId e.module))
      rfl _).trans ?_
    refine (run_consume (t := s.setConsumer (.termWrite head e)) rfl _).trans ?_
    refine (run_consume (t := { s with outputs := s.outputs ++ [(head, e)] }.setConsumer
      (.storeSequence head)) rfl _).trans ?_
    rw [klogOutputEntry, if_pos hterm]
    exact run_storeSequence _ _
  | false =>
    have hclosed : klogConsumeStep (s.setConsumer (.testTerm head)) (.testTerm head) =
        some (s.setConsumer (.storeSequence head)) := if_neg (by simp [Ring.setConsumer, hterm])
    refine ⟨3, (run_consume hclosed _).trans ?_⟩
    rw [klogOutputEntry, if_neg (by simp [hterm])]
    exact run_storeSequence _ _

lemma exists_run_klogConsumeOne {result : Option Bool} (hidle : s.consumer = .idle result) :
    ∃ n, system.run s (.consumeCall :: List.replicate n .consume) = some (klogConsumeOne s).1 := by
  have hcall : system.step s .consumeCall = some (s.setConsumer .loadHead) := by
    simp [system, step, hidle]
  by_cases hseq : s.sequence (slotOf s.head) = s.head + 1
  · have hready : klogConsumeStep (s.setConsumer (.loadSequence s.head)) (.loadSequence s.head) =
        some (s.setConsumer (.testTerm s.head)) := if_neg (not_not.mpr hseq)
    obtain ⟨n, hrun⟩ := run_testTerm s s.head
    refine ⟨n + 2, (system.run_cons_of_step hcall _).trans ?_⟩
    refine (run_consume rfl _).trans ((run_consume hready _).trans ?_)
    rw [klogConsumeOne, if_neg (not_not.mpr hseq)]
    exact hrun
  · have hempty : klogConsumeStep (s.setConsumer (.loadSequence s.head)) (.loadSequence s.head) =
        some (s.setConsumer (.idle (some false))) := if_pos hseq
    refine ⟨2, (system.run_cons_of_step hcall _).trans ?_⟩
    refine (run_consume rfl _).trans ((run_consume hempty _).trans ?_)
    rw [klogConsumeOne, if_pos hseq]
    rfl

lemma klogConsumeOne_consumer :
    (klogConsumeOne s).1.consumer = .idle (some (klogConsumeOne s).2) := by
  unfold klogConsumeOne
  split_ifs <;> rfl

lemma klogConsumeOne_frame :
    (klogConsumeOne s).1.producers = s.producers ∧ (klogConsumeOne s).1.tail = s.tail ∧
      (klogConsumeOne s).1.haveTerm = s.haveTerm := by
  unfold klogConsumeOne klogOutputEntry
  split_ifs <;> exact ⟨rfl, rfl, rfl⟩

lemma klogConsumeOne_of_ready (hseq : s.sequence (slotOf s.head) = s.head + 1) :
    (klogConsumeOne s).1.head = s.head + 1 ∧
      (klogConsumeOne s).1.ringInitialized = s.ringInitialized ∧
      (klogConsumeOne s).1.sequence =
        Function.update s.sequence (slotOf s.head) (s.head + klogRingSize) := by
  unfold klogConsumeOne klogOutputEntry
  rw [if_neg (not_not.mpr hseq)]
  split_ifs <;> exact ⟨rfl, rfl, rfl⟩

def Producer.checking : Producer → Option ℕ
  | .loadSequence _ pos _ => some pos
  | _ => none

/-- No check of a `klog_produce` call finds its slot behind its position, and
`klog_output_entry` finds the terminal. -/
def Unhindered (s : Ring) : Event → Prop
  | .produce k => ∀ q ∈ s.producers k, ∀ pos ∈ q.checking, pos ≤ s.sequence (slotOf pos)
  | .consume => ∀ pos ∈ s.consumer.reading, s.consumer = .testTerm pos → s.haveTerm = true
  | _ => True

instance (s : Ring) : ∀ e, Decidable (Unhindered s e)
  | .produce k => inferInstanceAs
      (Decidable (∀ q ∈ s.producers k, ∀ pos ∈ q.checking, pos ≤ s.sequence (slotOf pos)))
  | .consume => inferInstanceAs
      (Decidable (∀ pos ∈ s.consumer.reading, s.consumer = .testTerm pos → s.haveTerm = true))
  | .produceCall .. | .consumeCall | .setTerm _ => inferInstanceAs (Decidable True)

def Ring.accept (s : Ring) (k : ℕ) (r : LogCall) : Ring :=
  (((s.setTail (s.tail + 1)).setEntry s.tail r.entry).setSequence s.tail
    (s.tail + 1)).setProducer k (.returned r (some s.tail) true)

def Ring.drop (s : Ring) (k : ℕ) (r : LogCall) : Ring :=
  { s.setTail (s.tail + 1) with droppedCount := s.droppedCount + 1 }.setProducer k
    (.returned r (some s.tail) false)

lemma guard_run_produce {k : ℕ} {q : Producer} (hq : s.producers k = some q)
    (hcheck : ∀ pos ∈ q.checking, pos ≤ s.sequence (slotOf pos))
    (hstep : klogProduceStep s k q = some t) (rest : List Event) :
    (system.guard Unhindered).run s (.produce k :: rest) =
      (system.guard Unhindered).run t rest := by
  refine (system.guard Unhindered).run_cons_of_step (a := .produce k) (System.guard_step ?_ ?_) rest
  · intro q' hq'
    exact Option.some.inj (hq.symm.trans hq') ▸ hcheck
  · simp [system, step, hq, hstep]

lemma guard_run_write (s : Ring) (k pos : ℕ) (r : LogCall) :
    (system.guard Unhindered).run (s.setProducer k (.writeTimestamp r pos))
        (List.replicate 5 (.produce k)) =
      some (((s.setEntry pos r.entry).setSequence pos (pos + 1)).setProducer k
        (.returned r (some pos) true)) := by
  let e := s.entries (slotOf pos)
  let w (e : Entry) (q : Producer) : Ring := (s.setEntry pos e).setProducer k q
  refine (guard_run_produce (q := .writeTimestamp r pos)
    (t := w { e with timestampMs := r.timestamp } (.writeCpu r pos)) (by simp)
    (by simp [Producer.checking]) (by simp [klogProduceStep, w, e]) _).trans ?_
  refine (guard_run_produce (q := .writeCpu r pos)
    (t := w { e with timestampMs := r.timestamp, cpuId := r.cpu } (.writeModule r pos))
    (by simp [w]) (by simp [Producer.checking]) (by simp [klogProduceStep, w]) _).trans ?_
  refine (guard_run_produce (q := .writeModule r pos)
    (t := w { r.entry with message := e.message } (.writeMessage r pos))
    (by simp [w]) (by simp [Producer.checking])
    (by simp [klogProduceStep, w, LogCall.entry]) _).trans ?_
  refine (guard_run_produce (q := .writeMessage r pos) (t := w r.entry (.publish r pos))
    (by simp [w]) (by simp [Producer.checking])
    (by simp [klogProduceStep, w, LogCall.entry]) _).trans ?_
  refine (guard_run_produce (q := .publish r pos)
    (t := ((s.setEntry pos r.entry).setSequence pos (pos + 1)).setProducer k
      (.returned r (some pos) true))
    (by simp [w]) (by simp [Producer.checking]) (by simp [klogProduceStep, w]) _).trans ?_
  rfl

lemma guard_run_accept {k : ℕ} {r : LogCall} (hinit : s.ringInitialized = true)
    (hk : s.producers k = none) (hseq : s.sequence (slotOf s.tail) = s.tail) :
    (system.guard Unhindered).run s (produceRun k r) = some (s.accept k r) := by
  have hcall : (system.guard Unhindered).step s (.produceCall k r) =
      some (s.setProducer k (.testInitialized r)) :=
    System.guard_step trivial (by simp [system, step, hk])
  let u := s.setTail (s.tail + 1)
  refine ((system.guard Unhindered).run_cons_of_step hcall _).trans ?_
  refine (guard_run_produce (q := .testInitialized r) (t := s.setProducer k (.reserve r))
    (by simp) (by simp [Producer.checking]) (by simp [klogProduceStep, hinit]) _).trans ?_
  refine (guard_run_produce (q := .reserve r) (t := u.setProducer k (.loadSequence r s.tail 0))
    (by simp) (by simp [Producer.checking]) (by simp [klogProduceStep, u]) _).trans ?_
  refine (guard_run_produce (q := .loadSequence r s.tail 0)
    (t := u.setProducer k (.writeTimestamp r s.tail)) (by simp)
    (by simp [Producer.checking, u, hseq])
    (by simp [klogProduceStep, u, hseq, spinLimit]) _).trans ?_
  exact guard_run_write u k s.tail r

lemma run_drop {k : ℕ} {r : LogCall} (hinit : s.ringInitialized = true)
    (hk : s.producers k = none) (hseq : s.sequence (slotOf s.tail) < s.tail) :
    system.run s (.produceCall k r :: List.replicate 4 (.produce k)) = some (s.drop k r) := by
  have hproduce {s t : Ring} {q : Producer} (hq : s.producers k = some q)
      (hstep : klogProduceStep s k q = some t) (rest : List Event) :
      system.run s (.produce k :: rest) = system.run t rest :=
    system.run_cons_of_step (a := .produce k) (by simp [system, step, hq, hstep]) rest
  let u := s.setTail (s.tail + 1)
  refine (system.run_cons_of_step (t := s.setProducer k (.testInitialized r))
    (by simp [system, step, hk]) _).trans ?_
  refine (hproduce (q := .testInitialized r) (t := s.setProducer k (.reserve r)) (by simp)
    (by simp [klogProduceStep, hinit]) _).trans ?_
  refine (hproduce (q := .reserve r) (t := u.setProducer k (.loadSequence r s.tail 0)) (by simp)
    (by simp [klogProduceStep, u]) _).trans ?_
  refine (hproduce (q := .loadSequence r s.tail 0) (t := u.setProducer k (.countDrop r s.tail))
    (by simp) (by simp [klogProduceStep, u, hseq, hseq.ne, spinLimit]) _).trans ?_
  refine (hproduce (q := .countDrop r s.tail) (t := s.drop k r) (by simp) ?_ _).trans rfl
  simp [klogProduceStep, Ring.drop, Ring.setProducer, Ring.setTail, u]

end Cottage.Klog
