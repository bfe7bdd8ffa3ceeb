import Cottage.Net.SocketQueue

/-!
# The receive queue as a queue

As long as reading the slot at the head and advancing the head are not
interleaved with another reader, the ring holds the datagrams accepted and not
yet taken, in order; every unit of the semaphore stands for one of them, and so
does every thread that was admitted and has not advanced the head.
-/

namespace Cottage.SocketQueue

open IndexRing Net Scheduler Sem Transition Function

/-- The thread was admitted by the semaphore and has not advanced the head. -/
def Receiver.Admitted : Receiver → Prop
  | .read _ => True
  | .advance _ _ => True
  | _ => False

def Receiver.Blocked : Receiver → Prop
  | .blocked _ => True
  | _ => False

/-- What the threads are doing: `admitted` and `waiters` list those admitted and
blocked, `taken` counts the datagrams taken.  At most one thread is about to
advance the head, and no two finish with the same datagram. -/
structure Threads (receivers : Tid → Receiver) (admitted waiters : List Tid) (taken : ℕ)
    (freed : List ℕ) : Prop where
  admitted_iff : ∀ t, t ∈ admitted ↔ (receivers t).Admitted
  waiters_iff : ∀ t, t ∈ waiters ↔ (receivers t).Blocked
  advance : ∀ t call k, receivers t = .advance call k →
    k = taken ∧ ∀ t' call' k', receivers t' = .advance call' k' → t' = t
  finish : ∀ t call k, receivers t = .finish call k →
    k < taken ∧ k ∉ freed ∧ ∀ t' call', receivers t' = .finish call' k → t' = t

namespace Threads

variable {receivers : Tid → Receiver} {admitted waiters : List Tid} {taken : ℕ} {freed : List ℕ}
  {t : Tid} {call : Call} {k : ℕ}

section

variable (h : Threads receivers admitted waiters taken freed)

include h

lemma call_begins (ht : receivers t = .idle) (call : Call) :
    Threads (update receivers t (.wait call)) admitted waiters taken freed := by
  constructor <;> grind [update_apply, Threads, Receiver.Admitted, Receiver.Blocked]

lemma acquires (ht : receivers t = .wait call) :
    Threads (update receivers t (.read call)) (t :: admitted) waiters taken freed := by
  constructor <;> grind [update_apply, Threads, Receiver.Admitted, Receiver.Blocked]

lemma blocks (ht : receivers t = .wait call) :
    Threads (update receivers t (.blocked call)) admitted (waiters ++ [t]) taken
      freed := by
  constructor <;> grind [update_apply, Threads, Receiver.Admitted, Receiver.Blocked]

end

lemma wakes (h : Threads receivers admitted (t :: waiters) taken freed)
    (ht : receivers t = .blocked call) (hnodup : t ∉ waiters) :
    Threads (update receivers t (.read call)) (t :: admitted) waiters taken freed := by
  constructor <;> grind [update_apply, Threads, Receiver.Admitted, Receiver.Blocked]

variable (h : Threads receivers admitted waiters taken freed)

include h

lemma reads (ht : receivers t = .read call) (hfree : ∀ t call k, receivers t ≠ .advance call k) :
    Threads (update receivers t (.advance call taken)) admitted waiters taken freed := by
  constructor <;> grind [update_apply, Threads, Receiver.Admitted, Receiver.Blocked]

lemma advances (hnodup : admitted.Nodup) (ht : receivers t = .advance call k)
    (hfreed : ∀ k ∈ freed, k < taken) :
    Threads (update receivers t (.finish call k)) (admitted.erase t) waiters (taken + 1)
      freed := by
  constructor <;> grind [update_apply, Threads, Receiver.Admitted, Receiver.Blocked,
    List.Nodup.mem_erase_iff]

lemma finishes (ht : receivers t = .finish call k) :
    Threads (update receivers t .idle) admitted waiters taken (freed ++ [k]) := by
  constructor <;> grind [update_apply, Threads, Receiver.Admitted, Receiver.Blocked]

end Threads

def Network.unsignalled : Network → ℕ
  | .signal => 1
  | _ => 0

def Network.unqueued : Network → ℕ
  | .store _ => 1
  | .extend => 1
  | _ => 0

/-- The buffer on its way into the queue is the newest one, and there is room
for it. -/
def NetworkOk (network : Network) (recvQueue : Ring (Option ℕ) recvQueueSize) (made : ℕ) : Prop :=
  match network with
  | .store k => k + 1 = made ∧ recvQueue.size + 1 < recvQueueSize
  | .extend =>
    (∃ k, recvQueue.slot recvQueue.tail = some k ∧ k + 1 = made) ∧
      recvQueue.size + 1 < recvQueueSize
  | _ => True

structure Inv (s : State) (admitted : List Tid) : Prop where
  threads : Threads s.receivers admitted s.sem.waiters.toList s.taken.length s.freed
  admitted_nodup : admitted.Nodup
  waiters_nodup : s.sem.waiters.toList.Nodup
  count_nonneg : 0 ≤ s.sem.count
  isEmpty_of_pos : 0 < s.sem.count → s.sem.waiters.IsEmpty
  balance : s.sem.count.toInt + admitted.length + s.network.unsignalled = s.recvQueue.size
  queue : s.recvQueue.toList = (List.range' s.taken.length s.recvQueue.size).map some
  total : s.taken.length + s.recvQueue.size + s.network.unqueued = s.datagrams.length
  network : NetworkOk s.network s.recvQueue s.datagrams.length
  taken : s.taken = List.range s.taken.length
  freed_lt : ∀ k ∈ s.freed, k < s.taken.length
  freed_nodup : s.freed.Nodup
  returned : s.returned.map (·.datagram) = s.freed
  received : ∀ r ∈ s.returned, ∃ d, s.datagrams[r.datagram]? = some d ∧
    r = SocketQueue.received r.call r.datagram d
  failures : s.failures = 0

variable {s s' : State} {admitted : List Tid} {t : Tid}

lemma inv_of_initial (h : Initial s) : Inv s [] := by
  obtain ⟨hqueue, ⟨slots, hsem⟩, hnetwork, hidle, hdatagrams, htaken, hfreed, hreturned,
    hfailures⟩ := h
  have hwaiters : s.sem.waiters.toList = [] := by
    rw [hsem]
    exact Ring.toList_empty _ _
  have hsize : s.recvQueue.size = 0 := by
    rw [hqueue]
    rfl
  constructor
  case threads =>
    rw [hwaiters]
    constructor <;> simp [hidle, Receiver.Admitted, Receiver.Blocked]
  case admitted_nodup => exact List.nodup_nil
  case waiters_nodup =>
    rw [hwaiters]
    exact List.nodup_nil
  case count_nonneg =>
    rw [hsem]
    exact Int64.le_refl 0
  case isEmpty_of_pos =>
    rw [hsem]
    exact fun _ => rfl
  case balance =>
    rw [hsem, hnetwork, hsize]
    rfl
  case queue =>
    rw [hsize, hqueue, Ring.toList_empty]
    rfl
  case total => simp [htaken, hsize, hnetwork, hdatagrams, Network.unqueued]
  case network =>
    rw [hnetwork]
    trivial
  case taken => simp [htaken]
  case freed_lt => simp [hfreed]
  case freed_nodup => simp [hfreed]
  case returned => simp [hreturned, hfreed]
  case received => simp [hreturned]
  case failures => exact hfailures

variable {datagram : Datagram} {k : ℕ} {call : Call}

section

variable (h : Inv s admitted)

include h

lemma Inv.drops (hnetwork : s.network = .check datagram) :
    Inv { s with network := .idle } admitted := by
  have hbalance := h.balance
  have htotal := h.total
  rw [hnetwork] at hbalance htotal
  exact { h with balance := hbalance, total := htotal, network := trivial }

lemma Inv.makes (hnetwork : s.network = .check datagram) (hroom : ¬ s.recvQueue.IsFull) :
    Inv { s with
      datagrams := s.datagrams ++ [datagram]
      network := .store s.datagrams.length } admitted := by
  have hbalance := h.balance
  have htotal := h.total
  have hsize := s.recvQueue.size_lt
  rw [hnetwork] at hbalance htotal
  rw [Ring.isFull_iff] at hroom
  refine { h with balance := hbalance, total := ?_, network := ⟨?_, ?_⟩, received := ?_ }
  · simp only [Network.unqueued, List.length_append, List.length_singleton] at htotal ⊢
    omega
  · rw [List.length_append, List.length_singleton]
  · dsimp only
    omega
  · intro r hr
    obtain ⟨d, hd, heq⟩ := h.received r hr
    exact ⟨d, (List.getElem?_append_left (List.getElem?_eq_some_iff.mp hd).1).trans hd, heq⟩

lemma Inv.stores (hnetwork : s.network = .store k) :
    Inv { s with recvQueue := s.recvQueue.store (some k), network := .extend } admitted := by
  have hbalance := h.balance
  have htotal := h.total
  have hok := h.network
  rw [hnetwork] at hbalance htotal hok
  refine { h with
    balance := hbalance, total := htotal, queue := ?_, network := ⟨⟨k, ?_, hok.1⟩, ?_⟩ }
  · exact (Ring.toList_store _).trans h.queue
  · exact update_self _ _ _
  · exact hok.2

lemma Inv.extends (hnetwork : s.network = .extend) :
    Inv { s with recvQueue := s.recvQueue.extend, network := .signal } admitted := by
  have hbalance := h.balance
  have htotal := h.total
  have hok := h.network
  rw [hnetwork] at hbalance htotal hok
  obtain ⟨⟨k, hslot, hk⟩, hroom⟩ := hok
  have hfull : ¬ s.recvQueue.IsFull := by
    rw [Ring.isFull_iff]
    omega
  have hsize : s.recvQueue.extend.size = s.recvQueue.size + 1 :=
    Ring.size_push (s.recvQueue.slot s.recvQueue.tail) hfull
  simp only [Network.unsignalled, Network.unqueued] at hbalance htotal
  refine { h with balance := ?_, queue := ?_, total := ?_, network := trivial }
  · simp only [Network.unsignalled, hsize]
    omega
  · have hlast : k = s.taken.length + s.recvQueue.size := by omega
    rw [Ring.toList_extend hfull, h.queue, hsize, hslot, List.range'_concat, List.map_append,
      List.map_singleton, hlast, Nat.one_mul]
  · simp only [Network.unqueued, hsize]
    omega

lemma Inv.count_lt : s.sem.count < Int64.maxValue := by
  have hbalance := h.balance
  have hsize := s.recvQueue.size_lt
  have hmax : recvQueueSize = 32 := rfl
  apply Int64.lt_iff_toInt_lt.mpr
  rw [Int64.toInt_maxValue]
  omega

lemma Inv.signals (hnetwork : s.network = .signal) (hstep : networkStep s = some s') :
    ∃ admitted', Inv s' admitted' := by
  have hbalance := h.balance
  have htotal := h.total
  rw [hnetwork] at hbalance htotal
  simp only [Network.unsignalled, Network.unqueued] at hbalance htotal
  simp only [networkStep, hnetwork, semSignal] at hstep
  by_cases hempty : s.sem.waiters.IsEmpty
  · simp only [hempty, if_true] at hstep
    cases hstep
    have hadd := toInt_add_one h.count_lt
    have hnonneg := nonneg_iff.mp h.count_nonneg
    refine ⟨admitted, { h with
      count_nonneg := ?_, isEmpty_of_pos := fun _ => hempty, balance := ?_, total := htotal,
      network := trivial }⟩
    · exact nonneg_iff.mpr (by dsimp only; omega)
    · simp only [Network.unsignalled, hadd]
      omega
  · simp only [hempty, if_false, Option.some.injEq] at hstep
    have hpop := Ring.toList_pop hempty
    have hthreads := h.threads
    have hnodup := h.waiters_nodup
    rw [hpop] at hthreads hnodup
    obtain ⟨hfront, hnodup⟩ := List.nodup_cons.mp hnodup
    have hblocked := (hthreads.waiters_iff s.sem.waiters.front).mp (.head _)
    have hcount : ¬ 0 < s.sem.count := fun hpos => hempty (h.isEmpty_of_pos hpos)
    cases hreceiver : s.receivers s.sem.waiters.front with
    | blocked call =>
      simp only [wake, hreceiver] at hstep
      subst hstep
      refine ⟨s.sem.waiters.front :: admitted, { h with
        threads := hthreads.wakes hreceiver hfront, admitted_nodup := ?_, waiters_nodup := hnodup,
        isEmpty_of_pos := fun hpos => absurd hpos hcount, balance := ?_, total := htotal,
        network := trivial }⟩
      · refine List.nodup_cons.mpr ⟨fun hmem => ?_, h.admitted_nodup⟩
        rwa [hthreads.admitted_iff, hreceiver] at hmem
      · simp only [Network.unsignalled, State.setReceiver, List.length_cons]
        omega
    | _ => simp [hreceiver, Receiver.Blocked] at hblocked

lemma Inv.networkStep (hstep : networkStep s = some s') : ∃ admitted', Inv s' admitted' := by
  cases hnetwork : s.network with
  | idle =>
    rw [SocketQueue.networkStep, hnetwork] at hstep
    cases hstep
  | check datagram =>
    simp only [SocketQueue.networkStep, hnetwork] at hstep
    split_ifs at hstep with hfull <;> cases hstep
    · exact ⟨admitted, h.drops hnetwork⟩
    · exact ⟨admitted, h.makes hnetwork hfull⟩
  | store k =>
    simp only [SocketQueue.networkStep, hnetwork] at hstep
    cases hstep
    exact ⟨admitted, h.stores hnetwork⟩
  | extend =>
    simp only [SocketQueue.networkStep, hnetwork] at hstep
    cases hstep
    exact ⟨admitted, h.extends hnetwork⟩
  | signal => exact h.signals hnetwork hstep

/-! ## The receivers -/

lemma Inv.acquires (ht : s.receivers t = .wait call) (hpos : 0 < s.sem.count) :
    Inv ({ s with sem := { s.sem with count := s.sem.count - 1 } }.setReceiver t (.read call))
      (t :: admitted) := by
  have hbalance := h.balance
  have hsub := toInt_sub_one hpos
  have hpos' := pos_iff.mp hpos
  refine { h with
    threads := h.threads.acquires ht, admitted_nodup := ?_, count_nonneg := ?_,
    isEmpty_of_pos := fun _ => h.isEmpty_of_pos hpos, balance := ?_ }
  · refine List.nodup_cons.mpr ⟨fun hmem => ?_, h.admitted_nodup⟩
    rwa [h.threads.admitted_iff, ht] at hmem
  · exact nonneg_iff.mpr (by dsimp only [State.setReceiver]; omega)
  · simp only [State.setReceiver, List.length_cons, hsub]
    omega

lemma Inv.blocks (ht : s.receivers t = .wait call) (hpos : ¬ 0 < s.sem.count)
    (hroom : ¬ s.sem.waiters.IsFull) :
    Inv ({ s with sem := { s.sem with waiters := s.sem.waiters.push t } }.setReceiver t
      (.blocked call)) admitted := by
  have hpush := Ring.toList_push t hroom
  refine { h with
    threads := ?_, waiters_nodup := ?_, isEmpty_of_pos := fun hpos' => absurd hpos' hpos }
  · dsimp only [State.setReceiver]
    rw [hpush]
    exact h.threads.blocks ht
  · dsimp only [State.setReceiver]
    rw [hpush, List.nodup_append]
    refine ⟨h.waiters_nodup, List.pairwise_singleton _ t, ?_⟩
    rintro u hu _ hmem rfl
    rw [List.mem_singleton] at hmem
    rwa [h.threads.waiters_iff, hmem, ht] at hu

lemma Inv.front_eq (ht : (s.receivers t).Admitted) :
    ¬ s.recvQueue.IsEmpty ∧ s.recvQueue.front = some s.taken.length := by
  have hmem := (h.threads.admitted_iff t).mpr ht
  have hlength := List.length_pos_of_mem hmem
  have hbalance := h.balance
  have hnonneg := nonneg_iff.mp h.count_nonneg
  have hempty : ¬ s.recvQueue.IsEmpty := by
    rw [← Ring.size_eq_zero_iff]
    omega
  have hqueue := h.queue
  obtain ⟨size, hsize'⟩ : ∃ size, s.recvQueue.size = size + 1 := ⟨s.recvQueue.size - 1, by omega⟩
  rw [Ring.toList_pop hempty, hsize', List.range'_succ, List.map_cons] at hqueue
  exact ⟨hempty, (List.cons.inj hqueue).1⟩

lemma Inv.advances (ht : s.receivers t = .advance call k) :
    Inv ({ s with recvQueue := s.recvQueue.pop, taken := s.taken ++ [k] }.setReceiver t
      (.finish call k)) (admitted.erase t) := by
  have hadmitted : (s.receivers t).Admitted := by
    rw [ht]
    trivial
  obtain ⟨hempty, hfront⟩ := h.front_eq hadmitted
  have hsize := Ring.size_pop hempty
  have hmem := (h.threads.admitted_iff t).mpr hadmitted
  have hlength := List.length_erase_of_mem hmem
  have hpos := List.length_pos_of_mem hmem
  have hbalance := h.balance
  have htotal := h.total
  have htaken : (s.taken ++ [k]).length = s.taken.length + 1 := List.length_append
  obtain ⟨rfl, _⟩ := h.threads.advance t call k ht
  refine { h with
    threads := ?_, admitted_nodup := h.admitted_nodup.erase t, balance := ?_, queue := ?_,
    total := ?_, network := ?_, taken := ?_, freed_lt := ?_ }
  · dsimp only [State.setReceiver]
    rw [htaken]
    exact h.threads.advances h.admitted_nodup ht h.freed_lt
  · dsimp only [State.setReceiver]
    omega
  · have hqueue := h.queue
    rw [Ring.toList_pop hempty, hsize, List.range'_succ, List.map_cons] at hqueue
    dsimp only [State.setReceiver]
    rw [htaken]
    exact (List.cons.inj hqueue).2
  · dsimp only [State.setReceiver]
    omega
  · have hok := h.network
    dsimp only [State.setReceiver]
    cases hnetwork : s.network <;> rw [hnetwork] at hok
    case store k => exact ⟨hok.1, by have := hok.2; omega⟩
    case extend => exact ⟨hok.1, by have := hok.2; omega⟩
    all_goals trivial
  · dsimp only [State.setReceiver]
    rw [htaken, List.range_succ, ← h.taken]
  · intro j hj
    dsimp only [State.setReceiver]
    rw [htaken]
    exact Nat.lt_succ_of_lt (h.freed_lt j hj)

lemma Inv.finishes (ht : s.receivers t = .finish call k)
    (hdatagram : s.datagrams[k]? = some datagram) :
    Inv ({ s with
      returned := s.returned ++ [SocketQueue.received call k datagram]
      freed := s.freed ++ [k] }.setReceiver t .idle) admitted := by
  obtain ⟨hlt, hfreed, _⟩ := h.threads.finish t call k ht
  refine { h with
    threads := h.threads.finishes ht, freed_lt := ?_, freed_nodup := ?_, returned := ?_,
    received := ?_ }
  · intro j hj
    rcases List.mem_append.mp hj with hj | hj
    · exact h.freed_lt j hj
    · exact List.mem_singleton.mp hj ▸ hlt
  · refine List.nodup_append.mpr ⟨h.freed_nodup, List.pairwise_singleton _ k, ?_⟩
    rintro j hj _ hmem rfl
    exact hfreed (List.mem_singleton.mp hmem ▸ hj)
  · dsimp only [State.setReceiver]
    rw [List.map_append, h.returned]
    rfl
  · intro r hr
    rcases List.mem_append.mp hr with hr | hr
    · exact h.received r hr
    · obtain rfl := List.mem_singleton.mp hr
      exact ⟨datagram, hdatagram, rfl⟩

lemma Inv.receiverStep (hok : Exclusive s (.receiver t)) (hstep : receiverStep s t = some s') :
    ∃ admitted', Inv s' admitted' := by
  cases hreceiver : s.receivers t with
  | idle =>
    rw [SocketQueue.receiverStep, hreceiver] at hstep
    cases hstep
  | wait call =>
    simp only [SocketQueue.receiverStep, hreceiver, semWait] at hstep
    by_cases hpos : 0 < s.sem.count
    · simp only [hpos, if_true, Option.some.injEq] at hstep
      exact ⟨_, hstep ▸ h.acquires hreceiver hpos⟩
    · by_cases hfull : s.sem.waiters.IsFull
      · simp [hpos, hfull] at hstep
      · simp only [hpos, hfull, if_false, Option.some.injEq] at hstep
        exact ⟨_, hstep ▸ h.blocks hreceiver hpos hfull⟩
  | blocked call =>
    rw [SocketQueue.receiverStep, hreceiver] at hstep
    cases hstep
  | read call =>
    have hadmitted : (s.receivers t).Admitted := by
      rw [hreceiver]
      trivial
    obtain ⟨_, hfront⟩ := h.front_eq hadmitted
    simp only [SocketQueue.receiverStep, hreceiver, hfront] at hstep
    cases hstep
    exact ⟨admitted, { h with threads := h.threads.reads hreceiver (hok call hreceiver) }⟩
  | advance call k =>
    simp only [SocketQueue.receiverStep, hreceiver, Option.some.injEq] at hstep
    exact ⟨_, hstep ▸ h.advances hreceiver⟩
  | finish call k =>
    simp only [SocketQueue.receiverStep, hreceiver] at hstep
    obtain ⟨datagram, hdatagram, rfl⟩ := Option.map_eq_some_iff.mp hstep
    exact ⟨admitted, h.finishes hreceiver hdatagram⟩

lemma Inv.step {a : Event} (hok : Exclusive s a) (hstep : step s a = some s') :
    ∃ admitted', Inv s' admitted' := by
  cases a with
  | deliver datagram =>
    simp only [SocketQueue.step] at hstep
    split_ifs at hstep with hidle
    cases hstep
    have hbalance := h.balance
    have htotal := h.total
    rw [hidle.1] at hbalance htotal
    exact ⟨admitted, { h with balance := hbalance, total := htotal, network := trivial }⟩
  | network => exact h.networkStep hstep
  | recvfrom t call =>
    simp only [SocketQueue.step] at hstep
    split_ifs at hstep with hidle
    cases hstep
    exact ⟨admitted, { h with threads := h.threads.call_begins hidle call }⟩
  | receiver t => exact h.receiverStep hok hstep

end

lemma inv_of_exclusive (hs : system.ReachableVia Exclusive s) : ∃ admitted, Inv s admitted :=
  hs.invariant (I := fun s => ∃ admitted, Inv s admitted) (fun _ h => ⟨[], inv_of_initial h⟩)
    fun _ _ _ ⟨_, h⟩ => h.step

end Cottage.SocketQueue
