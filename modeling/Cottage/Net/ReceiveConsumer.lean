import Cottage.Net.ReceiveProducer

/-!
# The consumer of the receive ring

Every step of `knetwork_thread` keeps the invariant of the ring, and with the
steps of the producer this gives the law of the ring for all interleavings.
The consumer advances `head` before the handler has seen the packet, but the
producer leaves one slot free, so the slot just given up is the last one it
could get to.
-/

namespace Cottage.ReceiveRing

open Scheduler Sem Transition

section

variable {netThread : Tid} {s : State}

section

variable (h : Inv netThread s)

include h

lemma Inv.consume {consumer' : Consumer} (hgranted : consumer'.granted = s.consumer.granted)
    (hundispatched : consumer'.undispatched = s.consumer.undispatched)
    (hblocked : s.consumer ≠ .blocked) (hblocked' : consumer' ≠ .blocked)
    (hprogress : consumer'.Progress s.accepted s.taken) :
    Inv netThread { s with consumer := consumer' } :=
  { h with
    handled_eq := by
      rw [hundispatched]
      exact h.handled_eq
    count_eq := by
      rw [hgranted]
      exact h.count_eq
    waiters_eq := (h.waiters_eq.trans (if_neg hblocked)).trans (if_neg hblocked').symm
    count_of_blocked := fun h' => absurd h' hblocked'
    consumer_ok := hprogress }

lemma Inv.acquired (hpc : s.consumer = .wait) (hpos : 0 < s.packetReady.count) :
    Inv netThread { s with
      packetReady := { s.packetReady with count := s.packetReady.count - 1 }
      consumer := .loadHead } := by
  have hcount := h.count_eq
  have hsub := toInt_sub_one hpos
  have hpos' := pos_iff.mp hpos
  rw [hpc] at hcount
  simp only [Consumer.granted] at hcount
  refine { h with
    handled_eq := ?_
    count_nonneg := nonneg_iff.mpr (by dsimp only; omega)
    count_eq := ?_
    waiters_eq := ?_
    count_of_blocked := fun h' => by cases h'
    consumer_ok := trivial }
  · simpa only [hpc, Consumer.undispatched] using h.handled_eq
  · simp only [Consumer.granted, hsub]
    omega
  · simpa only [hpc, reduceCtorEq, if_false] using h.waiters_eq

lemma Inv.blocked (hpc : s.consumer = .wait) (hpos : ¬ 0 < s.packetReady.count)
    (hfull : ¬ s.packetReady.waiters.IsFull) :
    Inv netThread { s with
      packetReady := { s.packetReady with waiters := s.packetReady.waiters.push netThread }
      consumer := .blocked } := by
  have hwaiters := h.waiters_eq
  have hcount := h.count_eq
  simp only [hpc, reduceCtorEq, if_false, Consumer.granted] at hwaiters hcount
  refine { h with
    handled_eq := ?_
    count_eq := hcount
    waiters_eq := ?_
    count_of_blocked := fun _ => ?_
    consumer_ok := trivial }
  · simpa only [hpc, Consumer.undispatched] using h.handled_eq
  · rw [if_pos rfl, IndexRing.Ring.toList_push netThread hfull, hwaiters, List.nil_append]
  · exact Int64.le_antisymm (Int64.not_lt.mp hpos) h.count_nonneg

lemma Inv.readLength {head : ℕ} (hpc : s.consumer = .readLength head) :
    Inv netThread { s with consumer := .storeHead head (s.packetMeta head).length } := by
  have hlt := (h.not_empty (by rw [hpc]; rfl)).1
  have hget : s.accepted[s.taken]? = some s.accepted[s.taken] := List.getElem?_eq_getElem hlt
  have hok := h.consumer_ok
  rw [hpc] at hok
  obtain rfl : head = s.taken % slotCount := hok
  have hstored := h.stored s.taken _ hget (Nat.le_succ _)
  apply h.consume
  · rw [hpc]
    rfl
  · rw [hpc]
    rfl
  · simp [hpc]
  · simp
  · exact ⟨rfl, _, hget, hstored.length_eq⟩

lemma Inv.storeHead {head len : ℕ} (hpc : s.consumer = .storeHead head len) :
    Inv netThread { s with
      head := (head + 1) % slotCount
      consumer := .dispatch head len
      taken := s.taken + 1 } := by
  have hok := h.consumer_ok
  have hroom := h.room
  have hcount := h.count_eq
  have hhandled := h.handled_eq
  rw [hpc] at hok hcount hhandled
  simp only [Consumer.granted, Consumer.undispatched] at hcount hhandled
  have hslot : Slot s.accepted s.taken head len := hok
  refine { h with
    head_eq := ?_
    stored := fun p packet hp htaken => h.stored p packet hp (by dsimp only at htaken; omega)
    room := by dsimp only; omega
    handled_eq := hhandled
    count_eq := ?_
    waiters_eq := ?_
    count_of_blocked := fun h' => by cases h'
    consumer_ok := ⟨Nat.succ_pos _, hslot⟩ }
  · rw [hslot.1, Nat.mod_add_mod]
  · simp only [Consumer.granted, Nat.cast_add, Nat.cast_one]
    omega
  · simpa only [hpc, reduceCtorEq, if_false] using h.waiters_eq

end

lemma take_of_getElem? {packets : List (List UInt8)} {n : ℕ} {packet : List UInt8} (hn : 0 < n)
    (hget : packets[n - 1]? = some packet) :
    packets.take n = packets.take (n - 1) ++ [packet] := by
  have hsucc : n = n - 1 + 1 := by omega
  rw [hsucc, List.take_add_one, Nat.add_sub_cancel, hget]
  rfl

lemma Inv.dispatch (h : Inv netThread s) {head len : ℕ} (hpc : s.consumer = .dispatch head len) :
    Inv netThread { s with
      consumer := .handle head len
      handled := s.handled ++ [s.slot head len] } := by
  have hok := h.consumer_ok
  have hcount := h.count_eq
  have hhandled := h.handled_eq
  rw [hpc] at hok hcount hhandled
  obtain ⟨hpos, rfl, packet, hget, hlen⟩ := hok
  have hstored := h.stored _ packet hget (by omega)
  refine { h with
    handled_eq := ?_
    count_eq := hcount
    waiters_eq := ?_
    count_of_blocked := fun h' => by cases h'
    consumer_ok := ⟨hpos, rfl, packet, hget, hlen⟩ }
  · rw [hhandled, hstored.slot_eq hlen]
    exact (take_of_getElem? hpos hget).symm
  · simpa only [hpc, reduceCtorEq, if_false] using h.waiters_eq

lemma Inv.consumerStep {s' : State} (h : Inv netThread s)
    (hstep : consumerStep netThread s = some s') : Inv netThread s' := by
  have hok := h.consumer_ok
  rw [ReceiveRing.consumerStep] at hstep
  cases hpc : s.consumer <;> simp only [hpc, Option.some.injEq, reduceCtorEq] at hstep hok
  case wait =>
    simp only [semWait] at hstep
    by_cases hpos : 0 < s.packetReady.count
    · simp only [if_pos hpos] at hstep
      cases hstep
      exact h.acquired hpc hpos
    · by_cases hfull : s.packetReady.waiters.IsFull
      · simp only [if_neg hpos, if_pos hfull, reduceCtorEq] at hstep
      · simp only [if_neg hpos, if_neg hfull] at hstep
        cases hstep
        exact h.blocked hpc hpos hfull
  case loadHead =>
    subst hstep
    apply h.consume <;> simp [hpc, Consumer.granted, Consumer.undispatched, Consumer.Progress,
      h.head_eq]
  case loadTail head =>
    obtain rfl : head = s.taken % slotCount := hok
    have hne := (h.not_empty (by rw [hpc]; rfl)).2
    simp only [if_neg hne] at hstep
    cases hstep
    apply h.consume <;> simp [hpc, Consumer.granted, Consumer.undispatched, Consumer.Progress]
  case readLength head =>
    subst hstep
    exact h.readLength hpc
  case storeHead head len =>
    subst hstep
    exact h.storeHead hpc
  case dispatch head len =>
    subst hstep
    exact h.dispatch hpc
  case handle head len =>
    subst hstep
    apply h.consume <;> simp [hpc, Consumer.granted, Consumer.undispatched, Consumer.Progress]
  case empty =>
    exact absurd hok not_false

end

/-! ## No packet is lost -/

/-- The packets that were accepted or are in the hands of the producer. -/
def State.kept (s : State) : List (List UInt8) :=
  s.accepted ++ s.producer.packet.toList

def Event.arrivals : Event → List (List UInt8)
  | .arrive packet => [packet]
  | .producer | .consumer => []

section

variable {netThread : Tid} {s s' : State}

lemma Inv.kept_producerStep (h : Inv netThread s)
    (hstep : ReceiveRing.producerStep netThread s = some s') :
    s'.kept = s.kept ∨ s'.kept = s.accepted ∧ s.accepted.length = s.taken + 63 := by
  have hok := h.producer_ok
  rw [ReceiveRing.producerStep] at hstep
  cases hpc : s.producer <;> simp only [hpc, Option.some.injEq, reduceCtorEq] at hstep hok
  case loadHead packet tail =>
    obtain rfl : tail = s.tail := hok
    split_ifs at hstep with hnext
    · cases hstep
      exact .inl (by simp [State.kept, hpc, Producer.packet])
    · cases hstep
      refine .inr ⟨List.append_nil _, h.full_iff.mp (not_not.mp hnext)⟩
  case copy packet tail k =>
    split_ifs at hstep <;> cases hstep <;> exact .inl (by simp [State.kept, hpc, Producer.packet])
  case signal =>
    left
    split at hstep <;> cases hstep <;> simp [State.kept, hpc, Producer.packet]
  all_goals
    subst hstep
    exact .inl (by simp [State.kept, hpc, Producer.packet])

lemma kept_consumerStep (hstep : ReceiveRing.consumerStep netThread s = some s') :
    s'.kept = s.kept := by
  rw [ReceiveRing.consumerStep] at hstep
  cases hpc : s.consumer <;> simp only [hpc, Option.some.injEq, reduceCtorEq] at hstep
  case wait => split at hstep <;> cases hstep <;> rfl
  case loadTail => split_ifs at hstep <;> cases hstep <;> rfl
  all_goals
    subst hstep
    rfl

lemma Inv.kept_step {e : Event} (h : Inv netThread s) (hstep : step netThread s e = some s') :
    s'.kept = s.kept ++ e.arrivals ∨ s'.kept = s.accepted ∧ s.accepted.length = s.taken + 63 := by
  cases e with
  | arrive packet =>
    simp only [step, Option.ite_none_right_eq_some, Option.some.injEq] at hstep
    obtain ⟨⟨hidle, _⟩, rfl⟩ := hstep
    exact .inl (by simp [State.kept, hidle, Producer.packet, Event.arrivals])
  | producer =>
    rw [Event.arrivals, List.append_nil]
    exact h.kept_producerStep hstep
  | consumer =>
    rw [Event.arrivals, List.append_nil]
    exact .inl (kept_consumerStep hstep)

end

/-- What holds in every state.  `kept` says that a packet is dropped only while
63 are waiting; `intact` is about the packet taken last, up to the moment the
next one is taken. -/
structure Law (netThread : Tid) (s : State) : Prop where
  accepted_in_order : s.accepted.Sublist s.arrived
  handled_in_order : s.handled <+: s.accepted
  taken_eq : s.taken = s.handled.length + s.consumer.undispatched
  kept : ∀ e s', step netThread s e = some s' → s'.kept = s.kept ++ e.arrivals ∨
    s'.kept = s.accepted ∧ s.accepted.length = s.taken + 63
  not_empty : s.consumer ≠ .empty ∧ ∀ head, s.consumer = .loadTail head → head ≠ s.tail
  intact : ∀ p packet, s.taken = p + 1 → s.accepted[p]? = some packet →
    s.slot (p % slotCount) packet.length = packet
  no_overwrite : ∀ p, s.taken = p + 1 → s.producer.target ≠ some (p % slotCount)
  handled_slot : ∀ head len, s.consumer = .handle head len →
    s.handled.getLast? = some (s.slot head len)
  awake : s.consumer = .blocked → s.producer ≠ .signal → s.accepted.length = s.taken

lemma Inv.target_eq {netThread : Tid} {s : State} (h : Inv netThread s) {tail : ℕ}
    (htarget : s.producer.target = some tail) : tail = s.tail := by
  have hok := h.producer_ok
  cases hpc : s.producer <;>
    simp only [hpc, Producer.target, Option.some.injEq, reduceCtorEq] at htarget <;>
    rw [hpc] at hok <;> exact htarget.symm.trans hok.1

lemma Inv.law {netThread : Tid} {s : State} (h : Inv netThread s) : Law netThread s where
  accepted_in_order := (List.sublist_append_left _ _).trans h.order
  handled_in_order := by
    rw [h.handled_eq]
    exact List.take_prefix _ _
  taken_eq := by
    have hle := h.taken_le
    have hok := h.consumer_ok
    have hundispatched : s.consumer.undispatched ≤ s.taken := by
      cases hpc : s.consumer with
      | dispatch head len =>
        rw [hpc] at hok
        exact hok.1
      | _ => exact Nat.zero_le _
    rw [h.handled_eq, List.length_take]
    omega
  kept := fun _ _ hstep => h.kept_step hstep
  not_empty := by
    have hok := h.consumer_ok
    refine ⟨?_, ?_⟩
    · intro hpc
      rwa [hpc] at hok
    · intro head hpc
      rw [hpc] at hok
      obtain rfl : head = s.taken % slotCount := hok
      exact (h.not_empty (by rw [hpc]; rfl)).2
  intact := by
    intro p packet htaken hget
    exact (h.stored p packet hget (by omega)).slot_eq rfl
  no_overwrite := by
    intro p htaken htarget
    have hle := h.taken_le
    have hlt : p < s.accepted.length := by omega
    exact h.slot_ne_tail (by rw [htarget]; rfl) hlt (by omega) (h.target_eq htarget)
  handled_slot := by
    intro head len hpc
    have hok := h.consumer_ok
    rw [hpc] at hok
    obtain ⟨hpos, rfl, packet, hget, hlen⟩ := hok
    have hslot := (h.stored _ packet hget (by omega)).slot_eq hlen
    rw [h.handled_eq, hpc, hslot]
    simp only [Consumer.undispatched, Nat.sub_zero]
    rw [take_of_getElem? hpos hget, List.getLast?_concat]
  awake := by
    intro hblocked hsignal
    have hcount := h.count_eq
    rw [h.count_of_blocked hblocked, hblocked] at hcount
    have hunsignalled : s.producer.unsignalled = 0 := by
      cases hpc : s.producer with
      | signal => exact absurd hpc hsignal
      | _ => rfl
    simp only [Consumer.granted, hunsignalled, Int64.toInt_zero] at hcount
    omega

lemma inv_of_initial (netThread : Tid) {s : State} (hs : Initial s) : Inv netThread s := by
  obtain ⟨hhead, htail, ⟨slots, hsem⟩, hproducer, hconsumer, harrived, haccepted, htaken,
    hhandled⟩ := hs
  refine ⟨?_, ?_, ?_, ?_, ?_, ?_, ?_, ?_, ?_, ?_, ?_, ?_, ?_⟩
  · rw [hhead, htaken]
    rfl
  · rw [htail, haccepted]
    rfl
  · rw [haccepted]
    exact fun p packet hp => absurd hp (by simp)
  · rw [haccepted, hproducer]
    exact fun packet hmem => absurd hmem (by simp [Producer.packet])
  · rw [haccepted, hproducer, htaken]
    decide
  · rw [haccepted, hproducer, harrived]
    exact List.Sublist.refl _
  · rw [hhandled, haccepted, htaken, hconsumer]
    rfl
  · rw [hsem]
    exact Int64.le_refl 0
  · rw [hsem, hconsumer, htaken, hproducer, haccepted]
    rfl
  · rw [hsem, hconsumer]
    exact IndexRing.Ring.toList_empty _ _
  · rw [hconsumer]
    exact fun h' => by cases h'
  · rw [hproducer]
    trivial
  · rw [hconsumer]
    trivial

/-- In every interleaving of the interrupt handler and the network thread, with
packets of at most 2048 bytes. -/
theorem receive_ring_law {netThread : Tid} {s : State} (h : (system netThread).Reachable s) :
    Law netThread s := by
  have hinv : Inv netThread s := by
    apply h.invariant
    · exact fun _ hs => inv_of_initial netThread hs
    · intro s e s' hinv hstep
      cases e with
      | arrive packet =>
        simp only [system, step] at hstep
        split_ifs at hstep with hidle
        cases hstep
        exact hinv.arrive hidle.1 hidle.2
      | producer => exact hinv.producerStep hstep
      | consumer => exact hinv.consumerStep hstep
  exact hinv.law

def initialRing : State where
  data := fun _ => 0
  packetMeta := fun _ => ⟨0, 0⟩
  head := 0
  tail := 0
  packetReady := semInit 0 fun _ => 0
  producer := .idle
  consumer := .wait
  arrived := []
  accepted := []
  taken := 0
  handled := []

theorem receive_ring_law_two_packets :
    ∃ s, (system 5).Reachable s ∧
      (s.handled = [[1, 2, 3]] ∧ s.accepted = [[1, 2, 3], [4]] ∧ s.consumer = .handle 0 3) ∧
      Law 5 s := by
  have hrun : ((system 5).run initialRing
      ([.consumer, .arrive [1, 2, 3]] ++ List.replicate 10 .producer ++
        List.replicate 5 .consumer ++ [.arrive [4]] ++ List.replicate 8 .producer)).any
      (fun s => s.handled = [[1, 2, 3]] ∧ s.accepted = [[1, 2, 3], [4]] ∧
        s.consumer = .handle 0 3) = true := by
    decide +kernel
  have hinit : Initial initialRing :=
    ⟨rfl, rfl, ⟨_, rfl⟩, rfl, rfl, rfl, rfl, rfl, rfl⟩
  obtain ⟨s, hs, hend⟩ := System.Reachable.exists_of_run_any (.init hinit) _ _ hrun
  exact ⟨s, hs, of_decide_eq_true hend, receive_ring_law hs⟩

end Cottage.ReceiveRing
