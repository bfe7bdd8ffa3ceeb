import Cottage.Net.ReceiveRing

/-!
# The producer of the receive ring

Every step of `e1000_interrupt_handler` keeps the invariant of the ring.  Up to
the store of `tail` the producer writes only to the slot at `tail`, which
holds none of the packets the consumer may still look at.
-/

namespace Cottage.ReceiveRing

open Scheduler Sem Function

variable {netThread : Tid} {s : State}

variable {packet : List UInt8} {tail : ℕ}

section

variable (h : Inv netThread s)

include h

lemma Inv.arrive (hidle : s.producer = .idle) (hlen : packet.length ≤ slotSize) :
    Inv netThread { s with producer := .loadTail packet, arrived := s.arrived ++ [packet] } := by
  have hshort := h.short
  have horder := h.order
  have hroom := h.room
  have hcount := h.count_eq
  simp only [hidle, Producer.packet, Producer.target, Producer.unsignalled, Option.toList_none,
    List.append_nil] at hshort horder hroom hcount
  refine { h with
    short := ?_
    room := hroom
    order := horder.append (List.Sublist.refl _)
    count_eq := hcount
    producer_ok := trivial }
  intro packet' hmem
  rcases List.mem_append.mp hmem with hmem | hmem
  · exact hshort packet' hmem
  · rw [List.mem_singleton.mp hmem]
    exact hlen

lemma Inv.fill {data' : ℕ → UInt8} {packetMeta' : ℕ → PacketMeta} {producer' : Producer}
    (hpacket : producer'.packet = none ∨ producer'.packet = s.producer.packet)
    (hroom : s.accepted.length + producer'.target.toList.length < s.taken + slotCount)
    (hunsignalled : producer'.unsignalled = s.producer.unsignalled)
    (hstored : ∀ p packet, s.accepted[p]? = some packet → s.taken ≤ p + 1 →
      Stored data' packetMeta' (p % slotCount) packet)
    (hprogress : producer'.Progress data' packetMeta' s.tail) :
    Inv netThread { s with data := data', packetMeta := packetMeta', producer := producer' } := by
  have hsublist : (s.accepted ++ producer'.packet.toList).Sublist
      (s.accepted ++ s.producer.packet.toList) := by
    apply List.Sublist.append (List.Sublist.refl _)
    rcases hpacket with hnone | hsame
    · rw [hnone]
      exact List.nil_sublist _
    · rw [hsame]
  exact { h with
    stored := hstored
    short := fun packet hmem => h.short packet (hsublist.subset hmem)
    room := hroom
    order := hsublist.trans h.order
    count_eq := by
      rw [hunsignalled]
      exact h.count_eq
    producer_ok := hprogress }

lemma Inv.loadHead (hpc : s.producer = .loadHead packet tail)
    (hnext : (tail + 1) % slotCount ≠ s.head) :
    Inv netThread { s with producer := .copy packet tail 0 } := by
  have hok := h.producer_ok
  rw [hpc] at hok
  obtain rfl : tail = s.tail := hok
  have hroom := h.room
  have hslots : slotCount = 64 := rfl
  have hfull := mt h.full_iff.mpr hnext
  apply h.fill
  · rw [hpc]
    exact .inr rfl
  · simp only [Producer.target, Option.toList_some, List.length_singleton]
    omega
  · rw [hpc]
    rfl
  · exact h.stored
  · exact ⟨rfl, fun k hk => absurd hk (Nat.not_lt_zero k)⟩

lemma Inv.copy {k : ℕ} (hpc : s.producer = .copy packet tail k) (hk : k < packet.length) :
    Inv netThread { s with
      data := update s.data (tail * slotSize + k) (packet.getD k 0)
      producer := .copy packet tail (k + 1) } := by
  have hok := h.producer_ok
  have hroom := h.room
  have hshort : packet.length ≤ slotSize := by
    apply h.short packet
    rw [hpc]
    exact List.mem_append_right _ (.head _)
  rw [hpc] at hok hroom
  obtain ⟨rfl, hcopied⟩ := hok
  apply h.fill
  · rw [hpc]
    exact .inr rfl
  · exact hroom
  · rw [hpc]
    rfl
  · intro p packet' hp htaken
    obtain ⟨hlt, hget⟩ := List.getElem?_eq_some_iff.mp hp
    have hne := h.slot_ne_tail (by rw [hpc]; rfl) hlt htaken
    have hstored := h.stored p packet' hp htaken
    have hlen := h.short packet' (List.mem_append_left _ (hget ▸ List.getElem_mem hlt))
    exact ⟨hstored.copied.update_of_ne hne hlen (by omega) _, hstored.length_eq⟩
  · exact ⟨rfl, hcopied.update_next⟩

lemma Inv.setMeta {producer' : Producer} {new : PacketMeta}
    (htarget : s.producer.target = some s.tail) (htarget' : producer'.target = some s.tail)
    (hpacket : producer'.packet = s.producer.packet)
    (hunsignalled : producer'.unsignalled = s.producer.unsignalled)
    (hprogress : producer'.Progress s.data (update s.packetMeta s.tail new) s.tail) :
    Inv netThread { s with
      packetMeta := update s.packetMeta s.tail new
      producer := producer' } := by
  have hroom := h.room
  rw [htarget, ← htarget'] at hroom
  apply h.fill (.inr hpacket) hroom hunsignalled _ hprogress
  intro p packet hp htaken
  obtain ⟨hlt, _⟩ := List.getElem?_eq_some_iff.mp hp
  have hne := h.slot_ne_tail (by rw [htarget]; rfl) hlt htaken
  have hstored := h.stored p packet hp htaken
  refine ⟨hstored.copied, ?_⟩
  rw [update_of_ne hne]
  exact hstored.length_eq

lemma Inv.setLength (hpc : s.producer = .setLength packet tail) :
    Inv netThread { s with
      packetMeta := update s.packetMeta tail { s.packetMeta tail with length := packet.length }
      producer := .setFlags packet tail } := by
  have hok := h.producer_ok
  rw [hpc] at hok
  obtain ⟨rfl, hcopied⟩ := hok
  apply h.setMeta
  · rw [hpc]
    rfl
  · rfl
  · rw [hpc]
    rfl
  · rw [hpc]
    rfl
  · refine ⟨rfl, hcopied, ?_⟩
    rw [update_self]

lemma Inv.setFlags (hpc : s.producer = .setFlags packet tail) :
    Inv netThread { s with
      packetMeta := update s.packetMeta tail { s.packetMeta tail with flags := 0 }
      producer := .storeTail packet tail } := by
  have hok := h.producer_ok
  rw [hpc] at hok
  obtain ⟨rfl, hstored⟩ := hok
  apply h.setMeta
  · rw [hpc]
    rfl
  · rfl
  · rw [hpc]
    rfl
  · rw [hpc]
    rfl
  · refine ⟨rfl, hstored.copied, ?_⟩
    rw [update_self]
    exact hstored.length_eq

end

lemma Consumer.Progress.append {accepted : List (List UInt8)} {taken : ℕ} {c : Consumer}
    (h : c.Progress accepted taken) (packet : List UInt8) :
    c.Progress (accepted ++ [packet]) taken := by
  have hslot : ∀ p head len, Slot accepted p head len → Slot (accepted ++ [packet]) p head len := by
    rintro p head len ⟨hhead, packet', hp, hlen⟩
    obtain ⟨hlt, _⟩ := List.getElem?_eq_some_iff.mp hp
    exact ⟨hhead, packet', by rw [List.getElem?_append_left hlt, hp], hlen⟩
  cases c with
  | storeHead head len => exact hslot _ _ _ h
  | dispatch head len => exact ⟨h.1, hslot _ _ _ h.2⟩
  | handle head len => exact ⟨h.1, hslot _ _ _ h.2⟩
  | _ => exact h

lemma Inv.storeTail (h : Inv netThread s) (hpc : s.producer = .storeTail packet tail) :
    Inv netThread { s with
      tail := (tail + 1) % slotCount
      producer := .signal
      accepted := s.accepted ++ [packet] } := by
  have hok := h.producer_ok
  have hroom := h.room
  have hshort := h.short
  have horder := h.order
  have hcount := h.count_eq
  have hnonneg := nonneg_iff.mp h.count_nonneg
  rw [hpc] at hok hroom hshort horder hcount
  obtain ⟨rfl, hstored⟩ := hok
  simp only [Producer.packet, Producer.target, Producer.unsignalled, Option.toList_some,
    List.length_singleton] at hroom hshort horder hcount
  refine { h with
    tail_eq := ?_
    stored := ?_
    short := ?_
    room := ?_
    order := ?_
    handled_eq := ?_
    count_eq := ?_
    producer_ok := trivial
    consumer_ok := h.consumer_ok.append packet }
  · rw [h.tail_eq, Nat.mod_add_mod, List.length_append, List.length_singleton]
  · intro p packet' hp htaken
    by_cases hlt : p < s.accepted.length
    · rw [List.getElem?_append_left hlt] at hp
      exact h.stored p packet' hp htaken
    · obtain ⟨hlt', hget⟩ := List.getElem?_eq_some_iff.mp hp
      obtain rfl : p = s.accepted.length := by
        rw [List.length_append, List.length_singleton] at hlt'
        omega
      rw [← h.tail_eq]
      rw [List.getElem_append_right (le_refl _)] at hget
      simp only [Nat.sub_self, List.getElem_singleton] at hget
      rw [← hget]
      exact hstored
  · simpa only [Producer.packet, Option.toList_none, List.append_nil] using hshort
  · simp only [Producer.target, Option.toList_none, List.length_nil, List.length_append,
      List.length_singleton]
    omega
  · simpa only [Producer.packet, Option.toList_none, List.append_nil] using horder
  · rw [h.handled_eq, List.take_append_of_le_length]
    dsimp only
    omega
  · simp only [Producer.unsignalled, List.length_append, List.length_singleton]
    omega

lemma Inv.signal_count (h : Inv netThread s) (hpc : s.producer = .signal)
    (hempty : s.packetReady.waiters.IsEmpty) :
    Inv netThread { s with
      packetReady := { s.packetReady with count := s.packetReady.count + 1 }
      producer := .idle } := by
  have hcount := h.count_eq
  have hnonneg := nonneg_iff.mp h.count_nonneg
  have hroom := h.room
  have hslots : slotCount = 64 := rfl
  have hadd : (s.packetReady.count + 1).toInt = s.packetReady.count.toInt + 1 := by
    apply toInt_add_one
    rw [Int64.lt_iff_toInt_lt, Int64.toInt_maxValue]
    omega
  have hblocked := h.waiters_isEmpty_iff.mp hempty
  rw [hpc] at hcount
  simp only [Producer.unsignalled] at hcount
  refine { h with
    short := ?_
    room := ?_
    order := ?_
    count_nonneg := nonneg_iff.mpr (by dsimp only; omega)
    count_eq := ?_
    count_of_blocked := fun h' => absurd h' hblocked
    producer_ok := trivial }
  · simpa only [hpc, Producer.packet] using h.short
  · simpa only [hpc, Producer.target] using hroom
  · simpa only [hpc, Producer.packet] using h.order
  · simp only [Producer.unsignalled, hadd]
    omega

lemma Inv.signal_wake (h : Inv netThread s) (hpc : s.producer = .signal)
    (hempty : ¬ s.packetReady.waiters.IsEmpty) :
    s.packetReady.waiters.front = netThread ∧
      Inv netThread { s with
        packetReady := { s.packetReady with waiters := s.packetReady.waiters.pop }
        producer := .idle
        consumer := .loadHead } := by
  have hcount := h.count_eq
  have hblocked : s.consumer = .blocked := not_not.mp (mt h.waiters_isEmpty_iff.mpr hempty)
  have hwaiters := h.waiters_eq
  rw [if_pos hblocked, IndexRing.Ring.toList_pop hempty, List.cons.injEq] at hwaiters
  rw [hpc, hblocked] at hcount
  simp only [Producer.unsignalled, Consumer.granted] at hcount
  refine ⟨hwaiters.1, { h with
    short := ?_
    room := ?_
    order := ?_
    handled_eq := ?_
    count_eq := ?_
    waiters_eq := hwaiters.2
    count_of_blocked := fun h' => by cases h'
    producer_ok := trivial
    consumer_ok := trivial }⟩
  · simpa only [hpc, Producer.packet] using h.short
  · simpa only [hpc, Producer.target] using h.room
  · simpa only [hpc, Producer.packet] using h.order
  · simpa only [hblocked, Consumer.undispatched] using h.handled_eq
  · simp only [Producer.unsignalled, Consumer.granted]
    omega

lemma Inv.producerStep {s' : State} (h : Inv netThread s)
    (hstep : producerStep netThread s = some s') : Inv netThread s' := by
  rw [ReceiveRing.producerStep] at hstep
  cases hpc : s.producer <;> simp only [hpc, Option.some.injEq, reduceCtorEq] at hstep
  case loadTail packet =>
    subst hstep
    refine h.fill ?_ ?_ ?_ h.stored rfl
    · rw [hpc]
      exact .inr rfl
    · simpa only [hpc, Producer.target] using h.room
    · rw [hpc]
      rfl
  case loadHead packet tail =>
    split_ifs at hstep with hnext
    · cases hstep
      exact h.loadHead hpc hnext
    · cases hstep
      refine h.fill (.inl rfl) ?_ ?_ h.stored trivial
      · simpa only [hpc, Producer.target] using h.room
      · rw [hpc]
        rfl
  case copy packet tail k =>
    split_ifs at hstep with hk
    · cases hstep
      exact h.copy hpc hk
    · cases hstep
      have hok := h.producer_ok
      rw [hpc] at hok
      refine h.fill ?_ ?_ ?_ h.stored ⟨hok.1, fun j hj => hok.2 j (by omega)⟩
      · rw [hpc]
        exact .inr rfl
      · simpa only [hpc, Producer.target] using h.room
      · rw [hpc]
        rfl
  case setLength packet tail =>
    subst hstep
    exact h.setLength hpc
  case setFlags packet tail =>
    subst hstep
    exact h.setFlags hpc
  case storeTail packet tail =>
    subst hstep
    exact h.storeTail hpc
  case signal =>
    simp only [semSignal] at hstep
    by_cases hempty : s.packetReady.waiters.IsEmpty
    · simp only [if_pos hempty] at hstep
      cases hstep
      exact h.signal_count hpc hempty
    · obtain ⟨hfront, hinv⟩ := h.signal_wake hpc hempty
      simp only [if_neg hempty, hfront, if_true] at hstep
      cases hstep
      exact hinv

end Cottage.ReceiveRing
