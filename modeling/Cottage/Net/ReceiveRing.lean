import Cottage.Foundations.SequenceRing
import Cottage.Scheduler.Semaphore

/-!
# The receive ring

The packet queue between `e1000_interrupt_handler`, its only producer, and
`knetwork_thread`, its only consumer.  Every load and store of `head` and
`tail`, every byte copied into a slot, every store of the metadata and every
semaphore operation is a step of its own, and the two take their steps in any
order.  The consumer advances `head` before the protocol handler looks at the
packet.
-/

namespace Cottage.ReceiveRing

open Scheduler Sem Transition

/-- The slot count `e1000_init` passes to `packet_queue_init`. -/
abbrev slotCount : ℕ := 64

abbrev slotSize : ℕ := 2048

structure PacketMeta where
  length : ℕ
  flags : ℕ
  deriving DecidableEq, Repr

/-- Where the interrupt handler stands with the packet it found; in `copy` the
first `k` bytes are copied. -/
inductive Producer
  | idle
  | loadTail (packet : List UInt8)
  | loadHead (packet : List UInt8) (tail : ℕ)
  | copy (packet : List UInt8) (tail k : ℕ)
  | setLength (packet : List UInt8) (tail : ℕ)
  | setFlags (packet : List UInt8) (tail : ℕ)
  | storeTail (packet : List UInt8) (tail : ℕ)
  | signal
  deriving DecidableEq, Repr

/-- Where the network thread stands.  In `dispatch` and `handle` it has advanced
`head` beyond the slot; `empty` is the branch for a ring found empty. -/
inductive Consumer
  | wait
  | blocked
  | loadHead
  | loadTail (head : ℕ)
  | readLength (head : ℕ)
  | storeHead (head len : ℕ)
  | dispatch (head len : ℕ)
  | handle (head len : ℕ)
  | empty
  deriving DecidableEq, Repr

structure State where
  data : ℕ → UInt8
  packetMeta : ℕ → PacketMeta
  head : ℕ
  tail : ℕ
  packetReady : Semaphore
  producer : Producer
  consumer : Consumer
  arrived : List (List UInt8)
  accepted : List (List UInt8)
  taken : ℕ
  handled : List (List UInt8)

inductive Event
  | arrive (packet : List UInt8)
  | producer
  | consumer
  deriving DecidableEq, Repr

def State.slot (s : State) (i len : ℕ) : List UInt8 :=
  (List.range len).map fun k => s.data (i * slotSize + k)

/-- A step of the interrupt handler; `netThread` is the network thread. -/
def producerStep (netThread : Tid) (s : State) : Option State :=
  match s.producer with
  | .idle => none
  | .loadTail packet => some { s with producer := .loadHead packet s.tail }
  | .loadHead packet tail =>
    if (tail + 1) % slotCount ≠ s.head then some { s with producer := .copy packet tail 0 }
    else some { s with producer := .idle }
  | .copy packet tail k =>
    if k < packet.length then
      some { s with
        data := Function.update s.data (tail * slotSize + k) (packet.getD k 0)
        producer := .copy packet tail (k + 1) }
    else some { s with producer := .setLength packet tail }
  | .setLength packet tail =>
    some { s with
      packetMeta := Function.update s.packetMeta tail
        { s.packetMeta tail with length := packet.length }
      producer := .setFlags packet tail }
  | .setFlags packet tail =>
    some { s with
      packetMeta := Function.update s.packetMeta tail { s.packetMeta tail with flags := 0 }
      producer := .storeTail packet tail }
  | .storeTail packet tail =>
    some { s with
      tail := (tail + 1) % slotCount
      producer := .signal
      accepted := s.accepted ++ [packet] }
  | .signal =>
    match semSignal s.packetReady with
    | (sem, none) => some { s with packetReady := sem, producer := .idle }
    | (sem, some t) =>
      some { s with
        packetReady := sem
        producer := .idle
        consumer := if t = netThread then .loadHead else s.consumer }

def consumerStep (netThread : Tid) (s : State) : Option State :=
  match s.consumer with
  | .wait =>
    match semWait s.packetReady netThread with
    | .acquired sem => some { s with packetReady := sem, consumer := .loadHead }
    | .blocked sem => some { s with packetReady := sem, consumer := .blocked }
    | .panicked => none
  | .blocked => none
  | .loadHead => some { s with consumer := .loadTail s.head }
  | .loadTail head =>
    if head = s.tail then some { s with consumer := .empty }
    else some { s with consumer := .readLength head }
  | .readLength head => some { s with consumer := .storeHead head (s.packetMeta head).length }
  | .storeHead head len =>
    some { s with
      head := (head + 1) % slotCount
      consumer := .dispatch head len
      taken := s.taken + 1 }
  | .dispatch head len =>
    some { s with
      consumer := .handle head len
      handled := s.handled ++ [s.slot head len] }
  | .handle _ _ => some { s with consumer := .wait }
  | .empty => some { s with consumer := .wait }

def step (netThread : Tid) (s : State) : Event → Option State
  | .arrive packet =>
    if s.producer = .idle ∧ packet.length ≤ slotSize then
      some { s with producer := .loadTail packet, arrived := s.arrived ++ [packet] }
    else none
  | .producer => producerStep netThread s
  | .consumer => consumerStep netThread s

/-- After `packet_queue_init`, with the network thread about to wait. -/
def Initial (s : State) : Prop :=
  s.head = 0 ∧ s.tail = 0 ∧ (∃ slots, s.packetReady = semInit 0 slots) ∧ s.producer = .idle ∧
    s.consumer = .wait ∧ s.arrived = [] ∧ s.accepted = [] ∧ s.taken = 0 ∧ s.handled = []

def system (netThread : Tid) : System State Event where
  init := Initial
  step := step netThread

def Copied (data : ℕ → UInt8) (i : ℕ) (packet : List UInt8) (n : ℕ) : Prop :=
  ∀ k < n, data (i * slotSize + k) = packet.getD k 0

structure Stored (data : ℕ → UInt8) (packetMeta : ℕ → PacketMeta) (i : ℕ)
    (packet : List UInt8) : Prop where
  copied : Copied data i packet packet.length
  length_eq : (packetMeta i).length = packet.length

/-- The packet in the hands of the producer, up to its publication. -/
def Producer.packet : Producer → Option (List UInt8)
  | .idle => none
  | .loadTail packet => some packet
  | .loadHead packet _ => some packet
  | .copy packet _ _ => some packet
  | .setLength packet _ => some packet
  | .setFlags packet _ => some packet
  | .storeTail packet _ => some packet
  | .signal => none

/-- The slot the producer works on, once it has found room. -/
def Producer.target : Producer → Option ℕ
  | .copy _ tail _ => some tail
  | .setLength _ tail => some tail
  | .setFlags _ tail => some tail
  | .storeTail _ tail => some tail
  | _ => none

def Producer.unsignalled : Producer → ℕ
  | .signal => 1
  | _ => 0

/-- `sem_wait` has returned and the packet is not yet taken. -/
def Consumer.granted : Consumer → ℕ
  | .loadHead | .loadTail _ | .readLength _ | .storeHead _ _ | .empty => 1
  | _ => 0

def Consumer.undispatched : Consumer → ℕ
  | .dispatch _ _ => 1
  | _ => 0

def Producer.Progress (data : ℕ → UInt8) (packetMeta : ℕ → PacketMeta) (index : ℕ) :
    Producer → Prop
  | .loadHead _ tail => tail = index
  | .copy packet tail k => tail = index ∧ Copied data tail packet k
  | .setLength packet tail => tail = index ∧ Copied data tail packet packet.length
  | .setFlags packet tail => tail = index ∧ Stored data packetMeta tail packet
  | .storeTail packet tail => tail = index ∧ Stored data packetMeta tail packet
  | _ => True

def Slot (accepted : List (List UInt8)) (p head len : ℕ) : Prop :=
  head = p % slotCount ∧ ∃ packet, accepted[p]? = some packet ∧ len = packet.length

def Consumer.Progress (accepted : List (List UInt8)) (taken : ℕ) : Consumer → Prop
  | .loadTail head => head = taken % slotCount
  | .readLength head => head = taken % slotCount
  | .storeHead head len => Slot accepted taken head len
  | .dispatch head len => 0 < taken ∧ Slot accepted (taken - 1) head len
  | .handle head len => 0 < taken ∧ Slot accepted (taken - 1) head len
  | .empty => False
  | _ => True

/-- The invariant.  The published packets from the last one taken on are in
their slots; the semaphore counts the published packets that are signalled and
not yet granted. -/
structure Inv (netThread : Tid) (s : State) : Prop where
  head_eq : s.head = s.taken % slotCount
  tail_eq : s.tail = s.accepted.length % slotCount
  stored : ∀ p packet, s.accepted[p]? = some packet → s.taken ≤ p + 1 →
    Stored s.data s.packetMeta (p % slotCount) packet
  short : ∀ packet ∈ s.accepted ++ s.producer.packet.toList, packet.length ≤ slotSize
  room : s.accepted.length + s.producer.target.toList.length < s.taken + slotCount
  order : (s.accepted ++ s.producer.packet.toList).Sublist s.arrived
  handled_eq : s.handled = s.accepted.take (s.taken - s.consumer.undispatched)
  count_nonneg : 0 ≤ s.packetReady.count
  count_eq : s.packetReady.count.toInt + s.consumer.granted + s.taken + s.producer.unsignalled =
    s.accepted.length
  waiters_eq : s.packetReady.waiters.toList = if s.consumer = .blocked then [netThread] else []
  count_of_blocked : s.consumer = .blocked → s.packetReady.count = 0
  producer_ok : s.producer.Progress s.data s.packetMeta s.tail
  consumer_ok : s.consumer.Progress s.accepted s.taken

section

variable {netThread : Tid} {s : State}

variable {i : ℕ} {packet : List UInt8}

lemma Copied.update_of_ne {data : ℕ → UInt8} {i' k n : ℕ} (h : Copied data i packet n)
    (hne : i ≠ i') (hn : n ≤ slotSize) (hk : k < slotSize) (b : UInt8) :
    Copied (Function.update data (i' * slotSize + k) b) i packet n := by
  intro j hj
  have haddr : i * slotSize + j ≠ i' * slotSize + k := by
    simp only [slotSize] at hn hk ⊢
    omega
  rw [Function.update_of_ne haddr]
  exact h j hj

lemma Copied.update_next {data : ℕ → UInt8} {k : ℕ} (h : Copied data i packet k) :
    Copied (Function.update data (i * slotSize + k) (packet.getD k 0)) i packet (k + 1) := by
  intro j hj
  by_cases hjk : j = k
  · rw [hjk, Function.update_self]
  · have haddr : i * slotSize + j ≠ i * slotSize + k := by omega
    rw [Function.update_of_ne haddr]
    exact h j (by omega)

lemma Stored.slot_eq {len : ℕ} (h : Stored s.data s.packetMeta i packet)
    (hlen : len = packet.length) : s.slot i len = packet := by
  subst hlen
  apply List.ext_getElem
  · rw [State.slot, List.length_map, List.length_range]
  · intro k hk hk'
    have hbyte := h.copied k hk'
    rw [List.getD_eq_getElem?_getD, List.getElem?_eq_getElem hk', Option.getD_some] at hbyte
    simp only [State.slot, List.getElem_map, List.getElem_range, hbyte]

lemma Inv.slot_ne_tail (h : Inv netThread s) (htarget : s.producer.target.isSome) {p : ℕ}
    (hp : p < s.accepted.length) (htaken : s.taken ≤ p + 1) : p % slotCount ≠ s.tail := by
  intro heq
  have hroom := h.room
  obtain ⟨tail, htail⟩ := Option.isSome_iff_exists.mp htarget
  simp only [htail, Option.toList_some, List.length_singleton] at hroom
  rw [h.tail_eq] at heq
  have hsame := SequenceRing.eq_of_slot_eq (le_refl p) (by omega) (Nat.le_of_lt hp) (by omega) heq
  omega

/-! ## What the invariant says about both indices -/

lemma Inv.taken_le (h : Inv netThread s) :
    s.taken + s.consumer.granted + s.producer.unsignalled ≤ s.accepted.length := by
  have hcount := h.count_eq
  have hnonneg := nonneg_iff.mp h.count_nonneg
  omega

lemma Inv.full_iff (h : Inv netThread s) :
    (s.tail + 1) % slotCount = s.head ↔ s.accepted.length = s.taken + 63 := by
  have htaken := h.taken_le
  have hroom := h.room
  have hslots : slotCount = 64 := rfl
  rw [h.tail_eq, h.head_eq, Nat.mod_add_mod]
  constructor
  · intro heq
    by_contra hne
    have hsame := SequenceRing.eq_of_slot_eq (le_refl s.taken) (by omega) (by omega) (by omega)
      heq.symm
    omega
  · intro heq
    rw [heq]
    exact Nat.add_mod_right s.taken slotCount

lemma Inv.not_empty (h : Inv netThread s) (hgranted : s.consumer.granted = 1) :
    s.taken < s.accepted.length ∧ s.taken % slotCount ≠ s.tail := by
  have htaken := h.taken_le
  have hroom := h.room
  refine ⟨by omega, fun heq => ?_⟩
  rw [h.tail_eq] at heq
  have hsame := SequenceRing.eq_of_slot_eq (le_refl s.taken) (by omega) (by omega) (by omega) heq
  omega

lemma Inv.waiters_isEmpty_iff (h : Inv netThread s) :
    s.packetReady.waiters.IsEmpty ↔ s.consumer ≠ .blocked := by
  rw [← IndexRing.Ring.toList_eq_nil_iff, h.waiters_eq]
  split_ifs with hblocked <;> simp [hblocked]

end

end Cottage.ReceiveRing
