import Cottage.Foundations.ByteString
import Cottage.Net.ReceiveRing
import Cottage.Net.SendLengths

/-!
# The copies of the network card driver

`e1000_send` copies a frame into the page of a transmit descriptor, and
`e1000_interrupt_handler` copies what the card has received into a slot of the
receive queue.  Neither looks at the size of what it copies to.
-/

namespace Cottage.Net

open ByteReader Reader Scheduler Sem Function
open ReceiveRing (slotCount slotSize PacketMeta)

/-- A `memcpy` to an address. -/
structure Copy where
  address : ℕ
  bytes : List UInt8
  deriving DecidableEq, Repr

/-- Every byte is written to the buffer of the given size. -/
def Copy.Inside (copy : Copy) (buffer size : ℕ) : Prop :=
  ∀ i < copy.bytes.length, buffer ≤ copy.address + i ∧ copy.address + i < buffer + size

lemma inside_iff {buffer size : ℕ} {bytes : List UInt8} :
    (⟨buffer, bytes⟩ : Copy).Inside buffer size ↔ bytes.length ≤ size := by
  rw [Copy.Inside]
  constructor
  · intro h
    by_contra hlen
    have hlast := h size (not_le.mp hlen)
    exact absurd hlast.2 (lt_irrefl _)
  · intro hlen i hi
    have hi' : i < bytes.length := hi
    exact ⟨Nat.le_add_right _ _, by simp only; omega⟩

abbrev e1000NumTxDesc : ℕ := 8

/-- `pmm_alloc(1)` -/
def txBufferSize : ℕ := 4096

structure TxDesc where
  addr : ℕ
  length : ℕ
  cmd : UInt8
  status : UInt8
  deriving DecidableEq, Repr

structure TxRing where
  descs : Vector TxDesc e1000NumTxDesc
  cur : Fin e1000NumTxDesc

def tstaDd : UInt8 := 1

/-- `CMD_EOP | CMD_IFCS | CMD_RS` -/
def txCmd : UInt8 := 1 ||| 2 ||| 8

def eNobufs : ℤ := 105

/-- `e1000_send` with the copy it makes, if the card is done with the
descriptor. -/
def e1000Send (data : List UInt8) (ring : TxRing) : TxRing × ℤ × Option Copy :=
  let desc := ring.descs[ring.cur]
  if desc.status &&& tstaDd = 0 then (ring, -eNobufs, none)
  else
    ({ descs := ring.descs.set ring.cur
        { desc with length := data.length, cmd := txCmd, status := 0 }
       cur := ring.cur + 1 },
      data.length, some ⟨desc.addr, data⟩)

def SendInside (data : List UInt8) : Prop :=
  ∀ ring, ∀ copy ∈ (e1000Send data ring).2.2, copy.Inside ring.descs[ring.cur].addr txBufferSize

/-- The descriptors as `tx_init` leaves them, with buffers one after the other. -/
def txInit (buffers : ℕ) : TxRing where
  descs := Vector.ofFn fun i => ⟨buffers + txBufferSize * i, 0, 0, tstaDd⟩
  cur := 0

lemma sendInside_iff {data : List UInt8} : SendInside data ↔ data.length ≤ txBufferSize := by
  constructor
  · intro h
    exact inside_iff.mp (h (txInit 0) ⟨0, data⟩ rfl)
  · intro hlen ring copy hcopy
    rw [e1000Send] at hcopy
    split_ifs at hcopy
    · cases hcopy
    · cases hcopy
      exact inside_iff.mpr hlen

abbrev e1000NumRxDesc : ℕ := 32

structure RxDesc where
  buffer : ℕ → UInt8
  length : UInt16
  status : UInt8

structure PacketQueue where
  data : ℕ
  packetMeta : ℕ → PacketMeta
  head : ℕ
  tail : ℕ
  packetReady : Semaphore

structure RxState where
  descs : Vector RxDesc e1000NumRxDesc
  cur : Fin e1000NumRxDesc
  recvQueue : PacketQueue

def RxState.desc (s : RxState) : RxDesc :=
  s.descs[s.cur]

def PacketQueue.slot (q : PacketQueue) (i : ℕ) : ℕ :=
  q.data + i * slotSize

def PacketQueue.Full (q : PacketQueue) : Prop :=
  (q.tail + 1) % slotCount = q.head

instance (q : PacketQueue) : Decidable q.Full :=
  inferInstanceAs (Decidable (_ = _))

def RxDesc.packet (desc : RxDesc) : List UInt8 :=
  (List.range desc.length.toNat).map desc.buffer

/-- One turn of the loop of `e1000_interrupt_handler` with the copy it makes; a
packet for a full queue is dropped. -/
def rxTurn (s : RxState) : RxState × Option Copy :=
  let q := s.recvQueue
  let next : RxState :=
    { s with
      descs := s.descs.set s.cur { s.desc with status := 0 }
      cur := s.cur + 1 }
  if q.Full then (next, none)
  else
    ({ next with recvQueue := { q with
        packetMeta := update q.packetMeta q.tail ⟨s.desc.length.toNat, 0⟩
        tail := (q.tail + 1) % slotCount
        packetReady := (semSignal q.packetReady).1 } },
      some ⟨q.slot q.tail, s.desc.packet⟩)

/-- The states in which up to `fuel` turns of the loop begin.  Before each look
at the descriptor the card and the network thread may have changed the state. -/
def rxTurns (others : ℕ → RxState → RxState) : ℕ → RxState → List RxState
  | 0, _ => []
  | fuel + 1, s =>
    let s := others fuel s
    if s.desc.status &&& 1 = 0 then [] else s :: rxTurns others fuel (rxTurn s).1

/-- The copy of one turn stays in the slot at the tail of the queue. -/
def TurnInside (s : RxState) : Prop :=
  ∀ copy ∈ (rxTurn s).2, copy.Inside (s.recvQueue.slot s.recvQueue.tail) slotSize

lemma turnInside_iff {s : RxState} :
    TurnInside s ↔ s.recvQueue.Full ∨ s.desc.length.toNat ≤ slotSize := by
  rw [TurnInside, rxTurn]
  by_cases hfull : s.recvQueue.Full
  · simp [hfull]
  · simp only [hfull, if_false, Option.mem_def, Option.some.injEq, forall_eq', inside_iff,
      RxDesc.packet, List.length_map, List.length_range, false_or]

/-! ## The turn as a sequence of steps -/

/-- The steps of the interrupt handler with none of the network thread in
between. -/
def RxAlone (netThread : Tid) : ReceiveRing.State → ReceiveRing.State → Prop :=
  Relation.ReflTransGen fun r r' => ReceiveRing.producerStep netThread r = some r'

lemma rxAlone_copy (netThread : Tid) {r : ReceiveRing.State} {packet : List UInt8} {tail k : ℕ}
    (hpc : r.producer = .copy packet tail k) :
    RxAlone netThread r { r with
      data := ByteString.storeBytes r.data (tail * slotSize + k) (packet.drop k)
      producer := .setLength packet tail } := by
  induction hn : packet.length - k generalizing r k with
  | zero =>
    rw [List.drop_eq_nil_of_le (by omega)]
    apply Relation.ReflTransGen.single
    rw [ReceiveRing.producerStep, hpc]
    exact if_neg (by omega)
  | succ n ih =>
    have hlt : k < packet.length := by omega
    let next : ReceiveRing.State := { r with
      data := update r.data (tail * slotSize + k) (packet.getD k 0)
      producer := .copy packet tail (k + 1) }
    have hstep : ReceiveRing.producerStep netThread r = some next := by
      rw [ReceiveRing.producerStep, hpc]
      exact if_pos hlt
    have hrest := ih (r := next) rfl (by omega)
    have hstore : ByteString.storeBytes r.data (tail * slotSize + k) (packet.drop k) =
        ByteString.storeBytes next.data (tail * slotSize + (k + 1)) (packet.drop (k + 1)) := by
      rw [List.drop_eq_getElem_cons hlt, ← List.getD_eq_getElem packet 0 hlt, ← Nat.add_assoc]
      rfl
    rw [hstore]
    exact .head hstep hrest

lemma producerStep_signal (netThread : Tid) {r : ReceiveRing.State} (hpc : r.producer = .signal) :
    ∃ consumer, ReceiveRing.producerStep netThread r = some { r with
      packetReady := (semSignal r.packetReady).1
      producer := .idle
      consumer := consumer } := by
  rw [ReceiveRing.producerStep, hpc]
  dsimp only
  split <;> rename_i heq <;> rw [heq] <;> exact ⟨_, rfl⟩

/-- The queue of a state of the receive ring. -/
structure PacketQueue.Shows (q : PacketQueue) (r : ReceiveRing.State) : Prop where
  packetMeta : r.packetMeta = q.packetMeta
  head : r.head = q.head
  tail : r.tail = q.tail
  packetReady : r.packetReady = q.packetReady

/-- A turn is what the steps of the receive ring do when nothing comes between
them. -/
lemma rxAlone_rxTurn (netThread : Tid) {s : RxState} {r : ReceiveRing.State}
    (hshows : s.recvQueue.Shows r) (hpc : r.producer = .loadTail s.desc.packet) :
    ∃ r', RxAlone netThread r r' ∧ r'.producer = .idle ∧ (rxTurn s).1.recvQueue.Shows r' ∧
      r'.data = (rxTurn s).2.elim r.data fun copy =>
        ByteString.storeBytes r.data (copy.address - s.recvQueue.data) copy.bytes := by
  obtain ⟨hmeta, hhead, htail, hready⟩ := hshows
  have hload : ReceiveRing.producerStep netThread r =
      some { r with producer := .loadHead s.desc.packet r.tail } := by
    rw [ReceiveRing.producerStep, hpc]
  by_cases hfull : s.recvQueue.Full
  · refine ⟨{ r with producer := .idle }, .head hload (.single ?_), rfl, ?_, ?_⟩
    · rw [PacketQueue.Full, ← htail, ← hhead] at hfull
      exact if_neg (not_not.mpr hfull)
    · rw [rxTurn, if_pos hfull]
      exact ⟨hmeta, hhead, htail, hready⟩
    · rw [rxTurn, if_pos hfull]
      rfl
  · have hroom : (r.tail + 1) % slotCount ≠ r.head := by
      rw [htail, hhead]
      exact hfull
    have hcopy := rxAlone_copy netThread
      (r := { r with producer := .copy s.desc.packet r.tail 0 }) rfl
    let published : ReceiveRing.State := { r with
      data := ByteString.storeBytes r.data (r.tail * slotSize) s.desc.packet
      packetMeta := update r.packetMeta r.tail ⟨s.desc.packet.length, 0⟩
      tail := (r.tail + 1) % slotCount
      producer := .signal
      accepted := r.accepted ++ [s.desc.packet] }
    have hpublish : RxAlone netThread r published := by
      refine .head hload (.head (if_pos hroom) (hcopy.trans (.head rfl (.head rfl (.single ?_)))))
      simp [ReceiveRing.producerStep, published]
    obtain ⟨consumer, hsignal⟩ := producerStep_signal netThread (r := published) rfl
    refine ⟨_, hpublish.tail hsignal, rfl, ?_, ?_⟩
    · rw [rxTurn, if_neg hfull]
      refine ⟨?_, hhead, ?_, ?_⟩
      · simp [published, hmeta, htail, RxDesc.packet]
      · simp [published, htail]
      · simp [published, hready]
    · have haddr : s.recvQueue.slot s.recvQueue.tail - s.recvQueue.data = r.tail * slotSize := by
        rw [PacketQueue.slot, htail, Nat.add_sub_cancel_left]
      rw [rxTurn, if_neg hfull]
      exact congrArg (ByteString.storeBytes r.data · s.desc.packet) haddr.symm

/-! ## What reaches the driver -/

def drainFrame (mac : Mac) (slot : ArpPendingEntry) : List UInt8 :=
  (mac.toList ++ slot.packet.drop 6).take slot.len.toNat

/-- The copies of what a call has transmitted, and of what it has put into the
queue once the address is known, stay in their buffers. -/
def CopiesInside (s s' : NetState) : Prop :=
  (∀ t ∈ s'.sent.drop s.sent.length, SendInside t.frame) ∧
    (s'.arpPendingTail ≠ s.arpPendingTail →
      ∀ mac, SendInside (drainFrame mac (s'.arpPendingQueue.get s.arpPendingTail)))

variable {s s' : NetState}

lemma copiesInside_transmit (device : Device) (frame : List UInt8) (hsent : s'.sent = s.sent)
    (htail : s'.arpPendingTail = s.arpPendingTail) :
    CopiesInside s (s'.transmit device frame) ↔ frame.length ≤ txBufferSize := by
  simp only [CopiesInside, NetState.transmit, hsent, List.drop_left, List.mem_singleton, forall_eq,
    sendInside_iff, htail, ne_eq, not_true_eq_false, false_imp_iff, and_true]

lemma copiesInside_of_same (hsent : s'.sent = s.sent)
    (htail : s'.arpPendingTail = s.arpPendingTail) : CopiesInside s s' := by
  refine ⟨fun t ht => ?_, fun h => absurd htail h⟩
  rw [hsent, List.drop_length] at ht
  cases ht

lemma length_arpFrame (destMac srcMac : Mac) (opcode : UInt8) (senderIp : Ip4) (targetMac : Mac)
    (targetIp : Ip4) :
    (arpFrame destMac srcMac opcode senderIp targetMac targetIp).length = 42 := by
  simp [arpFrame]

lemma length_sent (mac : Mac) (route : RouteResult) (dest : NetAddr) (port : UInt16)
    (payload : List UInt8) :
    ((packetTo mac route dest port payload).take (sendLen payload).toNat).length =
      (42 + payload.length) % 65536 := by
  have hlen : (sendLen payload).toNat = (42 + payload.length) % 65536 :=
    UInt16.toNat_ofNat'
  rw [List.length_take, packetTo, length_udpPacket, hlen]
  exact min_eq_left (Nat.mod_le _ _)

lemma length_drainFrame (mac unset : Mac) (route : RouteResult) (dest : NetAddr) (port : UInt16)
    (ip : Ip4) (payload : List UInt8) :
    (drainFrame mac ⟨packetTo unset route dest port payload, sendLen payload, ip, true⟩).length =
      (42 + payload.length) % 65536 := by
  have hlen : (sendLen payload).toNat = (42 + payload.length) % 65536 :=
    UInt16.toNat_ofNat'
  simp only [drainFrame, List.length_take, List.length_append, List.length_drop,
    Vector.length_toList, packetTo, length_udpPacket, hlen]
  omega

section

variable {fds : ℕ → Option FileDescriptor} {fd : ℕ} {payload : List UInt8} {dest : NetAddr}
  {sockfd : FileDescriptor} {route : RouteResult} {random : UInt32} {unset : Mac}

lemma copiesInside_of_not_cached {port : UInt16}
    (hport : sourcePort sockfd.resource random (arpSendRequest route.device (nextHop route) s) =
      some (s', port)) :
    CopiesInside s (arpPendingEnqueue (packetTo unset route dest port payload) (sendLen payload)
      (nextHop route) s') ↔ (42 + payload.length) % 65536 ≤ txBufferSize := by
  obtain ⟨hsent, hqueue, htail⟩ := sourcePort_frame hport
  have htail' : s'.arpPendingTail = s.arpPendingTail := htail
  have hnew : (arpPendingEnqueue (packetTo unset route dest port payload) (sendLen payload)
      (nextHop route) s').sent.drop s.sent.length = [⟨route.device, arpFrame
        (Vector.replicate 6 0xFF) route.device.mac 1 route.device.ip4 (Vector.replicate 6 0)
        (nextHop route)⟩] := by
    have hsent' : (arpPendingEnqueue (packetTo unset route dest port payload) (sendLen payload)
      (nextHop route) s').sent = s.sent ++ _ := hsent
    rw [hsent', List.drop_left]
  have hslot : (arpPendingEnqueue (packetTo unset route dest port payload) (sendLen payload)
      (nextHop route) s').arpPendingQueue.get s.arpPendingTail =
        ⟨packetTo unset route dest port payload, sendLen payload, nextHop route, true⟩ := by
    simp only [arpPendingEnqueue, htail']
    exact Vector.getElem_set_self _
  have hmoved : (arpPendingEnqueue (packetTo unset route dest port payload) (sendLen payload)
      (nextHop route) s').arpPendingTail ≠ s.arpPendingTail := by
    rw [← htail']
    exact add_one_ne_self _
  rw [CopiesInside, hnew, hslot]
  simp only [List.mem_singleton, forall_eq, sendInside_iff, length_arpFrame, length_drainFrame,
    ne_eq, hmoved, not_false_eq_true, forall_const]
  exact and_iff_right (by decide)

lemma copiesInside_sysSendto_iff :
    CopiesInside s (sysSendto fds fd payload dest random unset s).1 ↔
      ∀ sockfd route, Routed fds fd dest s sockfd route → HasPort sockfd.resource s →
        (42 + payload.length) % 65536 ≤ txBufferSize := by
  by_cases hrouted : ∃ sockfd route, Routed fds fd dest s sockfd route
  · obtain ⟨sockfd, route, hrouted⟩ := hrouted
    by_cases hport : HasPort sockfd.resource s
    · have hcondition : (∀ sockfd route, Routed fds fd dest s sockfd route →
          HasPort sockfd.resource s → (42 + payload.length) % 65536 ≤ txBufferSize) ↔
            (42 + payload.length) % 65536 ≤ txBufferSize :=
        ⟨fun h => h sockfd route hrouted hport, fun h _ _ _ _ => h⟩
      rw [hcondition]
      cases hmac : arpCacheLookup s (nextHop route) with
      | some mac =>
        obtain ⟨s', port, hsome⟩ := exists_sourcePort random hport
        obtain ⟨hsent, _, htail⟩ := sourcePort_frame hsome
        rw [sysSendto_of_cached hrouted hmac hsome,
          copiesInside_transmit _ _ hsent htail, length_sent]
      | none =>
        obtain ⟨s', port, hsome⟩ := exists_sourcePort
          (s := arpSendRequest route.device (nextHop route) s) random hport
        rw [sysSendto_of_not_cached hrouted hmac hsome, copiesInside_of_not_cached hsome]
    · have hcondition : ∀ sockfd route, Routed fds fd dest s sockfd route →
          HasPort sockfd.resource s → (42 + payload.length) % 65536 ≤ txBufferSize := by
        intro sockfd' route' hrouted' hport'
        obtain rfl := Option.some.inj (hrouted.sockfd_eq.symm.trans hrouted'.sockfd_eq)
        exact absurd hport' hport
      refine iff_of_true ?_ hcondition
      rw [sysSendto_of_not_hasPort hrouted hport, arpLookup]
      cases arpCacheLookup s (nextHop route) with
      | some mac => exact copiesInside_of_same rfl rfl
      | none =>
        apply (copiesInside_transmit _ _ rfl rfl).mpr
        rw [length_arpFrame]
        decide
  · have hnot : ∀ sockfd route, ¬ Routed fds fd dest s sockfd route := by
      intro sockfd route h
      exact hrouted ⟨sockfd, route, h⟩
    obtain ⟨error, _, hcall⟩ := sysSendto_of_not_routed hnot
    rw [hcall]
    exact iff_of_true (copiesInside_of_same rfl rfl) fun sockfd route h =>
      absurd h (hnot sockfd route)

end

lemma length_echoReply {device : Device} {srcMac : Mac} {srcIp : Ip4} {payloadLen : UInt16}
    {id sequence : Vector UInt8 2} {data : List UInt8} (h : data.length + 8 = payloadLen.toNat) :
    (echoReply device srcMac srcIp payloadLen id sequence data).length =
      (34 + payloadLen.toNat) % 65536 := by
  have hlen : (34 + payloadLen).toNat = (34 + payloadLen.toNat) % 65536 :=
    UInt16.toNat_add 34 payloadLen
  simp only [echoReply, ethBuildHeader, ipv4BuildHeader, ipv4Header, icmpReply, icmpMessage,
    List.length_take, List.length_append, List.length_cons, List.length_nil, Vector.length_toList,
    hlen]
  omega

lemma copiesInside_netHandleIcmp_iff {packet : ℕ → UInt8} {device : Device} {ip payload : ℕ}
    {payloadLen : UInt16} :
    CopiesInside s ((netHandleIcmp device ip payload payloadLen s).run packet) ↔
      (8 ≤ payloadLen.toNat → packet payload = icmpEchoRequest →
        (34 + payloadLen.toNat) % 65536 ≤ txBufferSize) := by
  rw [netHandleIcmp]
  split_ifs with hshort
  · have hlt : payloadLen.toNat < 8 := UInt16.lt_iff_toNat_lt.mp hshort
    exact iff_of_true (copiesInside_of_same rfl rfl) fun hle => absurd hlt hle.not_gt
  · have hle : 8 ≤ payloadLen.toNat := UInt16.le_iff_toNat_le.mp (UInt16.not_lt.mp hshort)
    simp only [run_bind, run_read]
    by_cases htype : packet payload = icmpEchoRequest
    · simp only [htype, if_true, run_bind, run_bytes, run_pure, hle, true_imp_iff]
      rw [copiesInside_transmit _ _ rfl rfl, length_echoReply]
      rw [Vector.length_toList]
      omega
    · simp only [htype, if_false, run_pure, false_imp_iff, implies_true, iff_true]
      exact copiesInside_of_same rfl rfl

/-! ## All copies -/

/-- The copies of `e1000_send` for sends and echo replies, and those of
`e1000_interrupt_handler`, stay in their buffers exactly if the lengths are
small enough. -/
theorem frame_copies_inside_iff (fds : ℕ → Option FileDescriptor) (fd : ℕ) (payload : List UInt8)
    (dest : NetAddr) (random : UInt32) (unset : Mac) (s : NetState) (packet : ℕ → UInt8)
    (device : Device) (ip icmp : ℕ) (icmpLen : UInt16) (s₁ : NetState)
    (others : ℕ → RxState → RxState) (fuel : ℕ) (rx : RxState) :
    (CopiesInside s (sysSendto fds fd payload dest random unset s).1 ↔
      ∀ sockfd route, Routed fds fd dest s sockfd route → HasPort sockfd.resource s →
        (42 + payload.length) % 65536 ≤ 4096) ∧
    (CopiesInside s₁ ((netHandleIcmp device ip icmp icmpLen s₁).run packet) ↔
      (8 ≤ icmpLen.toNat → packet icmp = icmpEchoRequest → (34 + icmpLen.toNat) % 65536 ≤ 4096)) ∧
    ((∀ turn ∈ rxTurns others fuel rx, TurnInside turn) ↔
      ∀ turn ∈ rxTurns others fuel rx, turn.recvQueue.Full ∨ turn.desc.length.toNat ≤ 2048) := by
  refine ⟨copiesInside_sysSendto_iff, copiesInside_netHandleIcmp_iff, ?_⟩
  constructor
  · intro h turn hturn
    exact turnInside_iff.mp (h turn hturn)
  · intro h turn hturn
    exact turnInside_iff.mpr (h turn hturn)

theorem one_byte_too_many :
    ¬ CopiesInside connected (sysSendto (fun _ => some ⟨statIfsock, 0⟩) 3 (List.replicate 4055 0)
        ⟨afIpv4, htons 7, le32 receiver.ip4⟩ 0 sender.mac connected).1 ∧
      ¬ TurnInside
        { descs := Vector.replicate _ ⟨fun _ => 0, 2049, 1⟩
          cur := 0
          recvQueue := ⟨0, fun _ => ⟨0, 0⟩, 0, 0, semInit 0 fun _ => 0⟩ } := by
  refine ⟨fun h => ?_, fun h => ?_⟩
  · have hlen := copiesInside_sysSendto_iff.mp h ⟨statIfsock, 0⟩ ⟨le32 receiver.ip4, sender⟩
      ⟨by decide, rfl, by decide, by decide +kernel⟩ (.inl (by decide))
    rw [List.length_replicate] at hlen
    exact absurd hlen (by decide)
  · rcases turnInside_iff.mp h with hfull | hlen
    · exact absurd hfull (by decide)
    · have hlen' : (2049 : UInt16).toNat ≤ 2048 := hlen
      exact absurd hlen' (by decide)

end Cottage.Net
