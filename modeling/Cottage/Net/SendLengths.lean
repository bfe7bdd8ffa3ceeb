import Cottage.Net.Sendto

/-!
# The lengths of a send

`sys_sendto` takes a length of 64 bits and passes it on in 16 bits four times:
to the builders of the IPv4 and the UDP header, and to the device or the queue
of packets that wait for an ARP reply.

The ARP request of a send to an unknown next hop goes out before the socket is
given a port, so the call can fail after that.
-/

namespace Cottage.Net

def networkWord (frame : List UInt8) (offset : ℕ) : UInt16 :=
  ntohs (le16 (frame.getD offset 0) (frame.getD (offset + 1) 0))

structure DatagramFrame (frame payload : List UInt8) : Prop where
  length : frame.length = 42 + payload.length
  totalLength : (networkWord frame 16).toNat = 28 + payload.length
  udpLength : (networkWord frame 38).toNat = 8 + payload.length
  payload : frame.drop 42 = payload

section

variable {destMac : Mac} {device : Device} {destIp : Ip4} {srcPort dstPort : UInt16}
  {payload : List UInt8}

lemma networkWord_totalLength :
    networkWord (udpPacket destMac device destIp srcPort dstPort payload) 16 =
      20 + UInt16.ofNat (8 + payload.length) :=
  ntohs_le16_bytes _

lemma networkWord_udpLength :
    networkWord (udpPacket destMac device destIp srcPort dstPort payload) 38 =
      UInt16.ofNat payload.length + 8 := by
  have hword : le16 ((udpPacket destMac device destIp srcPort dstPort payload).getD 38 0)
      ((udpPacket destMac device destIp srcPort dstPort payload).getD (38 + 1) 0) =
        htons (UInt16.ofNat payload.length + 8) :=
    le16_bytes _
  rw [networkWord, hword, ntohs_htons]

lemma datagramFrame_udpPacket (hlen : payload.length ≤ 65493) :
    DatagramFrame (udpPacket destMac device destIp srcPort dstPort payload) payload := by
  refine ⟨length_udpPacket .., ?_, ?_, rfl⟩
  · have hword : (UInt16.ofNat (8 + payload.length)).toNat = 8 + payload.length := by
      rw [UInt16.toNat_ofNat', Nat.mod_eq_of_lt (by omega)]
    have hheader : (20 : UInt16).toNat = 20 := rfl
    rw [networkWord_totalLength, UInt16.toNat_add, hword, hheader, Nat.mod_eq_of_lt (by omega)]
    omega
  · have hword : (UInt16.ofNat payload.length).toNat = payload.length := by
      rw [UInt16.toNat_ofNat', Nat.mod_eq_of_lt (by omega)]
    have hheader : (8 : UInt16).toNat = 8 := rfl
    rw [networkWord_udpLength, UInt16.toNat_add, hword, hheader, Nat.mod_eq_of_lt (by omega)]
    omega

lemma datagramFrame_take_iff :
    DatagramFrame ((udpPacket destMac device destIp srcPort dstPort payload).take
      (UInt16.ofNat (ethHeaderLen + ipv4HeaderLen + udpHeaderLen + payload.length)).toNat)
        payload ↔ payload.length ≤ 65493 := by
  have htotal : (UInt16.ofNat (ethHeaderLen + ipv4HeaderLen + udpHeaderLen +
      payload.length)).toNat = (42 + payload.length) % 65536 :=
    UInt16.toNat_ofNat'
  rw [htotal]
  constructor
  · intro h
    have hlength := h.length
    rw [List.length_take] at hlength
    omega
  · intro hlen
    have hwhole : (42 + payload.length) % 65536 =
        (udpPacket destMac device destIp srcPort dstPort payload).length := by
      rw [length_udpPacket, Nat.mod_eq_of_lt (by omega)]
    rw [hwhole, List.take_length]
    exact datagramFrame_udpPacket hlen

end

def SameQueue (s s' : NetState) : Prop :=
  s'.arpPendingQueue = s.arpPendingQueue ∧ s'.arpPendingTail = s.arpPendingTail

/-- One frame is given to a device or, after an ARP request, put into the queue
of waiting packets. -/
inductive HandsOver (s s' : NetState) (frame : List UInt8) : Prop
  | transmitted (device : Device) (sent : s'.sent = s.sent ++ [⟨device, frame⟩])
      (queue : SameQueue s s')
  | queued (device : Device) (ip : Ip4) (packet : List UInt8) (len : UInt16)
      (sent : s'.sent = (arpSendRequest device ip s).sent)
      (queue : s'.arpPendingQueue = (arpPendingEnqueue packet len ip s).arpPendingQueue)
      (tail : s'.arpPendingTail = s.arpPendingTail + 1) (frame_eq : frame = packet.take len.toNat)

/-- A failed call transmits and queues nothing, another one hands over a
complete datagram and returns the length of its payload. -/
def SendConsistent (payload : List UInt8) (s : NetState) (result : NetState × ℤ) : Prop :=
  result.2 < 0 ∧ result.1.sent = s.sent ∧ SameQueue s result.1 ∨
    result.2 = payload.length ∧ ∃ frame, HandsOver s result.1 frame ∧ DatagramFrame frame payload

structure Routed (fds : ℕ → Option FileDescriptor) (fd : ℕ) (dest : NetAddr) (s : NetState)
    (sockfd : FileDescriptor) (route : RouteResult) : Prop where
  fd_lt : fd < procMaxFds
  sockfd_eq : fds fd = some sockfd
  isSocket : sockfd.mode &&& statIfmt = statIfsock
  route_eq : routeLookup s dest.ipv4 = some route

def nextHop (route : RouteResult) : Ip4 :=
  ip4ToBytes (ntohl route.nextHop)

/-- The socket has a port, or there is one left for it. -/
def HasPort (socket : ℕ) (s : NetState) : Prop :=
  ntohs (s.sockets socket).localAddr.port ≠ 0 ∨
    ∃ port : UInt16, ephemeralPortMin ≤ port.toNat ∧ s.udpPortTable port = none

section

variable {fds : ℕ → Option FileDescriptor} {fd : ℕ} {payload : List UInt8} {dest : NetAddr}
  {s s' : NetState} {sockfd : FileDescriptor} {route : RouteResult} {random : UInt32} {unset : Mac}

lemma getNextEphemeralPort_eq_none_iff :
    getNextEphemeralPort random s = none ↔
      ∀ port : UInt16, ephemeralPortMin ≤ port.toNat → s.udpPortTable port ≠ none := by
  simp only [getNextEphemeralPort, List.findSome?_eq_none_iff, List.mem_range, ephemeralPortMin,
    ephemeralPortMax, ite_eq_right_iff, reduceCtorEq, imp_false, Option.isNone_iff_eq_none]
  constructor
  · intro h port hport
    have hlt := port.toNat_lt
    have hport' : 49152 + (49152 + random.toNat % 16384 - 49152 +
        (port.toNat - 49152 + 16384 - random.toNat % 16384) % 16384) % 16384 = port.toNat := by
      omega
    have h' := h _ (Nat.mod_lt (port.toNat - 49152 + 16384 - random.toNat % 16384)
      (by decide : 0 < 16384))
    rwa [hport', UInt16.ofNat_toNat] at h'
  · intro h i _
    apply h
    rw [UInt16.toNat_ofNat', Nat.mod_eq_of_lt]
    · exact Nat.le_add_right _ _
    · have hi := Nat.mod_lt (49152 + random.toNat % 16384 - 49152 + i) (by decide : 0 < 16384)
      omega

lemma sourcePort_eq_none_iff {socket : ℕ} :
    sourcePort socket random s = none ↔ ¬ HasPort socket s := by
  rw [sourcePort, HasPort]
  split_ifs with hport
  · rw [Option.map_eq_none_iff, getNextEphemeralPort_eq_none_iff]
    simp [hport]
  · simp [hport]

lemma exists_sourcePort {socket : ℕ} (random : UInt32) (h : HasPort socket s) :
    ∃ s' port, sourcePort socket random s = some (s', port) := by
  obtain ⟨⟨s', port⟩, hsome⟩ := Option.ne_none_iff_exists'.mp
    (mt sourcePort_eq_none_iff.mp (not_not.mpr h))
  exact ⟨s', port, hsome⟩

variable {port : UInt16}

lemma eq_of_sourcePort {socket : ℕ} (h : sourcePort socket random s = some (s', port)) :
    s' = { s with sockets := s'.sockets, udpPortTable := s'.udpPortTable } := by
  rw [sourcePort] at h
  split_ifs at h with hport
  · obtain ⟨_, _, heq⟩ := Option.map_eq_some_iff.mp h
    cases heq
    rfl
  · cases h
    rfl

lemma sourcePort_frame {socket : ℕ} (h : sourcePort socket random s = some (s', port)) :
    s'.sent = s.sent ∧ SameQueue s s' := by
  rw [eq_of_sourcePort h]
  exact ⟨rfl, rfl, rfl⟩

lemma sysSendto_of_not_routed (h : ∀ sockfd route, ¬ Routed fds fd dest s sockfd route) :
    ∃ error < 0, sysSendto fds fd payload dest random unset s = (s, error) := by
  unfold sysSendto
  split_ifs with hfd
  · exact ⟨_, by decide, rfl⟩
  · cases hsockfd : fds fd with
    | none => exact ⟨_, by decide, rfl⟩
    | some sockfd =>
      dsimp only
      split_ifs with hsock
      · exact ⟨_, by decide, rfl⟩
      · cases hroute : routeLookup s dest.ipv4 with
        | none => exact ⟨_, by decide, rfl⟩
        | some route =>
          exact absurd ⟨not_le.mp hfd, hsockfd, not_not.mp hsock, hroute⟩ (h sockfd route)

lemma sysSendto_of_not_hasPort (h : Routed fds fd dest s sockfd route)
    (hport : ¬ HasPort sockfd.resource s) :
    sysSendto fds fd payload dest random unset s =
      ((arpLookup route.device (nextHop route) s).1, -eAddrinuse) := by
  have hnone : sourcePort sockfd.resource random
      (arpLookup route.device (nextHop route) s).1 = none := by
    rw [sourcePort_eq_none_iff, arpLookup]
    cases arpCacheLookup s (nextHop route) <;> exact hport
  simp only [nextHop] at hnone ⊢
  simp only [sysSendto, if_neg h.fd_lt.not_ge, h.sockfd_eq, h.isSocket, ne_eq, not_true_eq_false,
    if_false, h.route_eq, hnone]

def packetTo (mac : Mac) (route : RouteResult) (dest : NetAddr) (port : UInt16)
    (payload : List UInt8) : List UInt8 :=
  udpPacket mac route.device (ip4ToBytes (ntohl dest.ipv4)) port (ntohs dest.port) payload

def sendLen (payload : List UInt8) : UInt16 :=
  UInt16.ofNat (ethHeaderLen + ipv4HeaderLen + udpHeaderLen + payload.length)

lemma sysSendto_of_cached {mac : Mac} (h : Routed fds fd dest s sockfd route)
    (hmac : arpCacheLookup s (nextHop route) = some mac)
    (hport : sourcePort sockfd.resource random s = some (s', port)) :
    sysSendto fds fd payload dest random unset s =
      (s'.transmit route.device
        ((packetTo mac route dest port payload).take (sendLen payload).toNat),
        (payload.length : ℤ)) := by
  simp only [nextHop] at hmac
  simp only [sysSendto, if_neg h.fd_lt.not_ge, h.sockfd_eq, h.isSocket, ne_eq, not_true_eq_false,
    if_false, h.route_eq, arpLookup, hmac, hport, Option.getD_some, packetTo, sendLen]

lemma sysSendto_of_not_cached (h : Routed fds fd dest s sockfd route)
    (hmac : arpCacheLookup s (nextHop route) = none)
    (hport : sourcePort sockfd.resource random (arpSendRequest route.device (nextHop route) s) =
      some (s', port)) :
    sysSendto fds fd payload dest random unset s =
      (arpPendingEnqueue (packetTo unset route dest port payload) (sendLen payload)
        (nextHop route) s', (payload.length : ℤ)) := by
  simp only [nextHop] at hmac hport
  simp only [sysSendto, if_neg h.fd_lt.not_ge, h.sockfd_eq, h.isSocket, ne_eq, not_true_eq_false,
    if_false, h.route_eq, arpLookup, hmac, hport, Option.getD_none, packetTo, sendLen, nextHop]

/-! ## When the lengths are right -/

lemma add_one_ne_self (i : Fin arpPendingQueueSize) : i + 1 ≠ i := by
  decide +revert

lemma not_consistent_of_error {error : ℤ} (herror : error < 0) (h : s'.sent ≠ s.sent) :
    ¬ SendConsistent payload s (s', error) := by
  rintro (⟨_, hsent, _⟩ | ⟨hlen, _⟩)
  · exact h hsent
  · have hlen' : error = payload.length := hlen
    omega

lemma sendConsistent_of_cached_iff {mac : Mac}
    (hport : sourcePort sockfd.resource random s = some (s', port)) :
    SendConsistent payload s (s'.transmit route.device
      ((packetTo mac route dest port payload).take (sendLen payload).toNat),
      (payload.length : ℤ)) ↔ payload.length ≤ 65493 := by
  obtain ⟨hsent, hqueue, htail⟩ := sourcePort_frame hport
  rw [← datagramFrame_take_iff]
  constructor
  · rintro (⟨hneg, _⟩ | ⟨_, frame, hover, hframe⟩)
    · exact absurd hneg (Int.natCast_nonneg _).not_gt
    · cases hover with
      | transmitted device hsent' _ =>
        have heq : s.sent ++ [⟨route.device, (packetTo mac route dest port payload).take
            (sendLen payload).toNat⟩] = s.sent ++ [⟨device, frame⟩] := hsent ▸ hsent'
        have hsingle := List.singleton_inj.mp (List.append_cancel_left heq)
        obtain ⟨_, rfl⟩ := Transmission.mk.inj hsingle
        exact hframe
      | queued _ _ _ _ _ _ htail' _ =>
        have heq : s.arpPendingTail = s.arpPendingTail + 1 := htail.symm.trans htail'
        exact absurd heq.symm (add_one_ne_self _)
  · intro hframe
    exact .inr ⟨rfl, _, .transmitted route.device (congrArg (· ++ _) hsent) ⟨hqueue, htail⟩, hframe⟩

lemma sendConsistent_of_not_cached_iff
    (hport : sourcePort sockfd.resource random (arpSendRequest route.device (nextHop route) s) =
      some (s', port)) :
    SendConsistent payload s (arpPendingEnqueue (packetTo unset route dest port payload)
      (sendLen payload) (nextHop route) s', (payload.length : ℤ)) ↔ payload.length ≤ 65493 := by
  obtain ⟨hsent, hqueue, htail⟩ := sourcePort_frame hport
  have hqueue' : s'.arpPendingQueue = s.arpPendingQueue := hqueue
  have htail' : s'.arpPendingTail = s.arpPendingTail := htail
  have hset : (arpPendingEnqueue (packetTo unset route dest port payload) (sendLen payload)
      (nextHop route) s').arpPendingQueue = s.arpPendingQueue.set s.arpPendingTail
        ⟨packetTo unset route dest port payload, sendLen payload, nextHop route, true⟩ := by
    simp only [arpPendingEnqueue, hqueue', htail']
  rw [← datagramFrame_take_iff]
  constructor
  · rintro (⟨hneg, _⟩ | ⟨_, frame, hover, hframe⟩)
    · exact absurd hneg (Int.natCast_nonneg _).not_gt
    · cases hover with
      | transmitted _ _ hsame =>
        have heq : s.arpPendingTail + 1 = s.arpPendingTail := htail' ▸ hsame.2
        exact absurd heq (add_one_ne_self _)
      | queued _ ip packet len _ hset' _ hframe' =>
        have hslot := congrArg (fun q : Vector ArpPendingEntry arpPendingQueueSize =>
          q[s.arpPendingTail]) (hset.symm.trans hset')
        have hslot' : (⟨packetTo unset route dest port payload, sendLen payload, nextHop route,
            true⟩ : ArpPendingEntry) = ⟨packet, len, ip, true⟩ := by
          simpa [arpPendingEnqueue] using hslot
        obtain ⟨rfl, rfl, _⟩ := ArpPendingEntry.mk.inj hslot'
        rwa [hframe'] at hframe
  · intro hframe
    refine .inr ⟨rfl, _, .queued route.device (nextHop route) _ _ hsent hset ?_ rfl, hframe⟩
    exact congrArg (· + 1) htail'

/-- Either the socket gets a port and the payload has at most 65493 bytes, or
there is no port and the next hop is known. -/
def Sendable (payload : List UInt8) (sockfd : FileDescriptor) (route : RouteResult)
    (s : NetState) : Prop :=
  HasPort sockfd.resource s ∧ payload.length ≤ 65493 ∨
    ¬ HasPort sockfd.resource s ∧ arpCacheLookup s (nextHop route) ≠ none

/-- The lengths of a send are consistent exactly if the call fails its first
checks or is sendable. -/
theorem send_consistent_iff (fds : ℕ → Option FileDescriptor) (fd : ℕ) (payload : List UInt8)
    (dest : NetAddr) (random : UInt32) (unset : Mac) (s : NetState) :
    SendConsistent payload s (sysSendto fds fd payload dest random unset s) ↔
      ∀ sockfd route, Routed fds fd dest s sockfd route → Sendable payload sockfd route s := by
  by_cases hrouted : ∃ sockfd route, Routed fds fd dest s sockfd route
  · obtain ⟨sockfd, route, hrouted⟩ := hrouted
    have hunique : (∀ sockfd route, Routed fds fd dest s sockfd route →
        Sendable payload sockfd route s) ↔ Sendable payload sockfd route s := by
      refine ⟨fun h => h sockfd route hrouted, fun h sockfd' route' hrouted' => ?_⟩
      cases hrouted.sockfd_eq.symm.trans hrouted'.sockfd_eq
      cases hrouted.route_eq.symm.trans hrouted'.route_eq
      exact h
    rw [hunique, Sendable]
    cases hmac : arpCacheLookup s (nextHop route) with
    | some mac =>
      by_cases hport : HasPort sockfd.resource s
      · obtain ⟨s', port, hsome⟩ := exists_sourcePort random hport
        rw [sysSendto_of_cached hrouted hmac hsome, sendConsistent_of_cached_iff hsome]
        simp [hport]
      · rw [sysSendto_of_not_hasPort hrouted hport, arpLookup, hmac]
        simp only [hport, false_and, not_false_eq_true, ne_eq, reduceCtorEq, and_self, or_true,
          iff_true]
        exact .inl ⟨(by decide : -eAddrinuse < 0), rfl, rfl, rfl⟩
    | none =>
      by_cases hport : HasPort sockfd.resource s
      · obtain ⟨s', port, hsome⟩ := exists_sourcePort
          (s := arpSendRequest route.device (nextHop route) s) random hport
        rw [sysSendto_of_not_cached hrouted hmac hsome, sendConsistent_of_not_cached_iff hsome]
        simp [hport]
      · rw [sysSendto_of_not_hasPort hrouted hport, arpLookup, hmac]
        simp only [hport, false_and, not_true_eq_false, ne_eq, and_false, or_self, iff_false]
        apply not_consistent_of_error (by decide)
        simp [arpSendRequest, NetState.transmit]
  · have hnot : ∀ sockfd route, ¬ Routed fds fd dest s sockfd route := by
      intro sockfd route h
      exact hrouted ⟨sockfd, route, h⟩
    obtain ⟨error, herror, hcall⟩ := sysSendto_of_not_routed hnot
    rw [hcall]
    refine ⟨fun _ sockfd route h => absurd h (hnot sockfd route), fun _ => ?_⟩
    exact .inl ⟨herror, rfl, rfl, rfl⟩

theorem sent_empty_frame :
    sysSendto (fun _ => some ⟨statIfsock, 0⟩) 3 (List.replicate 65494 0)
        ⟨afIpv4, htons 7, le32 receiver.ip4⟩ 0 sender.mac connected =
        (connected.transmit sender [], 65494) ∧
      ¬ SendConsistent (List.replicate 65494 0) connected
        (sysSendto (fun _ => some ⟨statIfsock, 0⟩) 3 (List.replicate 65494 0)
          ⟨afIpv4, htons 7, le32 receiver.ip4⟩ 0 sender.mac connected) := by
  have hrouted : Routed (fun _ => some ⟨statIfsock, 0⟩) 3 ⟨afIpv4, htons 7, le32 receiver.ip4⟩
      connected ⟨statIfsock, 0⟩ ⟨le32 receiver.ip4, sender⟩ :=
    ⟨by decide, rfl, by decide, by decide +kernel⟩
  have hmac : arpCacheLookup connected (nextHop ⟨le32 receiver.ip4, sender⟩) =
      some receiver.mac := by
    decide +kernel
  have hport : sourcePort (⟨statIfsock, 0⟩ : FileDescriptor).resource 0 connected =
      some (connected, 7) := rfl
  have hlen : (List.replicate 65494 (0 : UInt8)).length = 65494 := List.length_replicate
  generalize List.replicate 65494 (0 : UInt8) = payload at hlen ⊢
  have hzero : (sendLen payload).toNat = 0 := by
    rw [sendLen, hlen]
    decide
  have hcall := @sysSendto_of_cached _ _ payload _ _ _ _ _ _ sender.mac _ _ hrouted hmac hport
  refine ⟨?_, ?_⟩
  · rw [hcall, hzero, List.take_zero, hlen]
    exact rfl
  · rw [hcall, sendConsistent_of_cached_iff hport, hlen]
    decide

end

end Cottage.Net
