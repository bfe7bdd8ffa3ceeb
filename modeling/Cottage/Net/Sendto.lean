import Cottage.Net.Handlers

/-!
# Sending a datagram

`sys_sendto` with the routing table lookup and the choice of a port for a
socket that has none, and what a receiver makes of the frame.  The builders
store addresses and ports in network order, `net_handle_ipv4` and
`net_handle_udp` take them apart again; the last theorem puts the two ends
together.
-/

namespace Cottage.Net

open ByteReader Reader

def routeFlagUp : UInt32 := 1

def routeFlagGateway : UInt32 := 2

/-- `__builtin_popcount` -/
def popcount (mask : UInt32) : ℕ :=
  (List.range 32).countP mask.toBitVec.getLsbD

structure RouteResult where
  nextHop : UInt32
  device : Device
  deriving DecidableEq, Repr

/-- One turn of the loop of `route_lookup`; the weight is −1 as long as there is
no match. -/
def betterRoute (destIp : UInt32) (best : ℤ × Option RouteEntry) (entry : RouteEntry) :
    ℤ × Option RouteEntry :=
  if entry.flags &&& routeFlagUp = 0 then best
  else if destIp &&& entry.subnetMask = entry.destNetwork then
    let maskHammingWeight := (popcount entry.subnetMask : ℤ)
    if maskHammingWeight > best.1 then (maskHammingWeight, some entry) else best
  else best

def routeLookup (s : NetState) (destIp : UInt32) : Option RouteResult :=
  (s.routeTable.toList.foldl (betterRoute destIp) (-1, none)).2.map fun entry =>
    { nextHop := if entry.flags &&& routeFlagGateway = 0 then destIp else entry.gateway
      device := entry.device }

def ephemeralPortMin : ℕ := 49152

def ephemeralPortMax : ℕ := 65535

/-- `random` is what `cpu_rdrand32` returns. -/
def getNextEphemeralPort (random : UInt32) (s : NetState) : Option UInt16 :=
  let range := ephemeralPortMax - ephemeralPortMin + 1
  let start := ephemeralPortMin + random.toNat % range
  (List.range range).findSome? fun i =>
    let port := UInt16.ofNat (ephemeralPortMin + (start - ephemeralPortMin + i) % range)
    if (s.udpPortTable port).isNone then some port else none

def sourcePort (socket : ℕ) (random : UInt32) (s : NetState) : Option (NetState × UInt16) :=
  let resource := s.sockets socket
  let port := ntohs resource.localAddr.port
  if port = 0 then
    (getNextEphemeralPort random s).map fun nextEphemeral =>
      ({ s with
        sockets := Function.update s.sockets socket { resource with
          localAddr := { resource.localAddr with port := htons nextEphemeral }
          state := .bound }
        udpPortTable := Function.update s.udpPortTable nextEphemeral (some socket) },
        nextEphemeral)
  else some (s, port)

structure FileDescriptor where
  mode : UInt32
  resource : ℕ
  deriving DecidableEq, Repr

def procMaxFds : ℕ := 256

def statIfmt : UInt32 := 0xf000

def statIfsock : UInt32 := 0xc000

def eBadf : ℤ := 9

def eInval : ℤ := 22

def eNosys : ℤ := 38

def eNotsock : ℤ := 88

def eAddrinuse : ℤ := 98

/-- The packet that `sys_sendto` builds; the lengths passed to the builders are
16 bits wide. -/
def udpPacket (destMac : Mac) (device : Device) (destIp : Ip4) (srcPort dstPort : UInt16)
    (payload : List UInt8) : List UInt8 :=
  ethBuildHeader destMac device.mac 0x0800 ++
    (ipv4BuildHeader device.ip4 destIp ipProtoUdp
        (UInt16.ofNat (udpHeaderLen + payload.length)) 64 ++
      (udpBuildHeader srcPort dstPort (UInt16.ofNat payload.length) ++ payload))

/-- `fds` is the table of the calling process, `random` what `cpu_rdrand32`
returns, and `unset` what is on the stack in `dest_mac` if the address is not
in the cache. -/
def sysSendto (fds : ℕ → Option FileDescriptor) (fd : ℕ) (payload : List UInt8) (dest : NetAddr)
    (random : UInt32) (unset : Mac) (s : NetState) : NetState × ℤ :=
  if fd ≥ procMaxFds then (s, -eInval)
  else
    match fds fd with
    | none => (s, -eBadf)
    | some sockfd =>
      if sockfd.mode &&& statIfmt ≠ statIfsock then (s, -eNotsock)
      else
        match routeLookup s dest.ipv4 with
        | none => (s, -eNosys)
        | some route =>
          let totalLen := ethHeaderLen + ipv4HeaderLen + udpHeaderLen + payload.length
          let nextHopBytes := ip4ToBytes (ntohl route.nextHop)
          let (s, destMac) := arpLookup route.device nextHopBytes s
          match sourcePort sockfd.resource random s with
          | none => (s, -eAddrinuse)
          | some (s, port) =>
            let packet := udpPacket (destMac.getD unset) route.device
              (ip4ToBytes (ntohl dest.ipv4)) port (ntohs dest.port) payload
            match destMac with
            | none =>
              (arpPendingEnqueue packet (UInt16.ofNat totalLen) nextHopBytes s, payload.length)
            | some _ =>
              (s.transmit route.device (packet.take (UInt16.ofNat totalLen).toNat), payload.length)

lemma length_udpPacket (destMac : Mac) (device : Device) (destIp : Ip4)
    (srcPort dstPort : UInt16) (payload : List UInt8) :
    (udpPacket destMac device destIp srcPort dstPort payload).length = 42 + payload.length := by
  simp only [udpPacket, ethBuildHeader, ipv4BuildHeader, ipv4Header, udpBuildHeader,
    List.length_append, List.length_cons, List.length_nil]
  omega

lemma sysSendto_of_hit {fds : ℕ → Option FileDescriptor} {fd : ℕ} {payload : List UInt8}
    {dest : NetAddr} {s : NetState} {sockfd : FileDescriptor} {route : RouteResult} {mac : Mac}
    (random : UInt32) (unset : Mac) (hlen : 42 + payload.length ≤ 65535) (hfd : fd < procMaxFds)
    (hsockfd : fds fd = some sockfd) (hsock : sockfd.mode &&& statIfmt = statIfsock)
    (hport : ntohs (s.sockets sockfd.resource).localAddr.port ≠ 0)
    (hroute : routeLookup s dest.ipv4 = some route)
    (hhit : arpCacheLookup s (ip4ToBytes (ntohl route.nextHop)) = some mac) :
    sysSendto fds fd payload dest random unset s =
      (s.transmit route.device
        (udpPacket mac route.device (ip4ToBytes (ntohl dest.ipv4))
          (ntohs (s.sockets sockfd.resource).localAddr.port) (ntohs dest.port) payload),
        (payload.length : ℤ)) := by
  have hfd' : ¬ fd ≥ procMaxFds := by omega
  have htotal : (UInt16.ofNat (ethHeaderLen + ipv4HeaderLen + udpHeaderLen +
      payload.length)).toNat = 42 + payload.length := by
    rw [UInt16.toNat_ofNat']
    exact Nat.mod_eq_of_lt (by simp only [ethHeaderLen, ipv4HeaderLen, udpHeaderLen]; omega)
  have hwhole : ∀ packet : List UInt8, packet.length = 42 + payload.length →
      packet.take (42 + payload.length) = packet := by
    intro packet h
    rw [← h, List.take_length]
  simp only [sysSendto, if_neg hfd', hsockfd, hsock, ne_eq, not_true_eq_false, if_false, hroute,
    arpLookup, hhit, sourcePort, hport, Option.getD_some, htotal]
  rw [hwhole _ (length_udpPacket ..)]

/-! ## What is received -/

section

variable {packet : ℕ → UInt8} {destMac : Mac} {device receiver : Device} {destIp : Ip4}
  {srcPort dstPort : UInt16} {payload : List UInt8} {s : NetState} {socket : ℕ}

lemma fields_of_udpPacket
    (hpacket : Holds packet 0 (udpPacket destMac device destIp srcPort dstPort payload)) :
    packet 14 = 0x45 ∧
      ntohs (le16 (packet 16) (packet 17)) = 20 + UInt16.ofNat (8 + payload.length) ∧
      packet 23 = ipProtoUdp ∧
      (Vector.ofFn fun i : Fin 4 => packet (26 + i)) = device.ip4 ∧
      (Vector.ofFn fun i : Fin 4 => packet (30 + i)) = destIp ∧
      le16 (packet 34) (packet 35) = htons srcPort ∧
      le16 (packet 36) (packet 37) = htons dstPort ∧ Holds packet 42 payload := by
  rw [udpPacket, holds_append, holds_append, holds_append] at hpacket
  obtain ⟨_, hip, hudp, hpayload⟩ := hpacket
  have hip' : Holds packet 14 (ipv4BuildHeader device.ip4 destIp ipProtoUdp
      (UInt16.ofNat (udpHeaderLen + payload.length)) 64) := hip
  have hudp' : Holds packet 34 (udpBuildHeader srcPort dstPort (UInt16.ofNat payload.length)) :=
    hudp
  have hpayload' : Holds packet 42 payload := hpayload
  obtain ⟨h14, _, h16, h17, _, _, _, _, _, h23, _, _, h26, h27, h28, h29, h30, h31, h32, h33, _⟩ :=
    hip'
  obtain ⟨h34, h35, h36, h37, _⟩ := hudp'
  refine ⟨h14, ?_, h23, ?_, ?_, ?_, ?_, hpayload'⟩
  · rw [h16, h17]
    exact ntohs_le16_bytes _
  · apply Vector.ext
    intro i hi
    rw [Vector.getElem_ofFn]
    interval_cases i <;> assumption
  · apply Vector.ext
    intro i hi
    rw [Vector.getElem_ofFn]
    interval_cases i <;> assumption
  · rw [h34, h35]
    exact le16_bytes _
  · rw [h36, h37]
    exact le16_bytes _

lemma run_netHandleUdp (ip start : ℕ) {payloadLen : UInt16}
    (hlen : payloadLen.toNat = 8 + payload.length) (hdata : Holds packet (start + 8) payload)
    (hsocket : s.udpPortTable (ntohs (le16 (packet (start + 2)) (packet (start + 2 + 1)))) =
      some socket)
    (hroom : ¬ (s.sockets socket).pcb.recvQueue.IsFull) :
    (netHandleUdp ip start payloadLen s).run packet =
      s.deliver socket
        ⟨⟨afIpv4, le16 (packet start) (packet (start + 1)),
          le32 (Vector.ofFn fun i => packet (ip + 12 + i))⟩, payload.length, payload⟩ := by
  have hlong : ¬ payloadLen < 8 := by
    have hmin : (8 : UInt16).toNat = 8 := rfl
    rw [UInt16.lt_iff_toNat_lt]
    omega
  have hlen' : payloadLen.toNat - 8 = payload.length := by omega
  have hpayload := hdata.ofFn hlen'.symm
  rw [netHandleUdp, if_neg hlong]
  simp only [run_bind, run_read16, hsocket, if_neg hroom, run_bytes, run_pure, hpayload, hlen']

lemma netHandleIpv4_udpPacket
    (hpacket : Holds packet 0 (udpPacket destMac device destIp srcPort dstPort payload))
    (hlen : 42 + payload.length ≤ 65535) (hip : receiver.ip4 = destIp)
    (hsocket : s.udpPortTable dstPort = some socket)
    (hroom : ¬ (s.sockets socket).pcb.recvQueue.IsFull) :
    (netHandleIpv4 receiver (UInt16.ofNat (42 + payload.length)) s).run packet =
      s.deliver socket ⟨⟨afIpv4, htons srcPort, le32 device.ip4⟩, payload.length, payload⟩ := by
  obtain ⟨h14, htotal, h23, hsrc, hdest, hsrcPort, hdstPort, hpayload⟩ :=
    fields_of_udpPacket hpacket
  have hlen' : ¬ UInt16.ofNat (42 + payload.length) < 34 := by
    rw [UInt16.lt_iff_toNat_lt, UInt16.toNat_ofNat', Nat.mod_eq_of_lt (by omega)]
    have hmin : (34 : UInt16).toNat = 34 := rfl
    omega
  have hversion : (packet 14 >>> 4) &&& 0x0F = 4 := by
    rw [h14]
    decide
  have hheader : (packet 14 &&& 0x0F) * 4 = 20 := by
    rw [h14]
    decide
  have hpayloadLen : ntohs (le16 (packet 16) (packet 17)) - (20 : UInt8).toUInt16 =
      UInt16.ofNat (8 + payload.length) := by
    rw [htotal, UInt16.add_comm]
    exact UInt16.add_sub_cancel _ _
  have hicmp : ipProtoUdp ≠ ipProtoIcmp := by decide
  have hmod : (UInt16.ofNat (8 + payload.length)).toNat = 8 + payload.length := by
    rw [UInt16.toNat_ofNat', Nat.mod_eq_of_lt (by omega)]
  have hport : s.udpPortTable (ntohs (le16 (packet 36) (packet 37))) = some socket := by
    rw [hdstPort, ntohs_htons, hsocket]
  rw [netHandleIpv4, if_neg hlen']
  simp only [ethHeaderLen, run_bind, run_read, run_bytes, run_read16, hversion, hheader, hdest, hip,
    ne_eq, not_true_eq_false, if_false, h23, hicmp, if_true]
  have hudp := run_netHandleUdp 14 34 hmod hpayload hport hroom
  simp only [hsrcPort, hsrc] at hudp
  rw [← hudp, ← hpayloadLen]
  rfl

end

/-! ## The round trip -/

/-- The datagram that a send on a socket with local port `port` makes at the
other end. -/
def datagramFrom (device : Device) (port : UInt16) (payload : List UInt8) : Datagram :=
  ⟨⟨afIpv4, htons port, le32 device.ip4⟩, payload.length, payload⟩

/-- A send on a bound socket, to an address whose next hop is in the cache, hands
one frame to the device; and a device that receives the frame puts the payload
into the queue of the socket at the port, with the address of the sender. -/
theorem datagram_round_trip {fds : ℕ → Option FileDescriptor} {fd : ℕ} {payload : List UInt8}
    {dest : NetAddr} {s : NetState} {sockfd : FileDescriptor} {route : RouteResult} {mac : Mac}
    (random : UInt32) (unset : Mac) (hlen : 42 + payload.length ≤ 65535) (hfd : fd < procMaxFds)
    (hsockfd : fds fd = some sockfd) (hsock : sockfd.mode &&& statIfmt = statIfsock)
    (hport : ntohs (s.sockets sockfd.resource).localAddr.port ≠ 0)
    (hroute : routeLookup s dest.ipv4 = some route)
    (hhit : arpCacheLookup s (ip4ToBytes (ntohl route.nextHop)) = some mac) :
    ∃ frame : List UInt8,
      sysSendto fds fd payload dest random unset s =
        (s.transmit route.device frame, (payload.length : ℤ)) ∧
      frame.length = 42 + payload.length ∧
      ∀ (receiver : Device) (s' : NetState) (socket : ℕ) (packet : ℕ → UInt8),
        receiver.ip4 = bytes32 dest.ipv4 → s'.udpPortTable (ntohs dest.port) = some socket →
        ¬ (s'.sockets socket).pcb.recvQueue.IsFull → Holds packet 0 frame →
        let s'' := (netHandleIpv4 receiver (UInt16.ofNat frame.length) s').run packet
        let datagram := datagramFrom route.device
          (ntohs (s.sockets sockfd.resource).localAddr.port) payload
        (s''.sockets socket).pcb.recvQueue.toList =
            (s'.sockets socket).pcb.recvQueue.toList ++ [some datagram] ∧
          (∀ other ≠ socket, s''.sockets other = s'.sockets other) ∧
          bytes32 datagram.remoteAddr.ipv4 = route.device.ip4 ∧ s''.sent = s'.sent := by
  refine ⟨_, sysSendto_of_hit random unset hlen hfd hsockfd hsock hport hroute hhit,
    length_udpPacket .., ?_⟩
  intro receiver s' socket packet hip hsocket hroom hpacket
  rw [← ip4ToBytes_ntohl] at hip
  have hrun := netHandleIpv4_udpPacket hpacket hlen hip hsocket hroom
  rw [length_udpPacket]
  rw [hrun]
  refine ⟨?_, ?_, bytes32_le32 _, rfl⟩
  · rw [deliver_sockets_self]
    exact IndexRing.Ring.toList_push _ hroom
  · intro other hother
    exact deliver_sockets_of_ne s' _ hother

def connected : NetState :=
  { listening with
    arpCache := listening.arpCache.set 0 ⟨receiver.ip4, receiver.mac⟩
    routeTable := listening.routeTable.set 0 ⟨0, 0, 0, sender, routeFlagUp⟩ }

theorem datagram_round_trip_three_bytes :
    ∃ frame : List UInt8,
      sysSendto (fun _ => some ⟨statIfsock, 0⟩) 3 [1, 2, 3] ⟨afIpv4, htons 7, le32 receiver.ip4⟩ 0
          sender.mac connected = (connected.transmit sender frame, 3) ∧
        ∀ packet, Holds packet 0 frame →
          (((netHandleIpv4 receiver (UInt16.ofNat frame.length) listening).run packet).sockets
            0).pcb.recvQueue.toList = [some (datagramFrom sender 7 [1, 2, 3])] := by
  obtain ⟨frame, hsend, _, hreceive⟩ := @datagram_round_trip (fun _ => some ⟨statIfsock, 0⟩) 3
    [1, 2, 3] ⟨afIpv4, htons 7, le32 receiver.ip4⟩ connected ⟨statIfsock, 0⟩
    ⟨le32 receiver.ip4, sender⟩ receiver.mac 0 sender.mac (by decide) (by decide) rfl (by decide)
    (by decide) (by decide +kernel) (by decide +kernel)
  refine ⟨frame, hsend, ?_⟩
  intro packet hpacket
  exact (hreceive receiver listening 0 packet (by decide) (by decide) (by decide) hpacket).1

end Cottage.Net
