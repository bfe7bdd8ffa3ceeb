import Cottage.Net.Checksum
import Cottage.Net.FrameBounds

/-!
# Echo replies

What `net_handle_icmp` sends for an echo request.  The request may have IP
options, so its ICMP message starts at an offset that the header length field
gives; the reply has none.  The reply goes back to the sender of the frame with
valid checksums in both headers and the rest of the message as it came.
-/

namespace Cottage.Net

open ByteReader Reader

variable {device : Device} {packet : ℕ → UInt8} {len : UInt16} {s : NetState}

def bytesAt (packet : ℕ → UInt8) (offset n : ℕ) : List UInt8 :=
  (Vector.ofFn fun i : Fin n => packet (offset + i)).toList

def field (frame : List UInt8) (offset n : ℕ) : List UInt8 :=
  (frame.drop offset).take n

def totalLen (packet : ℕ → UInt8) : UInt16 :=
  ntohs (le16 (packet 16) (packet 17))

def icmpStart (packet : ℕ → UInt8) : ℕ :=
  14 + (headerLen packet).toNat

def icmpLen (packet : ℕ → UInt8) : ℕ :=
  (totalLen packet).toNat - (headerLen packet).toNat

/-- A well-formed IPv4 packet for the device with an ICMP echo request. -/
structure EchoRequest (device : Device) (packet : ℕ → UInt8) (len : UInt16) : Prop where
  version : (packet 14 >>> 4) &&& 0x0F = 4
  ihl : 5 ≤ (packet 14 &&& 0x0F).toNat
  header : (headerLen packet).toNat + 8 ≤ (totalLen packet).toNat
  total : 14 + (totalLen packet).toNat ≤ len.toNat
  reply : 34 + icmpLen packet ≤ 65535
  destIp : bytesAt packet 30 4 = device.ip4.toList
  protocol : packet 23 = ipProtoIcmp
  type : packet (icmpStart packet) = icmpEchoRequest

structure Answers (device : Device) (packet : ℕ → UInt8) (frame : List UInt8) : Prop where
  length : frame.length = 34 + icmpLen packet
  destMac : field frame 0 6 = bytesAt packet 6 6
  srcMac : field frame 6 6 = device.mac.toList
  ethertype : field frame 12 2 = [0x08, 0x00]
  versionIhl : field frame 14 1 = [0x45]
  totalLen : field frame 16 2 =
    [UInt8.ofNat ((20 + icmpLen packet) / 256), UInt8.ofNat ((20 + icmpLen packet) % 256)]
  protocol : field frame 23 1 = [ipProtoIcmp]
  srcIp : field frame 26 4 = device.ip4.toList
  destIp : field frame 30 4 = bytesAt packet 26 4
  ipSum : onesSum (field frame 14 20) = 0xFFFF
  typeCode : field frame 34 2 = [icmpEchoReply, 0]
  idSequence : field frame 38 4 = bytesAt packet (icmpStart packet + 4) 4
  data : frame.drop 42 = bytesAt packet (icmpStart packet + 8) (icmpLen packet - 8)
  icmpSum : onesSum (frame.drop 34) = 0xFFFF

lemma onesSum_ipv4BuildHeader (srcIp destIp : Ip4) (protocol : UInt8) (payloadLen : UInt16)
    (ttl : UInt8) : onesSum (ipv4BuildHeader srcIp destIp protocol payloadLen ttl) = 0xFFFF := by
  apply onesSum_of_netChecksum_eq_zero
  exact netChecksum_filled [0x45, 0x00, (((20 + payloadLen) >>> 8) &&& 0xFF).toUInt8,
    ((20 + payloadLen) &&& 0xFF).toUInt8, 0x00, 0x00, 0x40, 0x00, ttl, protocol]
    [srcIp[0], srcIp[1], srcIp[2], srcIp[3], destIp[0], destIp[1], destIp[2], destIp[3]] ⟨5, rfl⟩

lemma onesSum_icmpReply (id sequence : Vector UInt8 2) (data : List UInt8) :
    onesSum (icmpReply id sequence data) = 0xFFFF := by
  apply onesSum_of_netChecksum_eq_zero
  exact netChecksum_filled [icmpEchoReply, 0] (id.toList ++ sequence.toList ++ data) ⟨1, rfl⟩

lemma EchoRequest.toNat_payloadLen (h : EchoRequest device packet len) :
    (payloadLen packet).toNat = icmpLen packet := by
  have hheader := h.header
  have hle : (headerLen packet).toUInt16 ≤ totalLen packet := by
    rw [UInt16.le_iff_toNat_le, UInt8.toNat_toUInt16]
    omega
  rw [payloadLen, icmpLen, ← totalLen, UInt16.toNat_sub_of_le _ _ hle, UInt8.toNat_toUInt16]

lemma run_netHandleIcmp (ip start : ℕ) {payloadLen : UInt16} (hlong : ¬ payloadLen < 8)
    (htype : packet start = icmpEchoRequest) :
    (netHandleIcmp device ip start payloadLen s).run packet = s.transmit device
      (echoReply device (Vector.ofFn fun i => packet (6 + i))
        (Vector.ofFn fun i => packet (ip + 12 + i)) payloadLen
        (Vector.ofFn fun i => packet (start + 4 + i)) (Vector.ofFn fun i => packet (start + 6 + i))
        (bytesAt packet (start + 8) (payloadLen.toNat - 8))) := by
  rw [netHandleIcmp, if_neg hlong]
  simp only [run_bind, run_read, htype, if_true, run_bytes, run_pure, bytesAt]

lemma run_netHandleIpv4_of_echoRequest (h : EchoRequest device packet len) :
    (netHandleIpv4 device len s).run packet = s.transmit device
      (echoReply device (Vector.ofFn fun i => packet (6 + i)) (Vector.ofFn fun i => packet (26 + i))
        (payloadLen packet) (Vector.ofFn fun i => packet (icmpStart packet + 4 + i))
        (Vector.ofFn fun i => packet (icmpStart packet + 6 + i))
        (bytesAt packet (icmpStart packet + 8) ((payloadLen packet).toNat - 8))) := by
  have htotal := h.total
  have hheader := h.header
  have hpayloadLen := h.toNat_payloadLen
  have hlen : ¬ len < 34 := by
    have hihl := h.ihl
    have hbound : 20 ≤ (headerLen packet).toNat := by
      have hlt : (packet 14 &&& 0x0F).toNat < 16 := by
        rw [UInt8.toNat_and]
        exact Nat.and_lt_two_pow (n := 4) _ (by decide)
      rw [headerLen, UInt8.toNat_mul]
      change 20 ≤ (packet 14 &&& 0x0F).toNat * 4 % 256
      omega
    have hmin : (34 : UInt16).toNat = 34 := rfl
    rw [UInt16.lt_iff_toNat_lt]
    omega
  have hdest : (Vector.ofFn fun i : Fin 4 => packet (14 + 16 + i)) = device.ip4 :=
    Vector.toList_inj.mp h.destIp
  have hlong : ¬ payloadLen packet < 8 := by
    have hmin : (8 : UInt16).toNat = 8 := rfl
    rw [UInt16.lt_iff_toNat_lt, hpayloadLen, icmpLen]
    omega
  rw [netHandleIpv4, if_neg hlen]
  simp only [ethHeaderLen, run_bind, run_read, run_bytes, run_read16, h.version, hdest, ne_eq,
    not_true_eq_false, if_false, h.protocol, if_true]
  exact run_netHandleIcmp 14 (icmpStart packet) hlong h.type

/-! ## The frame -/

lemma length_bytesAt (packet : ℕ → UInt8) (offset n : ℕ) :
    (bytesAt packet offset n).length = n :=
  Vector.length_toList

lemma length_icmpReply (id sequence : Vector UInt8 2) (data : List UInt8) :
    (icmpReply id sequence data).length = 8 + data.length := by
  simp only [icmpReply, icmpMessage, List.length_append, List.length_cons, List.length_nil,
    Vector.length_toList]

lemma echoReply_eq {payloadLen : UInt16} {data : List UInt8} (srcMac : Mac) (srcIp : Ip4)
    (id sequence : Vector UInt8 2) (hdata : 8 + data.length = payloadLen.toNat)
    (hlen : 34 + payloadLen.toNat ≤ 65535) :
    echoReply device srcMac srcIp payloadLen id sequence data =
      ethBuildHeader srcMac device.mac 0x0800 ++
        (ipv4BuildHeader device.ip4 srcIp ipProtoIcmp payloadLen 64 ++
          icmpReply id sequence data) := by
  have hsum : (34 + payloadLen).toNat = 34 + payloadLen.toNat := by
    rw [UInt16.toNat_add]
    exact Nat.mod_eq_of_lt (by change 34 + _ < _; omega)
  rw [echoReply, List.append_assoc, hsum, List.take_of_length_le]
  · rfl
  · simp only [List.length_append, length_icmpReply, ethBuildHeader, ipv4BuildHeader, ipv4Header,
      List.length_cons, List.length_nil]
    omega

lemma totalLen_bytes {payloadLen : UInt16} (hlen : 20 + payloadLen.toNat < 65536) :
    [(((20 + payloadLen) >>> 8) &&& 0xFF).toUInt8, ((20 + payloadLen) &&& 0xFF).toUInt8] =
      [UInt8.ofNat ((20 + payloadLen.toNat) / 256),
        UInt8.ofNat ((20 + payloadLen.toNat) % 256)] := by
  have hsum : (20 + payloadLen).toNat = 20 + payloadLen.toNat := by
    rw [UInt16.toNat_add]
    exact Nat.mod_eq_of_lt hlen
  have hbytes := checksumBytes_eq (20 + payloadLen)
  simp only [checksumBytes, List.cons.injEq, and_true, hsum] at hbytes
  rw [hbytes.1, hbytes.2]

lemma toList_eq_ofFn {n : ℕ} (v : Vector UInt8 n) :
    v.toList = (Vector.ofFn fun i : Fin n => v.get i).toList :=
  congrArg Vector.toList Vector.ofFn_getElem.symm

lemma answers_of_echoRequest (h : EchoRequest device packet len) :
    Answers device packet
      (echoReply device (Vector.ofFn fun i => packet (6 + i)) (Vector.ofFn fun i => packet (26 + i))
        (payloadLen packet) (Vector.ofFn fun i => packet (icmpStart packet + 4 + i))
        (Vector.ofFn fun i => packet (icmpStart packet + 6 + i))
        (bytesAt packet (icmpStart packet + 8) ((payloadLen packet).toNat - 8))) := by
  have hlen := h.toNat_payloadLen
  have hreply := h.reply
  have hheader := h.header
  have hdata : 8 + (bytesAt packet (icmpStart packet + 8)
      ((payloadLen packet).toNat - 8)).length = (payloadLen packet).toNat := by
    rw [length_bytesAt, hlen, icmpLen]
    omega
  rw [echoReply_eq _ _ _ _ hdata (by omega), hlen]
  refine ⟨?_, ?_, ?_, ?_, ?_, ?_, ?_, ?_, ?_, ?_, ?_, ?_, ?_, ?_⟩
  · simp only [List.length_append, length_icmpReply, ethBuildHeader, ipv4BuildHeader, ipv4Header,
      List.length_cons, List.length_nil, length_bytesAt]
    omega
  · rfl
  · rw [toList_eq_ofFn]
    rfl
  · rfl
  · rfl
  · rw [← hlen]
    exact totalLen_bytes (by omega)
  · rfl
  · rw [toList_eq_ofFn]
    rfl
  · rfl
  · exact onesSum_ipv4BuildHeader _ _ _ _ _
  · rfl
  · rfl
  · rfl
  · exact onesSum_icmpReply _ _ _

/-- An echo request makes `net_handle_ipv4` transmit the reply and nothing
else. -/
theorem echo_request_answered (h : EchoRequest device packet len) (s : NetState) :
    ∃ frame, (netHandleIpv4 device len s).run packet = s.transmit device frame ∧
      Answers device packet frame :=
  ⟨_, run_netHandleIpv4_of_echoRequest h, answers_of_echoRequest h⟩

def pingWithOptions : ℕ → UInt8 :=
  fun i => ([2, 2, 2, 2, 2, 2, 1, 1, 1, 1, 1, 1, 0x08, 0x00,
    0x46, 0, 0, 35, 0, 0, 0, 0, 64, 1, 0, 0, 10, 0, 0, 1, 10, 0, 0, 2, 1, 1, 1, 1,
    8, 0, 0, 0, 0x12, 0x34, 0, 1, 0xAB, 0xCD, 0xEF] : List UInt8).getD i 0

theorem echo_request_answered_with_options :
    EchoRequest receiver pingWithOptions 49 ∧
      ∃ frame, (netHandleIpv4 receiver 49 listening).run pingWithOptions =
        listening.transmit receiver frame ∧ Answers receiver pingWithOptions frame := by
  have hrequest : EchoRequest receiver pingWithOptions 49 := by
    constructor <;> decide +kernel
  exact ⟨hrequest, echo_request_answered hrequest listening⟩

end Cottage.Net
