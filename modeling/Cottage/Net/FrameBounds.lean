import Cottage.Net.Handlers

/-!
# Reads beyond the frame

Where the handlers read.  `net_handle_ipv4` compares the length of the frame
only with the 34 bytes of the two fixed headers; the start and the length of
the payload come from the header length and total length fields and are never
compared with it.
-/

namespace Cottage.Net

open ByteReader Reader

variable {packet : ℕ → UInt8} {device : Device} {s : NetState}

def headerLen (packet : ℕ → UInt8) : UInt8 :=
  (packet 14 &&& 0x0F) * 4

/-- The length of the payload that the frame claims, modulo `2 ^ 16`. -/
def payloadLen (packet : ℕ → UInt8) : UInt16 :=
  ntohs (le16 (packet 16) (packet 17)) - (headerLen packet).toUInt16

/-- The type and the code are in the frame, and for an echo request the whole
claimed payload. -/
def IcmpFits (packet : ℕ → UInt8) (payload : ℕ) (payloadLen : UInt16) (len : ℕ) : Prop :=
  payloadLen < 8 ∨ payload + 2 ≤ len ∧
    (packet payload = icmpEchoRequest → payload + payloadLen.toNat ≤ len)

instance (packet : ℕ → UInt8) (payload : ℕ) (payloadLen : UInt16) (len : ℕ) :
    Decidable (IcmpFits packet payload payloadLen len) :=
  inferInstanceAs (Decidable (_ ∨ _ ∧ (_ → _)))

/-- The two ports are in the frame, and if the datagram is delivered and not
empty the whole claimed payload. -/
def UdpFits (s : NetState) (packet : ℕ → UInt8) (payload : ℕ) (payloadLen : UInt16)
    (len : ℕ) : Prop :=
  payloadLen < 8 ∨ payload + 4 ≤ len ∧
    ∀ socket ∈ s.udpPortTable (ntohs (le16 (packet (payload + 2)) (packet (payload + 3)))),
      ¬ (s.sockets socket).pcb.recvQueue.IsFull →
        payloadLen.toNat = 8 ∨ payload + payloadLen.toNat ≤ len

instance (s : NetState) (packet : ℕ → UInt8) (payload : ℕ) (payloadLen : UInt16) (len : ℕ) :
    Decidable (UdpFits s packet payload payloadLen len) :=
  inferInstanceAs (Decidable (_ ∨ _ ∧ ∀ socket ∈ _, _))

def Ipv4Fits (device : Device) (s : NetState) (packet : ℕ → UInt8) (len : ℕ) : Prop :=
  len < 34 ∨ (packet 14 >>> 4) &&& 0x0F ≠ 4 ∨
    (Vector.ofFn fun i : Fin 4 => packet (30 + i)) ≠ device.ip4 ∨
    (packet 23 = ipProtoIcmp →
      IcmpFits packet (14 + (headerLen packet).toNat) (payloadLen packet) len) ∧
    (packet 23 = ipProtoUdp →
      UdpFits s packet (14 + (headerLen packet).toNat) (payloadLen packet) len)

instance (device : Device) (s : NetState) (packet : ℕ → UInt8) (len : ℕ) :
    Decidable (Ipv4Fits device s packet len) :=
  inferInstanceAs (Decidable (_ ∨ _ ∨ _ ∨ _ ∧ _))

def Fits (device : Device) (s : NetState) (packet : ℕ → UInt8) (len : ℕ) : Prop :=
  ethertype packet = 0x0800 → Ipv4Fits device s packet len

instance (device : Device) (s : NetState) (packet : ℕ → UInt8) (len : ℕ) :
    Decidable (Fits device s packet len) :=
  inferInstanceAs (Decidable (_ → _))

lemma within_netHandleArp (len : UInt16) :
    (netHandleArp device len s).Within packet len.toNat := by
  rw [netHandleArp]
  split_ifs with hlen
  · exact within_pure _
  · have hle : 42 ≤ len.toNat := UInt16.le_iff_toNat_le.mp (UInt16.not_lt.mp hlen)
    simp only [within_bind, within_read16, within_bytes, within_pure, and_true]
    omega

lemma within_netHandleIcmp {ip payload len : ℕ} {payloadLen : UInt16} (hip : ip + 16 ≤ len) :
    (netHandleIcmp device ip payload payloadLen s).Within packet len ↔
      IcmpFits packet payload payloadLen len := by
  rw [netHandleIcmp, IcmpFits]
  split_ifs with hshort
  · simp only [within_pure, hshort, true_or]
  · have hle : 8 ≤ payloadLen.toNat := UInt16.le_iff_toNat_le.mp (UInt16.not_lt.mp hshort)
    simp only [within_bind, within_read, run_read, hshort, false_or]
    by_cases htype : packet payload = icmpEchoRequest
    · simp only [htype, if_true, within_bind, within_bytes, within_pure, and_true, true_imp_iff]
      omega
    · simp only [htype, if_false, within_pure, and_true, false_imp_iff]
      omega

lemma within_netHandleUdp {ip payload len : ℕ} {payloadLen : UInt16} (hip : ip + 16 ≤ len) :
    (netHandleUdp ip payload payloadLen s).Within packet len ↔
      UdpFits s packet payload payloadLen len := by
  rw [netHandleUdp, UdpFits]
  split_ifs with hshort
  · simp only [within_pure, hshort, true_or]
  · have hle : 8 ≤ payloadLen.toNat := UInt16.le_iff_toNat_le.mp (UInt16.not_lt.mp hshort)
    simp only [within_bind, within_read16, run_read16, hshort, false_or]
    cases hsocket : s.udpPortTable (ntohs (le16 (packet (payload + 2)) (packet (payload + 2 + 1))))
      with
    | none =>
      simp only [within_pure, and_true, Option.mem_def, reduceCtorEq, false_imp_iff, implies_true]
      omega
    | some socket =>
      simp only [Option.mem_def, Option.some.injEq, forall_eq']
      split_ifs with hfull
      · simp only [within_pure, and_true, hfull, not_true_eq_false, false_imp_iff]
        omega
      · simp only [within_bind, within_bytes, within_read16, within_pure, and_true, hfull,
          not_false_eq_true, true_imp_iff]
        omega

lemma within_netHandleIpv4 (len : UInt16) :
    (netHandleIpv4 device len s).Within packet len.toNat ↔ Ipv4Fits device s packet len.toNat := by
  have hlt : len < 34 ↔ len.toNat < 34 := UInt16.lt_iff_toNat_lt
  rw [netHandleIpv4, Ipv4Fits]
  split_ifs with hlen
  · simp only [within_pure, hlt.mp hlen, true_or]
  · rw [hlt] at hlen
    have hversionIhl : 14 < len.toNat := by omega
    have hdestIp : 14 + 16 + 4 ≤ len.toNat := by omega
    have htotal : 14 + 2 + 1 < len.toNat := by omega
    have hsrcIp : 14 + 12 + 4 ≤ len.toNat := by omega
    have hprotocol : 14 + 9 < len.toNat := by omega
    simp only [ethHeaderLen, within_bind, within_read, run_read, hlen, false_or, hversionIhl,
      true_and, ne_eq, ite_not]
    by_cases hversion : (packet 14 >>> 4) &&& 0x0F = 4
    swap
    · simp only [hversion, if_false, within_pure, not_false_eq_true, true_or]
    simp only [hversion, if_true, within_bind, within_bytes, run_bytes, hdestIp, or_true, true_and,
      not_true_eq_false, false_or]
    by_cases hdest : (Vector.ofFn fun i : Fin 4 => packet (30 + i)) = device.ip4
    swap
    · simp only [hdest, if_false, within_pure, not_false_eq_true, true_or]
    simp only [hdest, if_true, within_bind, within_read16, run_read16, within_bytes, within_read,
      run_read, htotal, hsrcIp, hprotocol, or_true, true_and, not_true_eq_false, false_or]
    by_cases hicmp : packet 23 = ipProtoIcmp
    · have hudp : ipProtoIcmp ≠ ipProtoUdp := by decide
      simp only [hicmp, if_true, hudp, true_imp_iff, false_imp_iff, and_true]
      exact within_netHandleIcmp (by omega)
    · simp only [hicmp, if_false, false_imp_iff, true_and]
      by_cases hudp : packet 23 = ipProtoUdp
      · simp only [hudp, if_true, true_imp_iff]
        exact within_netHandleUdp (by omega)
      · simp only [hudp, if_false, within_pure, false_imp_iff]

/-- All reads of the handler are inside the frame exactly when the frame fits,
and then nothing the handler delivers, sends or stores depends on a byte that
is not in the frame. -/
theorem reads_inside_iff (packet : ℕ → UInt8) (device : Device) (len : UInt16) (s : NetState) :
    ((handler packet device len s).Within packet len.toNat ↔ Fits device s packet len.toNat) ∧
      (Fits device s packet len.toNat → ∀ packet' : ℕ → UInt8,
        (∀ i < len.toNat, packet' i = packet i) →
          (handler packet device len s).run packet' =
            (handler packet device len s).run packet) := by
  have hiff : (handler packet device len s).Within packet len.toNat ↔
      Fits device s packet len.toNat := by
    rw [handler, Fits]
    split_ifs with harp hipv4
    · have hother : ethertype packet ≠ 0x0800 := by
        rw [harp]
        decide
      exact ⟨fun _ h => absurd h hother, fun _ => within_netHandleArp len⟩
    · rw [within_netHandleIpv4]
      exact ⟨fun h _ => h, fun h => h hipv4⟩
    · exact ⟨fun _ h => absurd h hipv4, fun _ => within_pure _⟩
  refine ⟨hiff, ?_⟩
  intro hfits packet' hagree
  apply Reader.congr
  intro i hi
  exact hagree i (hiff.mpr hfits i hi)

/-! ## A frame without its payload -/

/-- A frame of 34 bytes that claims a datagram with a payload of one byte for
port 7, followed in the receive buffer by older bytes that end in `stale`. -/
def truncated (stale : UInt8) : ℕ → UInt8 :=
  fun i => ([0, 0, 0, 0, 0, 0, 0, 0, 0, 0, 0, 0, 0x08, 0x00,
    0x45, 0, 0, 29, 0, 0, 0, 0, 64, 17, 0, 0, 10, 0, 0, 1, 10, 0, 0, 2,
    0, 9, 0, 7, 0, 9, 0, 0, stale] : List UInt8).getD i 0

def delivered (stale : UInt8) : List (Option (List UInt8)) :=
  let s := (handler (truncated stale) receiver 34 listening).run (truncated stale)
  (s.sockets 0).pcb.recvQueue.toList.map (·.map (·.payload))

/-- Two frames of the same 34 bytes are read at offset 42, and the socket is
given the byte found there. -/
theorem stale_byte_delivered :
    (∀ i < 34, truncated 0xAA i = truncated 0xBB i) ∧
      42 ∈ (handler (truncated 0xAA) receiver 34 listening).reads (truncated 0xAA) ∧
      delivered 0xAA = [some [0xAA]] ∧ delivered 0xBB = [some [0xBB]] := by
  refine ⟨?_, ?_, ?_, ?_⟩ <;> decide +kernel

theorem reads_inside_of_whole_frame :
    Fits receiver listening (truncated 0xAA) (43 : UInt16).toNat ∧
      (handler (truncated 0xAA) receiver 43 listening).Within (truncated 0xAA)
        (43 : UInt16).toNat := by
  have hfits : Fits receiver listening (truncated 0xAA) (43 : UInt16).toNat := by decide +kernel
  exact ⟨hfits, (reads_inside_iff (truncated 0xAA) receiver 43 listening).1.mpr hfits⟩

end Cottage.Net
