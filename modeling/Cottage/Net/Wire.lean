import Cottage.Foundations.ByteReader
import Mathlib.Tactic.IntervalCases

/-!
# Byte order and headers

The byte-order conversions of `endian.h`, the internet checksum and the three
header builders of `network.c`.  A 16- or 32-bit field of a packed header is
read and written in the machine's order, least significant byte first, and
converted afterwards.  A builder returns the bytes it stores.
-/

namespace Cottage.Net

open ByteReader

abbrev Ip4 := Vector UInt8 4

abbrev Mac := Vector UInt8 6

/-! ## Byte order -/

def ntohs (netshort : UInt16) : UInt16 :=
  (netshort >>> 8) ||| (netshort <<< 8)

def htons (hostshort : UInt16) : UInt16 :=
  (hostshort >>> 8) ||| (hostshort <<< 8)

def ntohl (netlong : UInt32) : UInt32 :=
  ((netlong >>> 24) &&& (0xFF : UInt32)) ||| ((netlong >>> 8) &&& (0xFF00 : UInt32)) |||
    ((netlong <<< 8) &&& (0xFF0000 : UInt32)) ||| ((netlong <<< 24) &&& (0xFF000000 : UInt32))

def ip4ToBytes (ip : UInt32) : Ip4 :=
  #v[((ip >>> 24) &&& (0xFF : UInt32)).toUInt8, ((ip >>> 16) &&& (0xFF : UInt32)).toUInt8,
    ((ip >>> 8) &&& (0xFF : UInt32)).toUInt8, (ip &&& (0xFF : UInt32)).toUInt8]

def le16 (lo hi : UInt8) : UInt16 :=
  lo.toUInt16 ||| (hi.toUInt16 <<< 8)

def le32 (v : Ip4) : UInt32 :=
  v[0].toUInt32 ||| (v[1].toUInt32 <<< 8) ||| (v[2].toUInt32 <<< 16) ||| (v[3].toUInt32 <<< 24)

def bytes32 (x : UInt32) : Ip4 :=
  #v[x.toUInt8, (x >>> 8).toUInt8, (x >>> 16).toUInt8, (x >>> 24).toUInt8]

@[simp] lemma ntohs_htons (x : UInt16) : ntohs (htons x) = x := by
  apply UInt16.eq_of_toBitVec_eq
  simp only [ntohs, htons, UInt16.toBitVec_or, UInt16.toBitVec_shiftRight,
    UInt16.toBitVec_shiftLeft]
  apply BitVec.eq_of_getLsbD_eq
  intro i hi
  interval_cases i <;> simp

lemma le16_bytes (x : UInt16) : le16 x.toUInt8 (x >>> 8).toUInt8 = x := by
  apply UInt16.eq_of_toBitVec_eq
  simp only [le16, UInt16.toBitVec_or, UInt16.toBitVec_shiftLeft, UInt8.toBitVec_toUInt16,
    UInt16.toBitVec_toUInt8, UInt16.toBitVec_shiftRight]
  apply BitVec.eq_of_getLsbD_eq
  intro i hi
  interval_cases i <;> simp

lemma ntohs_le16_bytes (x : UInt16) :
    ntohs (le16 ((x >>> 8) &&& 0xFF).toUInt8 (x &&& 0xFF).toUInt8) = x := by
  apply UInt16.eq_of_toBitVec_eq
  simp only [ntohs, le16, UInt16.toBitVec_or, UInt16.toBitVec_shiftLeft, UInt8.toBitVec_toUInt16,
    UInt16.toBitVec_toUInt8, UInt16.toBitVec_shiftRight, UInt16.toBitVec_and]
  apply BitVec.eq_of_getLsbD_eq
  intro i hi
  interval_cases i <;> simp

lemma ip4ToBytes_ntohl (x : UInt32) : ip4ToBytes (ntohl x) = bytes32 x := by
  have hbyte (a b : UInt8) (h : ∀ i < 8, a.toBitVec.getLsbD i = b.toBitVec.getLsbD i) : a = b :=
    UInt8.eq_of_toBitVec_eq (BitVec.eq_of_getLsbD_eq h)
  simp only [ip4ToBytes, bytes32, Vector.mk.injEq, Array.mk.injEq, List.cons.injEq, and_true]
  refine ⟨?_, ?_, ?_, ?_⟩ <;> apply hbyte <;> intro i hi <;> interval_cases i <;> simp [ntohl]

lemma bytes32_le32 (v : Ip4) : bytes32 (le32 v) = v := by
  have hbyte (a b : UInt8) (h : ∀ i < 8, a.toBitVec.getLsbD i = b.toBitVec.getLsbD i) : a = b :=
    UInt8.eq_of_toBitVec_eq (BitVec.eq_of_getLsbD_eq h)
  apply Vector.ext
  intro j hj
  interval_cases j <;> apply hbyte <;> intro i hi <;> interval_cases i <;> simp [bytes32, le32]

/-! ## The checksum -/

/-- The first loop of `net_checksum`, over 16-bit words and a last odd byte. -/
def sumWords (sum : ℕ) : List UInt8 → ℕ
  | [] => sum
  | [b] => sum + b.toNat
  | lo :: hi :: rest => sumWords (sum + (le16 lo hi).toNat) rest

/-- The second loop of `net_checksum`. -/
def foldSum (sum : ℕ) : ℕ :=
  if sum >>> 16 = 0 then sum else foldSum ((sum &&& 0xFFFF) + (sum >>> 16))
termination_by sum
decreasing_by
  have hmask : sum &&& 0xFFFF = sum % 2 ^ 16 := Nat.and_two_pow_sub_one_eq_mod sum 16
  omega

/-- The data is at most 65535 bytes long, so the 32-bit sum does not overflow. -/
def netChecksum (data : List UInt8) : UInt16 :=
  ~~~ UInt16.ofNat (foldSum (sumWords 0 data))

/-! ## Headers -/

def ethHeaderLen : ℕ := 14

def ipv4HeaderLen : ℕ := 20

def udpHeaderLen : ℕ := 8

def ethBuildHeader (destMac srcMac : Mac) (ethertype : UInt16) : List UInt8 :=
  [destMac[0], destMac[1], destMac[2], destMac[3], destMac[4], destMac[5],
    srcMac[0], srcMac[1], srcMac[2], srcMac[3], srcMac[4], srcMac[5],
    ((ethertype >>> 8) &&& 0xFF).toUInt8, (ethertype &&& 0xFF).toUInt8]

/-- The header of `ipv4_build_header` with the given checksum. -/
def ipv4Header (srcIp destIp : Ip4) (protocol : UInt8) (totalLen : UInt16) (ttl : UInt8)
    (cksum : UInt16) : List UInt8 :=
  [0x45, 0x00, ((totalLen >>> 8) &&& 0xFF).toUInt8, (totalLen &&& 0xFF).toUInt8,
    0x00, 0x00, 0x40, 0x00, ttl, protocol,
    (cksum &&& 0xFF).toUInt8, ((cksum >>> 8) &&& 0xFF).toUInt8,
    srcIp[0], srcIp[1], srcIp[2], srcIp[3], destIp[0], destIp[1], destIp[2], destIp[3]]

def ipv4BuildHeader (srcIp destIp : Ip4) (protocol : UInt8) (payloadLen : UInt16)
    (ttl : UInt8) : List UInt8 :=
  let totalLen := 20 + payloadLen
  ipv4Header srcIp destIp protocol totalLen ttl
    (netChecksum (ipv4Header srcIp destIp protocol totalLen ttl 0))

def udpBuildHeader (srcPort dstPort payloadLen : UInt16) : List UInt8 :=
  let srcPortN := htons srcPort
  let destPortN := htons dstPort
  let payloadLenN := htons (payloadLen + 8)
  [srcPortN.toUInt8, (srcPortN >>> 8).toUInt8, destPortN.toUInt8, (destPortN >>> 8).toUInt8,
    payloadLenN.toUInt8, (payloadLenN >>> 8).toUInt8, 0, 0]

/-! ## Bytes in place -/

/-- The bytes of `l` stand at `offset`. -/
def Holds (source : ℕ → UInt8) (offset : ℕ) : List UInt8 → Prop
  | [] => True
  | b :: rest => source offset = b ∧ Holds source (offset + 1) rest

variable {source : ℕ → UInt8}

lemma holds_append {offset : ℕ} {l l' : List UInt8} :
    Holds source offset (l ++ l') ↔
      Holds source offset l ∧ Holds source (offset + l.length) l' := by
  induction l generalizing offset with
  | nil => exact ⟨fun h => ⟨trivial, h⟩, fun h => h.2⟩
  | cons b l ih =>
    have hlength : offset + 1 + l.length = offset + (b :: l).length := by
      rw [List.length_cons]
      omega
    rw [List.cons_append, Holds, Holds, ih, hlength, and_assoc]

lemma Holds.ofFn {offset : ℕ} {l : List UInt8} (h : Holds source offset l) {n : ℕ}
    (hn : l.length = n) : (Vector.ofFn fun i : Fin n => source (offset + i)).toList = l := by
  subst hn
  induction l generalizing offset with
  | nil => rfl
  | cons b l ih =>
    have htail := ih h.2
    rw [Vector.toList_ofFn] at htail ⊢
    have hshift (i : Fin l.length) : offset + (i.succ : Fin (l.length + 1)) = offset + 1 + i := by
      rw [Fin.val_succ]
      omega
    simp only [List.length_cons, List.ofFn_succ, hshift, htail]
    rw [← h.1]
    rfl

def read16 (offset : ℕ) : Reader UInt16 := do
  let lo ← Reader.read offset
  let hi ← Reader.read (offset + 1)
  pure (le16 lo hi)

@[simp] lemma run_read16 (offset : ℕ) :
    (read16 offset).run source = le16 (source offset) (source (offset + 1)) := by
  simp only [read16, Reader.run_bind, Reader.run_read, Reader.run_pure]

@[simp] lemma within_read16 {offset n : ℕ} :
    (read16 offset).Within source n ↔ offset + 1 < n := by
  simp only [read16, Reader.within_bind, Reader.within_read, Reader.within_pure, and_true]
  omega

end Cottage.Net
