import Cottage.Foundations.OnesComplement
import Cottage.Net.Wire

/-!
# The internet checksum

`net_checksum` adds 16-bit words in the machine's order into 32 bits, folds the
carries back and complements the result.  RFC 1071 adds the words in network
order with an end-around carry.  Both sums have the same value up to a swap of
the two bytes, since exchanging the bytes of a word multiplies it by 256 modulo
65535.
-/

namespace Cottage.Net

open OnesComplement

def sumWords32 (sum : UInt32) : List UInt8 → UInt32
  | [] => sum
  | [b] => sum + b.toUInt32
  | lo :: hi :: rest => sumWords32 (sum + (le16 lo hi).toUInt32) rest

/-- The second loop of `net_checksum`, with at most `fuel` tests of its
condition. -/
def foldSum32 : ℕ → UInt32 → Option UInt32
  | 0, _ => none
  | fuel + 1, sum =>
    if sum >>> 16 = 0 then some sum
    else foldSum32 fuel ((sum &&& (0xFFFF : UInt32)) + (sum >>> 16))

def netChecksum32 (fuel : ℕ) (data : List UInt8) : Option UInt16 :=
  (foldSum32 fuel (sumWords32 0 data)).map fun sum => (~~~ sum).toUInt16

def checksumBytes (cksum : UInt16) : List UInt8 :=
  [(cksum &&& 0xFF).toUInt8, ((cksum >>> 8) &&& 0xFF).toUInt8]

/-- The words of a buffer in network order; a last odd byte is padded with
zero. -/
def bigEndianWords : List UInt8 → List ℕ
  | [] => []
  | [b] => [b.toNat * 256]
  | hi :: lo :: rest => (hi.toNat * 256 + lo.toNat) :: bigEndianWords rest

def onesSum (data : List UInt8) : ℕ :=
  OnesComplement.sum (2 ^ 16) (bigEndianWords data)

def rfc1071 (data : List UInt8) : ℕ :=
  0xFFFF - onesSum data

/-- The words that `net_checksum` adds. -/
def littleEndianWords : List UInt8 → List ℕ
  | [] => []
  | [b] => [b.toNat]
  | lo :: hi :: rest => (lo.toNat + hi.toNat * 256) :: littleEndianWords rest

lemma toNat_le16 (lo hi : UInt8) : (le16 lo hi).toNat = lo.toNat + hi.toNat * 256 := by
  have hlo := lo.toNat_lt
  have hhi := hi.toNat_lt
  have hshift : hi.toNat <<< 8 = 2 ^ 8 * hi.toNat := by
    rw [Nat.shiftLeft_eq, Nat.mul_comm]
  have hor : lo.toNat ||| 2 ^ 8 * hi.toNat = 2 ^ 8 * hi.toNat + lo.toNat := by
    rw [Nat.or_comm]
    exact (Nat.two_pow_add_eq_or_of_lt hlo hi.toNat).symm
  have hword : (le16 lo hi).toNat = lo.toNat ||| (hi.toNat <<< 8) % 2 ^ 16 := by
    simp [le16]
  rw [hword, Nat.mod_eq_of_lt (by rw [hshift]; omega), hshift, hor]
  omega

lemma sumWords_eq (sum : ℕ) (data : List UInt8) :
    sumWords sum data = sum + (littleEndianWords data).sum := by
  induction sum, data using sumWords.induct with
  | case1 sum => simp [sumWords, littleEndianWords]
  | case2 sum b => simp [sumWords, littleEndianWords]
  | case3 sum lo hi rest ih =>
    rw [sumWords, ih, littleEndianWords, List.sum_cons, toNat_le16, Nat.add_assoc]

lemma sum_littleEndianWords_le (data : List UInt8) :
    2 * (littleEndianWords data).sum ≤ 0xFFFF * (data.length + 1) := by
  induction data using littleEndianWords.induct with
  | case1 => simp [littleEndianWords]
  | case2 b =>
    have hb := b.toNat_lt
    simp only [littleEndianWords, List.sum_singleton, List.length_singleton]
    omega
  | case3 lo hi rest ih =>
    have hlo := lo.toNat_lt
    have hhi := hi.toNat_lt
    simp only [littleEndianWords, List.sum_cons, List.length_cons]
    omega

variable {data : List UInt8} {sum : UInt32}

lemma sumWords_lt (hlen : data.length ≤ 0xFFFF) : sumWords 0 data < 2 ^ 32 := by
  have hle := sum_littleEndianWords_le data
  rw [sumWords_eq]
  omega

lemma toNat_sumWords32 (hlt : sumWords sum.toNat data < 2 ^ 32) :
    (sumWords32 sum data).toNat = sumWords sum.toNat data := by
  induction sum, data using sumWords32.induct with
  | case1 sum => rfl
  | case2 sum b =>
    exact Nat.mod_eq_of_lt hlt
  | case3 sum lo hi rest ih =>
    have hword : (sum + (le16 lo hi).toUInt32).toNat = sum.toNat + (le16 lo hi).toNat := by
      rw [UInt32.toNat_add, UInt16.toNat_toUInt32]
      apply Nat.mod_eq_of_lt
      rw [sumWords, sumWords_eq] at hlt
      omega
    rw [sumWords, ← hword] at hlt
    rw [sumWords32, sumWords, ih hlt, hword]

lemma foldSum_eq_residue (sum : ℕ) : foldSum sum = residue (2 ^ 16) sum := by
  induction sum using foldSum.induct with
  | case1 sum hzero =>
    rw [Nat.shiftRight_eq_div_pow] at hzero
    rw [foldSum, if_pos (by rwa [Nat.shiftRight_eq_div_pow])]
    exact (residue_of_lt (by omega)).symm
  | case2 sum hzero ih =>
    rw [foldSum, if_neg hzero, ih]
    have hmask : sum &&& 0xFFFF = sum % 2 ^ 16 := Nat.and_two_pow_sub_one_eq_mod sum 16
    rw [hmask, Nat.shiftRight_eq_div_pow]
    exact residue_carry (by decide) sum

lemma foldSum_lt (sum : ℕ) : foldSum sum < 2 ^ 16 := by
  rw [foldSum_eq_residue]
  exact residue_lt (by decide) sum

lemma shiftRight_eq_zero_iff : sum >>> 16 = 0 ↔ sum.toNat < 2 ^ 16 := by
  rw [← UInt32.toNat_inj, UInt32.toNat_shiftRight]
  change sum.toNat >>> 16 = 0 ↔ _
  rw [Nat.shiftRight_eq_div_pow]
  omega

lemma toNat_carry :
    ((sum &&& (0xFFFF : UInt32)) + (sum >>> 16)).toNat =
      (sum.toNat &&& 0xFFFF) + (sum.toNat >>> 16) := by
  have hlt := sum.toNat_lt
  have hmask : sum.toNat &&& 0xFFFF = sum.toNat % 2 ^ 16 :=
    Nat.and_two_pow_sub_one_eq_mod sum.toNat 16
  have hshift : (sum >>> 16).toNat = sum.toNat >>> 16 := UInt32.toNat_shiftRight sum 16
  rw [UInt32.toNat_add, UInt32.toNat_and, hshift]
  change ((sum.toNat &&& 0xFFFF) + sum.toNat >>> 16) % 2 ^ 32 = _
  apply Nat.mod_eq_of_lt
  rw [hmask, Nat.shiftRight_eq_div_pow]
  omega

lemma foldSum32_succ (fuel : ℕ) (sum : UInt32) (hfuel : sum.toNat < 2 ^ 16 ∨
    ∃ r, foldSum32 fuel ((sum &&& (0xFFFF : UInt32)) + (sum >>> 16)) = some r ∧
      r.toNat = foldSum ((sum.toNat &&& 0xFFFF) + (sum.toNat >>> 16))) :
    ∃ r, foldSum32 (fuel + 1) sum = some r ∧ r.toNat = foldSum sum.toNat := by
  by_cases hsmall : sum.toNat < 2 ^ 16
  · refine ⟨sum, ?_, ?_⟩
    · rw [foldSum32, if_pos (shiftRight_eq_zero_iff.mpr hsmall)]
    · rw [foldSum_eq_residue, residue_of_lt hsmall]
  · obtain ⟨r, hr, hvalue⟩ := hfuel.resolve_left hsmall
    refine ⟨r, ?_, ?_⟩
    · rw [foldSum32, if_neg fun h => hsmall (shiftRight_eq_zero_iff.mp h), hr]
    · have hbig : ¬ sum.toNat >>> 16 = 0 := by
        rw [Nat.shiftRight_eq_div_pow]
        omega
      rw [hvalue, foldSum.eq_1 sum.toNat, if_neg hbig]

lemma foldSum32_eq {fuel : ℕ} (hfuel : 3 ≤ fuel) (sum : UInt32) :
    ∃ r, foldSum32 fuel sum = some r ∧ r.toNat = foldSum sum.toNat := by
  obtain ⟨fuel, rfl⟩ := Nat.exists_eq_add_of_le' hfuel
  have hmask (n : ℕ) : n &&& 0xFFFF = n % 2 ^ 16 := Nat.and_two_pow_sub_one_eq_mod n 16
  have hlt := sum.toNat_lt
  apply foldSum32_succ (fuel + 2) sum
  right
  rw [← toNat_carry]
  apply foldSum32_succ (fuel + 1)
  right
  rw [← toNat_carry]
  apply foldSum32_succ fuel
  left
  rw [toNat_carry, toNat_carry, hmask, hmask, Nat.shiftRight_eq_div_pow, Nat.shiftRight_eq_div_pow]
  omega

/-! ## The result -/

lemma toNat_netChecksum (data : List UInt8) :
    (netChecksum data).toNat = 0xFFFF - residue (2 ^ 16) (littleEndianWords data).sum := by
  have hlt := foldSum_lt (sumWords 0 data)
  rw [netChecksum, UInt16.toNat_not, UInt16.toNat_ofNat', Nat.mod_eq_of_lt hlt, foldSum_eq_residue,
    sumWords_eq, Nat.zero_add]
  rfl

lemma bigEndianWords_lt (data : List UInt8) : ∀ w ∈ bigEndianWords data, w < 2 ^ 16 := by
  induction data using bigEndianWords.induct with
  | case1 => simp [bigEndianWords]
  | case2 b =>
    have hb := b.toNat_lt
    simp only [bigEndianWords, List.mem_singleton, forall_eq]
    omega
  | case3 hi lo rest ih =>
    have hlo := lo.toNat_lt
    have hhi := hi.toNat_lt
    simp only [bigEndianWords, List.mem_cons, forall_eq_or_imp]
    exact ⟨by omega, ih⟩

lemma sum_bigEndianWords (data : List UInt8) :
    256 * (littleEndianWords data).sum ≡ (bigEndianWords data).sum [MOD 2 ^ 16 - 1] ∧
      ((littleEndianWords data).sum = 0 ↔ (bigEndianWords data).sum = 0) := by
  induction data using littleEndianWords.induct with
  | case1 => exact ⟨rfl, Iff.rfl⟩
  | case2 b =>
    simp only [littleEndianWords, bigEndianWords, List.sum_singleton]
    refine ⟨?_, by omega⟩
    rw [Nat.mul_comm]
  | case3 lo hi rest ih =>
    simp only [littleEndianWords, bigEndianWords, List.sum_cons]
    refine ⟨?_, by omega⟩
    rw [Nat.mul_add]
    refine Nat.ModEq.add ?_ ih.1
    have hsplit : 256 * (lo.toNat + hi.toNat * 256) =
        lo.toNat * 256 + hi.toNat + hi.toNat * (2 ^ 16 - 1) := by
      omega
    rw [hsplit]
    exact Nat.add_mul_modulus_modEq_iff.mpr rfl

lemma onesSum_eq (data : List UInt8) :
    onesSum data = residue (2 ^ 16) (256 * residue (2 ^ 16) (littleEndianWords data).sum) := by
  obtain ⟨hmod, hzero⟩ := sum_bigEndianWords data
  rw [onesSum, sum_eq_residue (by decide) (bigEndianWords_lt data), residue_mul_residue]
  apply residue_congr
  · omega
  · exact hmod.symm

lemma residue_swap {w : ℕ} (hw : w < 2 ^ 16) :
    residue (2 ^ 16) (256 * w) = w % 256 * 256 + w / 256 := by
  have hcarry : 256 * w % 2 ^ 16 + 256 * w / 2 ^ 16 = w % 256 * 256 + w / 256 := by omega
  rw [← residue_carry (by decide), hcarry]
  exact residue_of_lt (by omega)

lemma checksumBytes_eq (cksum : UInt16) : checksumBytes cksum =
    [UInt8.ofNat (cksum.toNat % 256), UInt8.ofNat (cksum.toNat / 256)] := by
  have hmask (n : ℕ) : n &&& 255 = n % 2 ^ 8 := Nat.and_two_pow_sub_one_eq_mod n 8
  have hlow : (cksum &&& 0xFF).toUInt8 = UInt8.ofNat (cksum.toNat % 256) := by
    rw [← UInt8.toNat_inj]
    simp only [UInt16.toNat_toUInt8, UInt16.toNat_and, UInt16.reduceToNat, hmask,
      UInt8.toNat_ofNat']
    rfl
  have hhigh : ((cksum >>> 8) &&& 0xFF).toUInt8 = UInt8.ofNat (cksum.toNat / 256) := by
    have hshift : (cksum >>> 8).toNat = cksum.toNat >>> 8 := UInt16.toNat_shiftRight cksum 8
    rw [← UInt8.toNat_inj]
    simp only [UInt16.toNat_toUInt8, UInt16.toNat_and, UInt16.reduceToNat, hmask, hshift,
      Nat.shiftRight_eq_div_pow, UInt8.toNat_ofNat']
    omega
  rw [checksumBytes, hlow, hhigh]

lemma complement_swap {w : ℕ} (hw : w < 2 ^ 16) :
    (0xFFFF - w) % 256 = (0xFFFF - (w % 256 * 256 + w / 256)) / 256 ∧
      (0xFFFF - w) / 256 = (0xFFFF - (w % 256 * 256 + w / 256)) % 256 := by
  have hword : 0xFFFF - w = 255 - w % 256 + 256 * (255 - w / 256) := by omega
  have hswapped : 0xFFFF - (w % 256 * 256 + w / 256) =
      255 - w / 256 + 256 * (255 - w % 256) := by omega
  have hlow' : 255 - w % 256 < 256 := by omega
  have hhigh' : 255 - w / 256 < 256 := by omega
  rw [hswapped, hword]
  refine ⟨?_, ?_⟩
  · rw [Nat.add_mul_mod_self_left, Nat.mod_eq_of_lt hlow', Nat.add_mul_div_left _ _ (by decide),
      Nat.div_eq_of_lt hhigh', Nat.zero_add]
  · rw [Nat.add_mul_mod_self_left, Nat.mod_eq_of_lt hhigh', Nat.add_mul_div_left _ _ (by decide),
      Nat.div_eq_of_lt hlow', Nat.zero_add]

lemma checksumBytes_netChecksum (data : List UInt8) : checksumBytes (netChecksum data) =
    [UInt8.ofNat (rfc1071 data / 256), UInt8.ofNat (rfc1071 data % 256)] := by
  have hlt := residue_lt (show 1 < 2 ^ 16 by decide) (littleEndianWords data).sum
  obtain ⟨hlow, hhigh⟩ := complement_swap hlt
  rw [checksumBytes_eq, toNat_netChecksum, rfc1071, onesSum_eq, residue_swap hlt, hlow, hhigh]

/-! ## The checksum in place -/

lemma littleEndianWords_append {front : List UInt8} (heven : Even front.length)
    (back : List UInt8) :
    littleEndianWords (front ++ back) = littleEndianWords front ++ littleEndianWords back := by
  induction front using littleEndianWords.induct with
  | case1 => rfl
  | case2 b => exact absurd heven Nat.not_even_one
  | case3 lo hi rest ih =>
    have heven' : Even rest.length := by
      simpa [Nat.even_add_one] using heven
    simp only [List.cons_append, littleEndianWords, ih heven']

lemma sum_checksumBytes (cksum : UInt16) :
    (littleEndianWords (checksumBytes cksum)).sum = cksum.toNat := by
  have hlt := cksum.toNat_lt
  rw [checksumBytes_eq]
  simp only [littleEndianWords, List.sum_cons, List.sum_nil, UInt8.toNat_ofNat']
  omega

lemma netChecksum_eq_zero_iff : netChecksum data = 0 ↔
    residue (2 ^ 16) (littleEndianWords data).sum = 0xFFFF := by
  have hlt := residue_lt (show 1 < 2 ^ 16 by decide) (littleEndianWords data).sum
  rw [← UInt16.toNat_inj, toNat_netChecksum]
  change _ = 0 ↔ _
  omega

lemma netChecksum_filled (front back : List UInt8) (heven : Even front.length) :
    netChecksum (front ++ (checksumBytes (netChecksum (front ++ (0 :: 0 :: back))) ++ back)) =
      0 := by
  have hword : Even (checksumBytes (netChecksum (front ++ (0 :: 0 :: back)))).length := by
    simp [checksumBytes]
  have hzeroed : (littleEndianWords (front ++ (0 :: 0 :: back))).sum =
      (littleEndianWords front).sum + (littleEndianWords back).sum := by
    rw [littleEndianWords_append heven, List.sum_append]
    simp [littleEndianWords]
  have hfilled : (littleEndianWords (front ++ (checksumBytes
      (netChecksum (front ++ (0 :: 0 :: back))) ++ back))).sum =
        (littleEndianWords front).sum + (littleEndianWords back).sum +
          (2 ^ 16 - 1 - residue (2 ^ 16)
            ((littleEndianWords front).sum + (littleEndianWords back).sum)) := by
    rw [littleEndianWords_append heven, littleEndianWords_append hword, List.sum_append,
      List.sum_append, sum_checksumBytes, toNat_netChecksum, hzeroed]
    omega
  rw [netChecksum_eq_zero_iff, hfilled]
  exact residue_add_complement (by decide) _

lemma onesSum_of_netChecksum_eq_zero (h : netChecksum data = 0) : onesSum data = 0xFFFF := by
  rw [onesSum_eq, netChecksum_eq_zero_iff.mp h, residue_swap (by decide)]

/-- No sum of the first bytes overflows, the folding loop ends, the bytes stored
are those of RFC 1071, and a checksum in place makes the next one zero. -/
structure ChecksumLaw (data : List UInt8) : Prop where
  noOverflow : ∀ front back, data = front ++ back →
    sumWords 0 front < 2 ^ 32 ∧ (sumWords32 0 front).toNat = sumWords 0 front
  terminates : ∀ fuel, 3 ≤ fuel → netChecksum32 fuel data = some (netChecksum data)
  wire : checksumBytes (netChecksum data) =
    [UInt8.ofNat (rfc1071 data / 256), UInt8.ofNat (rfc1071 data % 256)]
  filled : ∀ front x y back, data = front ++ (x :: y :: back) → Even front.length →
    netChecksum (front ++ (checksumBytes (netChecksum (front ++ (0 :: 0 :: back))) ++ back)) = 0

/-- The checksum of a packet of at most 65535 bytes is that of RFC 1071. -/
theorem checksum_law {data : List UInt8} (hlen : data.length ≤ 65535) : ChecksumLaw data := by
  refine ⟨?_, ?_, checksumBytes_netChecksum data, fun _ _ _ _ _ => netChecksum_filled _ _⟩
  · rintro front back rfl
    rw [List.length_append] at hlen
    have hlt : sumWords 0 front < 2 ^ 32 := sumWords_lt (by omega)
    exact ⟨hlt, toNat_sumWords32 hlt⟩
  · intro fuel hfuel
    obtain ⟨r, hr, hvalue⟩ := foldSum32_eq hfuel (sumWords32 0 data)
    have hsum : (sumWords32 0 data).toNat = sumWords 0 data := toNat_sumWords32 (sumWords_lt hlen)
    rw [hsum] at hvalue
    have hlow : r.toUInt16 = UInt16.ofNat (foldSum (sumWords 0 data)) := by
      rw [← UInt16.toNat_inj, UInt32.toNat_toUInt16, hvalue, UInt16.toNat_ofNat']
    rw [netChecksum32, hr, Option.map_some, netChecksum, ← hlow, UInt32.toUInt16_not]

theorem checksum_law_five_bytes : [0x45, 0x00, 0xFF, 0xFF, 0x01].length ≤ 65535 ∧
    ChecksumLaw [0x45, 0x00, 0xFF, 0xFF, 0x01] :=
  ⟨by decide, checksum_law (by decide)⟩

end Cottage.Net
