import Mathlib.Tactic.FieldSimp
import Mathlib.Tactic.Linarith

/-!
# The hardware counters

The two counters that times are measured with.  The HPET counts up with a period
that it reports in femtoseconds, and `sleep` waits until it has reached a
deadline.  The PIT counts down from a value that is written to it in two bytes.

The milliseconds of `sleep` are divided by eight and the rest is dropped; they
are then multiplied in 64 bits.  The second byte for the PIT is shifted out of
the first one.
-/

namespace Cottage.Time

structure Hpet where
  capabilities : ℕ
  counterValue : ℕ
  deriving DecidableEq, Repr

def Hpet.period (hpet : Hpet) : ℕ :=
  (hpet.capabilities >>> 32) &&& 0xffffffff

/-- What `sleep` adds to the counter.  The product has 64 bits, and is divided
as an unsigned number. -/
def sleepTicks (hpet : Hpet) (millis : ℕ) : ℕ :=
  millis / 8 * 10000000000000 % 2 ^ 64 / hpet.period

def sleepDeadline (hpet : Hpet) (millis : ℕ) : ℕ :=
  (hpet.counterValue + sleepTicks hpet millis) % 2 ^ 64

/-- The deadline is as many periods away as the milliseconds need. -/
def LongEnough (hpet : Hpet) (millis : ℕ) : Prop :=
  (millis * 10 ^ 12 : ℚ) / hpet.period ≤ (sleepDeadline hpet millis : ℚ) - hpet.counterValue

lemma longEnough_iff {hpet : Hpet} {millis : ℕ} (hperiod : 0 < hpet.period)
    (hwrap : hpet.counterValue + sleepTicks hpet millis < 2 ^ 64) :
    LongEnough hpet millis ↔ millis * 10 ^ 12 ≤ sleepTicks hpet millis * hpet.period := by
  have hpos : (0 : ℚ) < hpet.period := Nat.cast_pos.mpr hperiod
  rw [LongEnough, sleepDeadline, Nat.mod_eq_of_lt hwrap, Nat.cast_add, add_sub_cancel_left,
    div_le_iff₀ hpos]
  exact_mod_cast Iff.rfl

lemma le_div_mul_iff {a b p : ℕ} (hp : 0 < p) (hgap : b < a → p ≤ a - b) :
    b ≤ a / p * p ↔ b < a ∨ b = a ∧ p ∣ a := by
  have hsplit := Nat.div_add_mod' a p
  have hlt := Nat.mod_lt a hp
  constructor
  · intro h
    rcases Nat.lt_or_ge b a with hba | hab
    · exact .inl hba
    · refine .inr ⟨by omega, Nat.dvd_of_mod_eq_zero (by omega)⟩
  · rintro (hba | ⟨rfl, hdvd⟩)
    · have := hgap hba
      omega
    · exact (Nat.div_mul_cancel hdvd).ge

lemma wrapped_lt {millis : ℕ} (hlarge : 14757400 ≤ millis) :
    millis / 8 * 10000000000000 % 2 ^ 64 < millis * 10 ^ 12 := by
  have hlt := Nat.mod_lt (millis / 8 * 10000000000000) (by decide : 2 ^ 64 > 0)
  by_cases hhuge : 2 ^ 64 ≤ millis * 10 ^ 12
  · exact hlt.trans_le hhuge
  · have hquotient : millis / 8 * 10000000000000 / 2 ^ 64 = 1 := by omega
    have hsplit := Nat.div_add_mod' (millis / 8 * 10000000000000) (2 ^ 64)
    omega

/-- The deadline is far enough away for up to four hours, if dropping the rest
of the milliseconds has not cost more than the surplus of a quarter. -/
theorem sleep_long_enough_iff {hpet : Hpet} (millis : ℕ)
    (hperiod : 1 ≤ hpet.period ∧ hpet.period ≤ 10 ^ 8)
    (hwrap : hpet.counterValue + sleepTicks hpet millis < 2 ^ 64) :
    LongEnough hpet millis ↔
      millis < 14757400 ∧ (millis < millis / 8 * 10 ∨
        millis = millis / 8 * 10 ∧ hpet.period ∣ millis * 10 ^ 12) := by
  rw [longEnough_iff hperiod.1 hwrap, sleepTicks]
  by_cases hfits : millis < 14757400
  · have hproduct : millis / 8 * 10000000000000 < 2 ^ 64 := by omega
    have hscale : millis / 8 * 10000000000000 = millis / 8 * 10 * 10 ^ 12 :=
      (Nat.mul_assoc _ 10 (10 ^ 12)).symm
    rw [Nat.mod_eq_of_lt hproduct, and_iff_right hfits, hscale,
      le_div_mul_iff hperiod.1 (by omega), Nat.mul_lt_mul_right (by decide),
      Nat.mul_left_inj (by decide)]
    refine or_congr_right (and_congr_right ?_)
    intro heq
    rw [← heq]
  · have hsmall := wrapped_lt (not_lt.mp hfits)
    have hle := Nat.div_mul_le_self (millis / 8 * 10000000000000 % 2 ^ 64) hpet.period
    exact iff_of_false (not_le.mpr (hle.trans_lt hsmall)) fun h => hfits h.1

def hundredMegahertz : Hpet where
  capabilities := 10000000 <<< 32
  counterValue := 1000

theorem sleep_long_enough_second : LongEnough hundredMegahertz 1000 :=
  (sleep_long_enough_iff 1000 (by decide) (by decide)).mpr (by decide)

/-- Up to seven milliseconds are no time at all, and five hours are less than
an hour and a half. -/
theorem sleep_not_long_enough :
    sleepDeadline hundredMegahertz 7 = hundredMegahertz.counterValue ∧
      ¬ LongEnough hundredMegahertz 7 ∧
      sleepDeadline hundredMegahertz 18000000 < hundredMegahertz.counterValue + 5400 * 10 ^ 8 ∧
      ¬ LongEnough hundredMegahertz 18000000 := by
  have hshort : ¬ LongEnough hundredMegahertz 7 := by
    rw [longEnough_iff (by decide) (by decide)]
    decide
  have hlong : ¬ LongEnough hundredMegahertz 18000000 := by
    rw [longEnough_iff (by decide) (by decide)]
    decide
  exact ⟨by decide, hshort, by decide, hlong⟩

/-- `PIT_DIVIDEND` -/
def pitDividend : ℕ := 1193182

structure Outb where
  port : ℕ
  value : UInt8
  deriving DecidableEq, Repr

/-- The cast of `new_count` comes before the shift, which is one of an `int`. -/
def pitSetReloadValue (newCount : UInt16) : List Outb :=
  [⟨0x43, 0x34⟩, ⟨0x40, newCount.toUInt8⟩, ⟨0x40, (newCount.toUInt8.toUInt32 >>> 8).toUInt8⟩]

def pitSetFrequency (freq : ℕ) : List Outb :=
  let newDivisor := pitDividend / freq
  let newDivisor := if pitDividend % freq > freq / 2 then newDivisor + 1 else newDivisor
  pitSetReloadValue (UInt16.ofNat newDivisor)

def roundedDivisor (freq : ℕ) : ℕ :=
  pitDividend / freq + if pitDividend % freq > freq / 2 then 1 else 0

def dataBytes (writes : List Outb) : List UInt8 :=
  (writes.filter (·.port = 0x40)).map Outb.value

def Encodes (bytes : List UInt8) (value : ℕ) : Prop :=
  ∃ low high, bytes = [low, high] ∧ low.toNat + 256 * high.toNat = value

lemma shifted_byte (byte : UInt8) : (byte.toUInt32 >>> 8).toUInt8 = 0 := by
  have hlt := byte.toNat_lt
  apply UInt8.toNat_inj.mp
  rw [UInt32.toNat_toUInt8, UInt32.toNat_shiftRight, UInt8.toNat_toUInt32]
  have hzero : byte.toNat >>> (UInt32.toNat 8 % 32) = 0 := by
    rw [Nat.shiftRight_eq_div_pow]
    exact Nat.div_eq_of_lt hlt
  rw [hzero]
  rfl

lemma dataBytes_pitSetReloadValue (newCount : UInt16) :
    dataBytes (pitSetReloadValue newCount) = [newCount.toUInt8, 0] := by
  rw [pitSetReloadValue, shifted_byte]
  rfl

lemma dataBytes_pitSetFrequency (freq : ℕ) :
    dataBytes (pitSetFrequency freq) = [UInt8.ofNat (roundedDivisor freq), 0] := by
  have hdivisor : (if pitDividend % freq > freq / 2 then pitDividend / freq + 1
      else pitDividend / freq) = roundedDivisor freq := by
    rw [roundedDivisor]
    split_ifs <;> rfl
  rw [pitSetFrequency, hdivisor, dataBytes_pitSetReloadValue]
  congr 1
  apply UInt8.toNat_inj.mp
  rw [UInt16.toNat_toUInt8, UInt16.toNat_ofNat', UInt8.toNat_ofNat']
  omega

lemma roundedDivisor_lt_iff {freq : ℕ} (hfreq : 0 < freq) :
    roundedDivisor freq < 256 ↔ 4670 ≤ freq := by
  have hsplit := Nat.div_add_mod pitDividend freq
  have hlt := Nat.mod_lt pitDividend hfreq
  rw [roundedDivisor]
  generalize pitDividend / freq = q at hsplit ⊢
  generalize pitDividend % freq = r at hsplit hlt ⊢
  rw [pitDividend] at hsplit
  have hexact (hq : q = 255) : freq * 255 + r = 1193182 := by rw [← hq, hsplit]
  rcases lt_trichotomy q 255 with hq | hq | hq
  · have hle : freq * q ≤ freq * 254 := Nat.mul_le_mul_left _ (by omega)
    split_ifs <;> omega
  · have hsum := hexact hq
    split_ifs <;> omega
  · have hle : freq * 256 ≤ freq * q := Nat.mul_le_mul_left _ hq
    split_ifs <;> omega

/-- The bytes for the PIT are right for frequencies whose divisor is one byte. -/
theorem pit_encodes_iff {freq : ℕ} (hfreq : 0 < freq) :
    Encodes (dataBytes (pitSetFrequency freq)) (roundedDivisor freq) ↔ 4670 ≤ freq := by
  rw [← roundedDivisor_lt_iff hfreq, dataBytes_pitSetFrequency]
  constructor
  · rintro ⟨low, high, hbytes, hvalue⟩
    obtain ⟨-, hhigh⟩ := List.cons.inj hbytes
    obtain ⟨rfl, -⟩ := List.cons.inj hhigh
    rw [← hvalue, UInt8.toNat_zero]
    exact low.toNat_lt
  · intro hlt
    refine ⟨_, _, rfl, ?_⟩
    rw [UInt8.toNat_ofNat', UInt8.toNat_zero]
    omega

theorem pit_encodes_ten_kilohertz :
    Encodes (dataBytes (pitSetFrequency 10000)) (roundedDivisor 10000) :=
  (pit_encodes_iff (by decide)).mpr (by decide)

/-- At the frequency of the timer interrupt 169 is written instead of 1193. -/
theorem pit_encodes_wrong :
    roundedDivisor 1000 = 1193 ∧ dataBytes (pitSetFrequency 1000) = [169, 0] ∧
      ¬ Encodes (dataBytes (pitSetFrequency 1000)) (roundedDivisor 1000) := by
  have hbytes : dataBytes (pitSetFrequency 1000) = [169, 0] := by decide
  refine ⟨by decide, hbytes, ?_⟩
  rw [hbytes]
  rintro ⟨low, high, heq, hvalue⟩
  obtain ⟨rfl, htail⟩ := List.cons.inj heq
  obtain ⟨rfl, -⟩ := List.cons.inj htail
  cases hvalue

end Cottage.Time
