import Mathlib.Data.Nat.Bitwise

/-!
# Addresses and alignment

The page size, the direct map and the rounding functions of `align.c`.
Addresses and sizes are natural numbers below `2 ^ 64`; the sums of the
rounding functions wrap as they do in C.
-/

namespace Cottage.Mem

def pageSize : ℕ := 0x1000

@[irreducible] def higherHalf : ℕ := 0xFFFF800000000000

/-- The direct map covers the addresses from `higherHalf` to the end of the
address space. -/
def directMapSize : ℕ := 2 ^ 47

def alignUp (count alignment : ℕ) : ℕ :=
  (count + (alignment - 1)) % 2 ^ 64 / alignment * alignment

def divRoundup (a b : ℕ) : ℕ :=
  (a + (b - 1)) % 2 ^ 64 / b

/-- `address & 0xfff` -/
def pageOffset (address : ℕ) : ℕ :=
  address &&& 0xfff

/-- `address & ~0xfff` -/
def pageBase (address : ℕ) : ℕ :=
  address &&& 0xFFFFFFFFFFFFF000

lemma pageOffset_eq (address : ℕ) : pageOffset address = address % pageSize :=
  Nat.and_two_pow_sub_one_eq_mod address 12

lemma pageBase_eq {address : ℕ} (h : address < 2 ^ 64) :
    pageBase address = address / pageSize * pageSize := by
  apply Nat.eq_of_testBit_eq
  intro i
  have hmask : (0xFFFFFFFFFFFFF000 : ℕ) = (2 ^ 52 - 1) <<< 12 := by decide
  have hshift : address / pageSize * pageSize = (address >>> 12) <<< 12 := by
    rw [Nat.shiftRight_eq_div_pow, Nat.shiftLeft_eq]
    rfl
  rw [pageBase, hmask, hshift, Nat.testBit_and, Nat.testBit_shiftLeft, Nat.testBit_shiftLeft,
    Nat.testBit_two_pow_sub_one, Nat.testBit_shiftRight]
  by_cases hi : 12 ≤ i
  · have hadd : 12 + (i - 12) = i := by omega
    rw [hadd]
    by_cases hlt : i < 64
    · have hlt' : i - 12 < 52 := by omega
      simp [hi, hlt']
    · have hzero : address.testBit i = false := by
        apply Nat.testBit_lt_two_pow
        exact h.trans_le (Nat.pow_le_pow_right (by decide) (by omega))
      simp [hzero]
  · simp [hi]

lemma pageBase_le (address : ℕ) : pageBase address ≤ address :=
  Nat.and_le_left

lemma pageBase_or_of_dvd {n f : ℕ} (hn : pageSize ∣ n) (hlt : n < 2 ^ 64) (hf : f < 2 ^ 12) :
    pageBase (n ||| f) = n := by
  obtain ⟨k, rfl⟩ := hn
  have hor : pageSize * k ||| f = pageSize * k + f :=
    (Nat.two_pow_add_eq_or_of_lt (i := 12) hf k).symm
  simp only [pageSize] at *
  rw [hor, pageBase_eq (by omega), pageSize]
  omega

lemma divRoundup_eq {len : ℕ} (h : len ≤ 2 ^ 63) :
    divRoundup len pageSize = (len + 4095) / 4096 := by
  rw [divRoundup, pageSize, Nat.mod_eq_of_lt (by omega)]

end Cottage.Mem
