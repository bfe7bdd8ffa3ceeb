import Mathlib.Tactic.IntervalCases

/-!
# Byte-addressed memory

Memory is a function from addresses to bytes, an address a natural number.
Words are 64 bits wide and little endian; a word is read as a number below `2 ^
64`, and what is written is taken modulo `2 ^ 64`.
-/

namespace Cottage.ByteMemory

open Function

def Memory : Type :=
  ℕ → UInt8

variable {m m' : Memory} {a b n : ℕ}

def Memory.set (m : Memory) (a : ℕ) (v : UInt8) : Memory :=
  update m a v

lemma set_apply (m : Memory) (a x : ℕ) (v : UInt8) :
    m.set a v x = if x = a then v else m x :=
  update_apply m a v x

def memset (m : Memory) (dest : ℕ) (c : UInt8) : ℕ → Memory
  | 0 => m
  | n + 1 => (memset m dest c n).set (dest + n) c

lemma memset_apply (m : Memory) (dest : ℕ) (c : UInt8) (n x : ℕ) :
    memset m dest c n x = if dest ≤ x ∧ x < dest + n then c else m x := by
  induction n with
  | zero =>
    have hempty : ¬ (dest ≤ x ∧ x < dest + 0) := by omega
    rw [memset, if_neg hempty]
  | succ n ih =>
    rw [memset, set_apply, ih]
    split_ifs <;> first | rfl | omega

def memcpy (m : Memory) (dest src : ℕ) : ℕ → Memory
  | 0 => m
  | n + 1 => (memcpy m dest src n).set (dest + n) (memcpy m dest src n (src + n))

lemma memcpy_apply_of_outside (m : Memory) (dest src : ℕ) {n x : ℕ}
    (hx : ¬ (dest ≤ x ∧ x < dest + n)) : memcpy m dest src n x = m x := by
  induction n with
  | zero => rfl
  | succ n ih =>
    rw [memcpy, set_apply, if_neg (by omega)]
    apply ih
    omega

lemma memcpy_apply_of_lt (m : Memory) {dest src n k : ℕ} (hk : k < n)
    (hdisj : ∀ i, i < n → ∀ j, j < i → src + i ≠ dest + j) :
    memcpy m dest src n (dest + k) = m (src + k) := by
  induction n with
  | zero => omega
  | succ n ih =>
    have hsrc : memcpy m dest src n (src + n) = m (src + n) := by
      apply memcpy_apply_of_outside
      rintro ⟨hlo, hhi⟩
      exact hdisj n (Nat.lt_succ_self n) (src + n - dest) (by omega) (by omega)
    rw [memcpy, set_apply, hsrc]
    by_cases hkn : k = n
    · rw [hkn, if_pos rfl]
    · rw [if_neg (by omega)]
      apply ih (by omega)
      intro i hi j hj
      exact hdisj i (by omega) j hj

/-- The loop from the last byte to the first. -/
def memcpyBackward (m : Memory) (dest src : ℕ) : ℕ → Memory
  | 0 => m
  | n + 1 => memcpyBackward (m.set (dest + n) (m (src + n))) dest src n

lemma memcpyBackward_apply_of_outside (m : Memory) (dest src : ℕ) {n x : ℕ}
    (hx : ¬ (dest ≤ x ∧ x < dest + n)) : memcpyBackward m dest src n x = m x := by
  induction n generalizing m with
  | zero => rfl
  | succ n ih =>
    rw [memcpyBackward, ih _ (by omega), set_apply, if_neg (by omega)]

lemma memcpyBackward_apply_of_lt (m : Memory) {dest src n k : ℕ} (hk : k < n)
    (hdisj : ∀ i, i < n → ∀ j, j < i → src + j ≠ dest + i) :
    memcpyBackward m dest src n (dest + k) = m (src + k) := by
  induction n generalizing m with
  | zero => omega
  | succ n ih =>
    rw [memcpyBackward]
    by_cases hkn : k = n
    · rw [hkn, memcpyBackward_apply_of_outside _ dest src (by omega), set_apply, if_pos rfl]
    · have hlt : k < n := by omega
      rw [ih _ hlt fun i hi => hdisj i (by omega), set_apply,
        if_neg (hdisj n (Nat.lt_succ_self n) k hlt)]

attribute [irreducible] memset memcpy memcpyBackward

def AgreeOn (m m' : Memory) (A : ℕ → Prop) : Prop :=
  ∀ x, A x → m' x = m x

lemma AgreeOn.trans {m'' : Memory} {A : ℕ → Prop} (h : AgreeOn m m' A)
    (h' : AgreeOn m' m'' A) : AgreeOn m m'' A :=
  fun x hx => (h' x hx).trans (h x hx)

lemma AgreeOn.mono {A B : ℕ → Prop} (h : AgreeOn m m' B) (hAB : ∀ x, A x → B x) :
    AgreeOn m m' A :=
  fun x hx => h x (hAB x hx)

/-- Two memories that differ at most in `[a, a + n)`. -/
def AgreeOutside (m m' : Memory) (a n : ℕ) : Prop :=
  AgreeOn m m' fun x => ¬ (a ≤ x ∧ x < a + n)

lemma agreeOutside_memset (m : Memory) (dest : ℕ) (c : UInt8) (n : ℕ) :
    AgreeOutside m (memset m dest c n) dest n := by
  intro x hx
  rw [memset_apply, if_neg hx]

lemma agreeOutside_memcpy (m : Memory) (dest src n : ℕ) :
    AgreeOutside m (memcpy m dest src n) dest n :=
  fun _ hx => memcpy_apply_of_outside m dest src hx

def read64 (m : Memory) (a : ℕ) : ℕ :=
  (m a).toNat + (m (a + 1)).toNat * 2 ^ 8 + (m (a + 2)).toNat * 2 ^ 16 +
    (m (a + 3)).toNat * 2 ^ 24 + (m (a + 4)).toNat * 2 ^ 32 + (m (a + 5)).toNat * 2 ^ 40 +
    (m (a + 6)).toNat * 2 ^ 48 + (m (a + 7)).toNat * 2 ^ 56

def byteOf (v i : ℕ) : UInt8 :=
  UInt8.ofNat (v / 2 ^ (8 * i))

def write64 (m : Memory) (a v : ℕ) : Memory :=
  fun x => if a ≤ x ∧ x < a + 8 then byteOf v (x - a) else m x

lemma write64_apply_of_outside {x : ℕ} (v : ℕ) (hx : ¬ (a ≤ x ∧ x < a + 8)) :
    write64 m a v x = m x :=
  if_neg hx

lemma write64_apply_of_lt {i : ℕ} (v : ℕ) (hi : i < 8) :
    write64 m a v (a + i) = byteOf v i := by
  rw [write64, if_pos (by omega), Nat.add_sub_cancel_left]

lemma write64_write64 (m : Memory) (a v v' : ℕ) :
    write64 (write64 m a v) a v' = write64 m a v' := by
  funext x
  by_cases hx : a ≤ x ∧ x < a + 8
  · simp only [write64, if_pos hx]
  · rw [write64_apply_of_outside v' hx, write64_apply_of_outside v hx,
      write64_apply_of_outside v' hx]

lemma agreeOutside_write64 (m : Memory) (a v : ℕ) : AgreeOutside m (write64 m a v) a 8 :=
  fun _ hx => write64_apply_of_outside v hx

lemma byteOf_toNat (v i : ℕ) : (byteOf v i).toNat = v / 2 ^ (8 * i) % 2 ^ 8 :=
  UInt8.toNat_ofNat'

lemma read64_lt (m : Memory) (a : ℕ) : read64 m a < 2 ^ 64 := by
  have hbyte : ∀ x, (m x).toNat < 2 ^ 8 := fun x => (m x).toNat_lt
  have := hbyte a
  have := hbyte (a + 1)
  have := hbyte (a + 2)
  have := hbyte (a + 3)
  have := hbyte (a + 4)
  have := hbyte (a + 5)
  have := hbyte (a + 6)
  have := hbyte (a + 7)
  unfold read64
  omega

lemma read64_write64 (m : Memory) (a v : ℕ) : read64 (write64 m a v) a = v % 2 ^ 64 := by
  have h₀ : write64 m a v a = byteOf v 0 := write64_apply_of_lt (i := 0) v (by omega)
  have h (i : ℕ) (hi : i < 8) : (write64 m a v (a + i)).toNat = v / 2 ^ (8 * i) % 2 ^ 8 := by
    rw [write64_apply_of_lt v hi, byteOf_toNat]
  rw [read64, h₀, byteOf_toNat, h 1 (by omega), h 2 (by omega), h 3 (by omega), h 4 (by omega),
    h 5 (by omega), h 6 (by omega), h 7 (by omega)]
  omega

lemma read64_congr (h : AgreeOn m m' fun x => a ≤ x ∧ x < a + 8) :
    read64 m' a = read64 m a := by
  have hbyte (i : ℕ) (hi : i < 8) : m' (a + i) = m (a + i) := h (a + i) (by omega)
  have h₀ : m' a = m a := hbyte 0 (by omega)
  rw [read64, read64, h₀, hbyte 1 (by omega), hbyte 2 (by omega), hbyte 3 (by omega),
    hbyte 4 (by omega), hbyte 5 (by omega), hbyte 6 (by omega), hbyte 7 (by omega)]

lemma read64_of_agreeOutside (h : AgreeOutside m m' b n) (hdisj : a + 8 ≤ b ∨ b + n ≤ a) :
    read64 m' a = read64 m a := by
  apply read64_congr
  apply h.mono
  intro x hx
  omega

lemma read64_write64_of_disjoint (v : ℕ) (hdisj : a + 8 ≤ b ∨ b + 8 ≤ a) :
    read64 (write64 m b v) a = read64 m a :=
  read64_of_agreeOutside (agreeOutside_write64 m b v) hdisj

lemma read64_memset_zero {dest : ℕ} (hlo : dest ≤ a) (hhi : a + 8 ≤ dest + n) :
    read64 (memset m dest 0 n) a = 0 := by
  have hbyte (i : ℕ) (hi : i < 8) : memset m dest 0 n (a + i) = 0 := by
    rw [memset_apply, if_pos (by omega)]
  have h₀ : memset m dest 0 n a = 0 := hbyte 0 (by omega)
  rw [read64, h₀, hbyte 1 (by omega), hbyte 2 (by omega), hbyte 3 (by omega), hbyte 4 (by omega),
    hbyte 5 (by omega), hbyte 6 (by omega), hbyte 7 (by omega)]
  rfl

attribute [irreducible] read64 write64

end Cottage.ByteMemory
