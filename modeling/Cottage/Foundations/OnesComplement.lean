import Mathlib.Algebra.BigOperators.Group.List.Basic
import Mathlib.Data.Nat.ModEq

/-!
# One's-complement sums

Numbers below a base `b` are added with an end-around carry.  Such a sum is
determined by the plain sum: it is zero when that is zero, and otherwise the
number from 1 to `b - 1` that is congruent to it modulo `b - 1`.  So zero has
two representations, `0` and `b - 1`, and the second is never lost again.
-/

namespace Cottage.OnesComplement

variable {b m n x y : ℕ}

def add (b x y : ℕ) : ℕ :=
  if x + y < b then x + y else x + y + 1 - b

def sum (b : ℕ) (l : List ℕ) : ℕ :=
  l.foldl (add b) 0

def residue (b n : ℕ) : ℕ :=
  if n = 0 then 0 else (n - 1) % (b - 1) + 1

@[simp] lemma residue_zero (b : ℕ) : residue b 0 = 0 :=
  if_pos rfl

lemma residue_of_pos (hn : 0 < n) : residue b n = (n - 1) % (b - 1) + 1 :=
  if_neg hn.ne'

lemma residue_eq_zero_iff : residue b n = 0 ↔ n = 0 := by
  rcases Nat.eq_zero_or_pos n with rfl | hn
  · simp
  · rw [residue_of_pos hn]
    exact iff_of_false (Nat.succ_ne_zero _) hn.ne'

lemma residue_lt (hb : 1 < b) (n : ℕ) : residue b n < b := by
  rcases Nat.eq_zero_or_pos n with rfl | hn
  · rw [residue_zero]
    omega
  · have hlt := Nat.mod_lt (n - 1) (show 0 < b - 1 by omega)
    rw [residue_of_pos hn]
    omega

lemma residue_modEq (b n : ℕ) : residue b n ≡ n [MOD b - 1] := by
  rcases Nat.eq_zero_or_pos n with rfl | hn
  · rw [residue_zero]
  · have hmod : (n - 1) % (b - 1) + 1 ≡ n - 1 + 1 [MOD b - 1] :=
      (Nat.mod_modEq (n - 1) (b - 1)).add_right 1
    rwa [residue_of_pos hn, ← Nat.sub_add_cancel hn, Nat.add_sub_cancel]

lemma residue_of_lt (hn : n < b) : residue b n = n := by
  rcases Nat.eq_zero_or_pos n with rfl | hpos
  · exact residue_zero b
  · rw [residue_of_pos hpos, Nat.mod_eq_of_lt (by omega), Nat.sub_add_cancel hpos]

lemma residue_congr (hzero : m = 0 ↔ n = 0) (h : m ≡ n [MOD b - 1]) :
    residue b m = residue b n := by
  rcases Nat.eq_zero_or_pos m with rfl | hm
  · rw [hzero.mp rfl]
  · have hn : 0 < n := Nat.pos_of_ne_zero fun h0 => hm.ne' (hzero.mpr h0)
    have hpred : m - 1 ≡ n - 1 [MOD b - 1] := by
      apply Nat.ModEq.add_right_cancel' 1
      rwa [Nat.sub_add_cancel hm, Nat.sub_add_cancel hn]
    rw [residue_of_pos hm, residue_of_pos hn, hpred]

lemma residue_add_residue (b m n : ℕ) : residue b (residue b m + n) = residue b (m + n) := by
  apply residue_congr
  · have hzero := residue_eq_zero_iff (b := b) (n := m)
    omega
  · exact (residue_modEq b m).add_right n

lemma residue_mul_residue (b m n : ℕ) : residue b (m * residue b n) = residue b (m * n) := by
  apply residue_congr
  · rw [Nat.mul_eq_zero, Nat.mul_eq_zero, residue_eq_zero_iff]
  · exact (residue_modEq b n).mul_left m

lemma residue_carry (hb : 1 < b) (n : ℕ) : residue b (n % b + n / b) = residue b n := by
  apply residue_congr
  · have hsplit := Nat.mod_add_div n b
    constructor
    · intro h
      rw [Nat.add_eq_zero_iff] at h
      rw [← hsplit, h.1, h.2, Nat.mul_zero]
    · rintro rfl
      rw [Nat.zero_mod, Nat.zero_div]
  · have hbase : b ≡ 1 [MOD b - 1] := by
      have hsucc : b - 1 + 1 ≡ 0 + 1 [MOD b - 1] :=
        (Nat.modEq_zero_iff_dvd.mpr dvd_rfl).add_right 1
      rwa [Nat.sub_add_cancel hb.le, Nat.zero_add] at hsucc
    calc n % b + n / b ≡ n % b + b * (n / b) [MOD b - 1] := by
          have hcarry := (hbase.mul_right (n / b)).add_left (n % b)
          rw [Nat.one_mul] at hcarry
          exact hcarry.symm
      _ = n := Nat.mod_add_div n b

lemma add_eq_residue (hx : x < b) (hy : y < b) : add b x y = residue b (x + y) := by
  unfold add
  split_ifs with hlt
  · exact (residue_of_lt hlt).symm
  · have hcarry : x + y + 1 - b < b := by omega
    rw [← residue_of_lt hcarry]
    apply residue_congr
    · omega
    · have hsplit : x + y + 1 - b + (b - 1) = x + y := by omega
      have hround : x + y + 1 - b + (b - 1) ≡ x + y + 1 - b [MOD b - 1] := Nat.add_modEq_right
      rw [hsplit] at hround
      exact hround.symm

lemma foldl_add (hb : 1 < b) {l : List ℕ} (hl : ∀ w ∈ l, w < b) (acc : ℕ) :
    l.foldl (add b) (residue b acc) = residue b (acc + l.sum) := by
  induction l generalizing acc with
  | nil => simp
  | cons w l ih =>
    obtain ⟨hw, hl'⟩ := List.forall_mem_cons.mp hl
    rw [List.foldl_cons, add_eq_residue (residue_lt hb acc) hw, residue_add_residue, ih hl',
      List.sum_cons, Nat.add_assoc]

lemma sum_eq_residue (hb : 1 < b) {l : List ℕ} (hl : ∀ w ∈ l, w < b) :
    sum b l = residue b l.sum := by
  have hfold := foldl_add hb hl 0
  rwa [residue_zero, Nat.zero_add] at hfold

lemma residue_add_complement (hb : 1 < b) (n : ℕ) :
    residue b (n + (b - 1 - residue b n)) = b - 1 := by
  have hlt := residue_lt hb n
  rw [← residue_add_residue, Nat.add_sub_cancel' (by omega)]
  exact residue_of_lt (by omega)

end Cottage.OnesComplement
