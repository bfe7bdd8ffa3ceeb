import Mathlib.Tactic.Linarith

/-!
# Times and intervals

The two functions of `timer.c` that add an interval to a time and subtract one
from it.  A time is a number of seconds and a number of nanoseconds, both
`int64_t`; the sums and differences are wrapped to 64 bits.

Adding is exact.  Subtracting is exact as long as nothing is borrowed from the
seconds: a second that is borrowed has only 999999999 nanoseconds.
-/

namespace Cottage.Time

/-- A result as an `int64_t`. -/
def wrap (z : ℤ) : ℤ :=
  z.bmod (2 ^ 64)

structure Timespec where
  tvSec : ℤ
  tvNsec : ℤ
  deriving DecidableEq, Repr

def Timespec.zero : Timespec where
  tvSec := 0
  tvNsec := 0

def addInterval (dest src : Timespec) : Timespec :=
  let dest :=
    if wrap (dest.tvNsec + src.tvNsec) > 999999999 then
      let diff := wrap (wrap (dest.tvNsec + src.tvNsec) - 1000000000)
      { tvSec := wrap (dest.tvSec + 1), tvNsec := diff }
    else { dest with tvNsec := wrap (dest.tvNsec + src.tvNsec) }
  { dest with tvSec := wrap (dest.tvSec + src.tvSec) }

/-- The end of `sub_interval`, once the nanoseconds are subtracted. -/
def subSeconds (dest src : Timespec) : Bool × Timespec :=
  if src.tvSec > dest.tvSec then (true, .zero)
  else
    let dest := { dest with tvSec := wrap (dest.tvSec - src.tvSec) }
    (decide (dest.tvSec = 0 ∧ dest.tvNsec = 0), dest)

/-- The result of `sub_interval`, and `dest` afterwards. -/
def subInterval (dest src : Timespec) : Bool × Timespec :=
  if src.tvNsec > dest.tvNsec then
    let diff := wrap (src.tvNsec - dest.tvNsec)
    if dest.tvSec = 0 then (true, .zero)
    else subSeconds { tvSec := wrap (dest.tvSec - 1), tvNsec := wrap (999999999 - diff) } src
  else subSeconds { dest with tvNsec := wrap (dest.tvNsec - src.tvNsec) } src

structure Timespec.Normalised (t : Timespec) : Prop where
  sec_nonneg : 0 ≤ t.tvSec
  sec_lt : t.tvSec < 2 ^ 63
  nsec_nonneg : 0 ≤ t.tvNsec
  nsec_lt : t.tvNsec < 10 ^ 9

instance (t : Timespec) : Decidable t.Normalised :=
  decidable_of_iff (0 ≤ t.tvSec ∧ t.tvSec < 2 ^ 63 ∧ 0 ≤ t.tvNsec ∧ t.tvNsec < 10 ^ 9)
    ⟨fun h => ⟨h.1, h.2.1, h.2.2.1, h.2.2.2⟩, fun h => ⟨h.1, h.2, h.3, h.4⟩⟩

/-- The seconds may be negative. -/
structure Timespec.Reduced (t : Timespec) : Prop where
  sec_ge : -2 ^ 63 ≤ t.tvSec
  sec_lt : t.tvSec < 2 ^ 63
  nsec_nonneg : 0 ≤ t.tvNsec
  nsec_lt : t.tvNsec < 10 ^ 9

lemma Timespec.Normalised.reduced {t : Timespec} (ht : t.Normalised) : t.Reduced :=
  ⟨le_trans (by decide) ht.sec_nonneg, ht.sec_lt, ht.nsec_nonneg, ht.nsec_lt⟩

def Timespec.duration (t : Timespec) : ℤ :=
  t.tvSec * 10 ^ 9 + t.tvNsec

lemma Timespec.Normalised.duration_nonneg {t : Timespec} (ht : t.Normalised) :
    0 ≤ t.duration :=
  add_nonneg (mul_nonneg ht.sec_nonneg (by decide)) ht.nsec_nonneg

lemma wrap_of_range {z : ℤ} (hlow : -2 ^ 63 ≤ z) (hhigh : z < 2 ^ 63) : wrap z = z := by
  rw [wrap]
  apply Int.bmod_eq_of_le
  · norm_num at hlow ⊢
    exact hlow
  · norm_num at hhigh ⊢
    exact hhigh

lemma normalised_zero : Timespec.zero.Normalised := by
  decide

lemma normalised_mk {sec nsec : ℤ} (hsec : 0 ≤ sec ∧ sec < 2 ^ 63)
    (hnsec : 0 ≤ nsec ∧ nsec < 10 ^ 9) : Timespec.Normalised ⟨sec, nsec⟩ :=
  ⟨hsec.1, hsec.2, hnsec.1, hnsec.2⟩

lemma reduced_mk {sec nsec : ℤ} (hsec : -2 ^ 63 ≤ sec ∧ sec < 2 ^ 63)
    (hnsec : 0 ≤ nsec ∧ nsec < 10 ^ 9) : Timespec.Reduced ⟨sec, nsec⟩ :=
  ⟨hsec.1, hsec.2, hnsec.1, hnsec.2⟩

variable {d s : Timespec}

section

variable (hd : d.Reduced) (hs : s.Reduced) (hlow : -2 ^ 63 * 10 ^ 9 ≤ d.duration + s.duration)
  (hfits : d.duration + s.duration < 2 ^ 63 * 10 ^ 9)

include hd hs hlow hfits

lemma addInterval_eq :
    addInterval d s =
      if d.tvNsec + s.tvNsec < 10 ^ 9 then ⟨d.tvSec + s.tvSec, d.tvNsec + s.tvNsec⟩
      else ⟨d.tvSec + 1 + s.tvSec, d.tvNsec + s.tvNsec - 10 ^ 9⟩ := by
  obtain ⟨hd₀, hd₁, hd₂, hd₃⟩ := hd
  obtain ⟨hs₀, hs₁, hs₂, hs₃⟩ := hs
  simp only [Timespec.duration] at hlow hfits
  have hnsec : wrap (d.tvNsec + s.tvNsec) = d.tvNsec + s.tvNsec :=
    wrap_of_range (by omega) (by omega)
  unfold addInterval
  simp only [hnsec]
  by_cases hcarry : d.tvNsec + s.tvNsec < 10 ^ 9
  · have hsec : wrap (d.tvSec + s.tvSec) = d.tvSec + s.tvSec :=
      wrap_of_range (by omega) (by omega)
    rw [if_pos hcarry, if_neg (by omega)]
    simp only [hsec]
  · have hdiff : wrap (d.tvNsec + s.tvNsec - 1000000000) = d.tvNsec + s.tvNsec - 1000000000 :=
      wrap_of_range (by omega) (by omega)
    have hsec : wrap (wrap (d.tvSec + 1) + s.tvSec) = d.tvSec + 1 + s.tvSec :=
      Int.bmod_add_bmod.trans (wrap_of_range (by omega) (by omega))
    rw [if_neg hcarry, if_pos (by omega)]
    simp only [hdiff, hsec]
    rfl

lemma addInterval_spec :
    (addInterval d s).Reduced ∧ (addInterval d s).duration = d.duration + s.duration := by
  rw [addInterval_eq hd hs hlow hfits]
  obtain ⟨hd₀, hd₁, hd₂, hd₃⟩ := hd
  obtain ⟨hs₀, hs₁, hs₂, hs₃⟩ := hs
  simp only [Timespec.duration] at hlow hfits ⊢
  split_ifs with hcarry
  · exact ⟨reduced_mk (by omega) (by omega), by dsimp only; omega⟩
  · exact ⟨reduced_mk (by omega) (by omega), by dsimp only; omega⟩

end

/-! ## Subtracting -/

lemma subSeconds_eq {sec : ℤ} (hsec : 0 ≤ sec ∧ sec < 2 ^ 63) (hs : s.Normalised) (nsec : ℤ) :
    subSeconds ⟨sec, nsec⟩ s =
      if sec < s.tvSec then (true, .zero)
      else (decide (sec - s.tvSec = 0 ∧ nsec = 0), ⟨sec - s.tvSec, nsec⟩) := by
  obtain ⟨hs₀, hs₁, _, _⟩ := hs
  have hdiff : wrap (sec - s.tvSec) = sec - s.tvSec := wrap_of_range (by omega) (by omega)
  rw [subSeconds]
  simp only [hdiff, gt_iff_lt]

lemma subInterval_of_le (hd : d.Normalised) (hs : s.Normalised) (hle : s.tvNsec ≤ d.tvNsec) :
    subInterval d s = subSeconds ⟨d.tvSec, d.tvNsec - s.tvNsec⟩ s := by
  have hnsec : wrap (d.tvNsec - s.tvNsec) = d.tvNsec - s.tvNsec := by
    obtain ⟨_, _, hd₂, hd₃⟩ := hd
    obtain ⟨_, _, hs₂, hs₃⟩ := hs
    exact wrap_of_range (by omega) (by omega)
  rw [subInterval, if_neg (by omega), hnsec]

lemma subInterval_of_lt (hd : d.Normalised) (hs : s.Normalised) (hlt : d.tvNsec < s.tvNsec) :
    subInterval d s =
      if d.tvSec = 0 then (true, .zero)
      else subSeconds ⟨d.tvSec - 1, 999999999 - (s.tvNsec - d.tvNsec)⟩ s := by
  obtain ⟨hd₀, hd₁, hd₂, hd₃⟩ := hd
  obtain ⟨_, _, hs₂, hs₃⟩ := hs
  have hdiff : wrap (s.tvNsec - d.tvNsec) = s.tvNsec - d.tvNsec :=
    wrap_of_range (by omega) (by omega)
  have hnsec : wrap (999999999 - (s.tvNsec - d.tvNsec)) = 999999999 - (s.tvNsec - d.tvNsec) :=
    wrap_of_range (by omega) (by omega)
  have hsec : wrap (d.tvSec - 1) = d.tvSec - 1 := wrap_of_range (by omega) (by omega)
  rw [subInterval, if_pos hlt]
  simp only [hdiff, hnsec, hsec]

structure Subtracts (d s : Timespec) : Prop where
  due : (subInterval d s).1 = true ↔ d.duration ≤ s.duration
  normalised : (subInterval d s).2.Normalised
  left : (subInterval d s).2.duration = max 0 (d.duration - s.duration)

def Restores (d s : Timespec) : Prop :=
  (subInterval (addInterval d s) s).2 = d

lemma duration_lt_iff (hd : d.Normalised) (hs : s.Normalised) :
    d.duration < s.duration ↔ d.tvSec < s.tvSec ∨ d.tvSec = s.tvSec ∧ d.tvNsec < s.tvNsec := by
  obtain ⟨_, _, hd₂, hd₃⟩ := hd
  obtain ⟨_, _, hs₂, hs₃⟩ := hs
  rw [Timespec.duration, Timespec.duration]
  omega

lemma subtracts_of_expired (hlt : d.duration < s.duration)
    (heq : subInterval d s = (true, .zero)) : Subtracts d s := by
  rw [← sub_neg] at hlt
  refine ⟨?_, ?_, ?_⟩ <;> rw [heq]
  · exact iff_of_true rfl (sub_nonpos.mp hlt.le)
  · exact normalised_zero
  · exact (max_eq_left hlt.le).symm

section

variable (hd : d.Normalised) (hs : s.Normalised)

include hd hs

lemma subtracts_of_le (hle : s.tvNsec ≤ d.tvNsec) : Subtracts d s := by
  have hcall := subInterval_of_le hd hs hle
  obtain ⟨hd₀, hd₁, hd₂, hd₃⟩ := id hd
  obtain ⟨hs₀, hs₁, hs₂, hs₃⟩ := id hs
  rw [subSeconds_eq ⟨hd₀, hd₁⟩ hs] at hcall
  by_cases hsec : d.tvSec < s.tvSec
  · rw [if_pos hsec] at hcall
    exact subtracts_of_expired ((duration_lt_iff hd hs).mpr (.inl hsec)) hcall
  · rw [if_neg hsec] at hcall
    refine ⟨?_, ?_, ?_⟩ <;> rw [hcall]
    · simp only [decide_eq_true_eq, Timespec.duration]
      omega
    · exact normalised_mk (by omega) (by omega)
    · simp only [Timespec.duration]
      omega

lemma subInterval_of_borrow (hlt : d.tvNsec < s.tvNsec) (hsec : s.tvSec < d.tvSec) :
    subInterval d s =
      (decide (d.tvSec - 1 - s.tvSec = 0 ∧ d.tvNsec - s.tvNsec + 10 ^ 9 - 1 = 0),
        ⟨d.tvSec - 1 - s.tvSec, d.tvNsec - s.tvNsec + 10 ^ 9 - 1⟩) := by
  have hcall := subInterval_of_lt hd hs hlt
  have hnsec : 999999999 - (s.tvNsec - d.tvNsec) = d.tvNsec - s.tvNsec + 10 ^ 9 - 1 := by omega
  obtain ⟨hd₀, hd₁, _, _⟩ := hd
  obtain ⟨hs₀, _, _, _⟩ := id hs
  rwa [if_neg (by omega), subSeconds_eq (by omega) hs, if_neg (by omega), hnsec] at hcall

lemma subtracts_iff : Subtracts d s ↔ s.tvNsec ≤ d.tvNsec ∨ d.tvSec ≤ s.tvSec := by
  constructor
  · intro h
    by_contra hborrow
    rw [not_or, not_le, not_le] at hborrow
    obtain ⟨hlt, hsec⟩ := hborrow
    have hleft := h.left
    rw [subInterval_of_borrow hd hs hlt hsec] at hleft
    simp only [Timespec.duration] at hleft
    omega
  · intro h
    by_cases hle : s.tvNsec ≤ d.tvNsec
    · exact subtracts_of_le hd hs hle
    · rw [not_le] at hle
      have hexpired : d.duration < s.duration := (duration_lt_iff hd hs).mpr (by omega)
      apply subtracts_of_expired hexpired
      rw [subInterval_of_lt hd hs hle]
      obtain ⟨hd₀, hd₁, hd₂, hd₃⟩ := hd
      split_ifs with hzero
      · rfl
      · rw [subSeconds_eq (by omega) hs, if_pos (by omega)]

lemma restores_iff (hfits : d.duration + s.duration < 2 ^ 63 * 10 ^ 9) :
    Restores d s ↔ d.tvNsec + s.tvNsec < 10 ^ 9 := by
  have hnonneg := add_nonneg hd.duration_nonneg hs.duration_nonneg
  have hadd := addInterval_eq hd.reduced hs.reduced (le_trans (by decide) hnonneg) hfits
  obtain ⟨hd₀, hd₁, hd₂, hd₃⟩ := hd
  obtain ⟨hs₀, hs₁, hs₂, hs₃⟩ := id hs
  simp only [Timespec.duration] at hfits
  rw [Restores, hadd]
  split_ifs with hcarry
  · have hsum : Timespec.Normalised ⟨d.tvSec + s.tvSec, d.tvNsec + s.tvNsec⟩ :=
      normalised_mk (by omega) (by omega)
    have hle : s.tvNsec ≤ d.tvNsec + s.tvNsec := by omega
    have hsec : ¬ d.tvSec + s.tvSec < s.tvSec := by omega
    rw [subInterval_of_le hsum hs hle, subSeconds_eq ⟨hsum.sec_nonneg, hsum.sec_lt⟩ hs,
      if_neg hsec]
    refine iff_of_true ?_ hcarry
    simp only [add_sub_cancel_right]
  · have hsum : Timespec.Normalised ⟨d.tvSec + 1 + s.tvSec, d.tvNsec + s.tvNsec - 10 ^ 9⟩ :=
      normalised_mk (by omega) (by omega)
    have hlt : d.tvNsec + s.tvNsec - 10 ^ 9 < s.tvNsec := by omega
    have hsec : s.tvSec < d.tvSec + 1 + s.tvSec := by omega
    rw [subInterval_of_borrow hsum hs hlt hsec]
    refine iff_of_false ?_ hcarry
    intro heq
    have hnsec := congrArg Timespec.tvNsec heq
    dsimp only at hnsec
    omega

end

/-- Subtraction is exact unless a second is borrowed from a time with more
seconds than the interval, and undoes an addition unless that has carried. -/
theorem interval_exact_iff (hd : d.Normalised) (hs : s.Normalised) :
    (Subtracts d s ↔ s.tvNsec ≤ d.tvNsec ∨ d.tvSec ≤ s.tvSec) ∧
      (d.duration + s.duration < 2 ^ 63 * 10 ^ 9 → (Restores d s ↔ d.tvNsec + s.tvNsec < 10 ^ 9)) :=
  ⟨subtracts_iff hd hs, restores_iff hd hs⟩

theorem interval_exact_two_seconds :
    Subtracts ⟨2, 5000000⟩ ⟨0, 1000000⟩ ∧ Restores ⟨2, 5000000⟩ ⟨0, 1000000⟩ := by
  have hd : Timespec.Normalised ⟨2, 5000000⟩ := by decide
  have hs : Timespec.Normalised ⟨0, 1000000⟩ := by decide
  obtain ⟨hsubtracts, hrestores⟩ := interval_exact_iff hd hs
  exact ⟨hsubtracts.mpr (by decide), (hrestores (by decide)).mpr (by decide)⟩

theorem interval_inexact :
    Timespec.Normalised ⟨1, 0⟩ ∧ Timespec.Normalised ⟨0, 1⟩ ∧
      subInterval ⟨1, 0⟩ ⟨0, 1⟩ = (false, ⟨0, 999999998⟩) ∧ ¬ Subtracts ⟨1, 0⟩ ⟨0, 1⟩ ∧
      ¬ Restores ⟨0, 999999999⟩ ⟨0, 1⟩ := by
  refine ⟨by decide, by decide, by decide, ?_, ?_⟩
  · intro h
    have hleft := h.left
    revert hleft
    decide
  · rw [Restores]
    decide

end Cottage.Time
