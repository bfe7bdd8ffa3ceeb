import Mathlib.Data.Nat.ModEq
import Mathlib.Tactic.Ring

/-!
# Rings of sequence-numbered slots

A bounded ring of `N` slots serves positions `0, 1, 2, …`; position `p` lives
in slot `p % N`.  At any time the ring covers the window of positions from
`base` on, and the number stored in a slot tells whether the position of the
window that lives there is ready: it is `p + 1` if it is and `p` if it is not.
-/

namespace Cottage.SequenceRing

open Function

variable {N base p q : ℕ}

lemma eq_of_slot_eq (hp : base ≤ p) (hpN : p < base + N) (hq : base ≤ q)
    (hqN : q < base + N) (hslot : p % N = q % N) : p = q := by
  wlog hle : p ≤ q generalizing p q with H
  · exact (H hq hqN hp hpN hslot.symm (by omega)).symm
  · have hdvd : N ∣ q - p := (Nat.modEq_iff_dvd' hle).mp hslot
    have hzero : q - p = 0 := Nat.eq_zero_of_dvd_of_lt hdvd (by omega)
    omega

lemma exists_slot_eq (hN : 0 < N) (base p : ℕ) :
    ∃ q, base ≤ q ∧ q < base + N ∧ q % N = p % N := by
  have hlt : (p + (N - base % N)) % N < N := Nat.mod_lt _ hN
  refine ⟨base + (p + (N - base % N)) % N, by omega, by omega, ?_⟩
  have hbase : base % N < N := Nat.mod_lt _ hN
  have hsum : base + (p + (N - base % N)) = p + N * (base / N + 1) := by
    have hdiv := Nat.div_add_mod base N
    have hexpand : N * (base / N + 1) = N * (base / N) + N := by ring
    omega
  rw [Nat.add_mod_mod, hsum, Nat.add_mul_mod_self_left]

lemma succ_mod_ne (hN : 1 < N) (p : ℕ) : (p + 1) % N ≠ p % N := by
  intro h
  have hdvd : N ∣ p + 1 - p := (Nat.modEq_iff_dvd' (Nat.le_succ p)).mp h.symm
  have hle : N ≤ 1 := Nat.le_of_dvd Nat.one_pos (by simpa using hdvd)
  omega

/-- The slot numbers tell, for each position of the window, whether it is
ready. -/
structure Encodes (N base : ℕ) (ready : ℕ → Prop) (seq : ℕ → ℕ) : Prop where
  of_ready : ∀ p, base ≤ p → p < base + N → ready p → seq (p % N) = p + 1
  of_not_ready : ∀ p, base ≤ p → p < base + N → ¬ ready p → seq (p % N) = p

namespace Encodes

variable {ready : ℕ → Prop} {seq : ℕ → ℕ}

variable (h : Encodes N base ready seq)

include h

lemma cases (hN : 0 < N) (p : ℕ) :
    ∃ q, base ≤ q ∧ q < base + N ∧ q % N = p % N ∧
      (ready q ∧ seq (p % N) = q + 1 ∨ ¬ ready q ∧ seq (p % N) = q) := by
  obtain ⟨q, hq, hqN, hslot⟩ := exists_slot_eq hN base p
  refine ⟨q, hq, hqN, hslot, ?_⟩
  by_cases hready : ready q
  · exact .inl ⟨hready, hslot ▸ h.of_ready q hq hqN hready⟩
  · exact .inr ⟨hready, hslot ▸ h.of_not_ready q hq hqN hready⟩

lemma eq_of_self (hN : 1 < N) (hseq : seq (p % N) = p) : base ≤ p ∧ p < base + N ∧ ¬ ready p := by
  obtain ⟨q, hq, hqN, hslot, ⟨_, hval⟩ | ⟨hready, hval⟩⟩ := h.cases (by omega) p
  · rw [hseq] at hval
    exact absurd (hval ▸ hslot).symm (succ_mod_ne hN q)
  · obtain rfl : p = q := hseq.symm.trans hval
    exact ⟨hq, hqN, hready⟩

lemma eq_of_succ (hN : 1 < N) (hseq : seq (p % N) = p + 1) :
    base ≤ p ∧ p < base + N ∧ ready p := by
  obtain ⟨q, hq, hqN, hslot, ⟨hready, hval⟩ | ⟨_, hval⟩⟩ := h.cases (by omega) p
  · obtain rfl : p = q := by omega
    exact ⟨hq, hqN, hready⟩
  · rw [hseq] at hval
    exact absurd (hval ▸ hslot) (succ_mod_ne hN p)

lemma le_of_not_ready (hN : 1 < N) (hp : base ≤ p) (hready : ¬ ready p) : seq (p % N) ≤ p := by
  obtain ⟨q, hq, hqN, hslot, hval⟩ := h.cases (by omega) p
  by_cases hpN : p < base + N
  · exact (h.of_not_ready p hp hpN hready).le
  · rcases hval with ⟨_, hval⟩ | ⟨_, hval⟩ <;> omega

lemma congr {ready' : ℕ → Prop} (hiff : ∀ p, base ≤ p → p < base + N → (ready' p ↔ ready p)) :
    Encodes N base ready' seq where
  of_ready p hp hpN hr := h.of_ready p hp hpN ((hiff p hp hpN).mp hr)
  of_not_ready p hp hpN hr := h.of_not_ready p hp hpN fun hr' => hr ((hiff p hp hpN).mpr hr')

lemma publish (hp : base ≤ p) (hpN : p < base + N) :
    Encodes N base (fun q => ready q ∨ q = p) (update seq (p % N) (p + 1)) where
  of_ready q hq hqN hready := by
    by_cases hqp : q = p
    · simp [hqp]
    · have hslot : q % N ≠ p % N := fun heq => hqp (eq_of_slot_eq hq hqN hp hpN heq)
      rw [update_of_ne hslot]
      exact h.of_ready q hq hqN (hready.resolve_right hqp)
  of_not_ready q hq hqN hready := by
    obtain ⟨hready, hqp⟩ := not_or.mp hready
    have hslot : q % N ≠ p % N := fun heq => hqp (eq_of_slot_eq hq hqN hp hpN heq)
    rw [update_of_ne hslot]
    exact h.of_not_ready q hq hqN hready

/-- Adding the size of the ring to the first position of the window hands its
slot to the position that enters the window. -/
lemma release (hnext : ¬ ready (base + N)) :
    Encodes N (base + 1) ready (update seq (base % N) (base + N)) where
  of_ready q hq hqN hready := by
    have hqlt : q < base + N := by
      rcases Nat.lt_or_ge q (base + N) with hlt | hge
      · exact hlt
      · obtain rfl : q = base + N := by omega
        exact absurd hready hnext
    have hslot : q % N ≠ base % N := fun heq => by
      have := eq_of_slot_eq (by omega) hqlt le_rfl (by omega) heq
      omega
    rw [update_of_ne hslot]
    exact h.of_ready q (by omega) hqlt hready
  of_not_ready q hq hqN hready := by
    rcases Nat.lt_or_ge q (base + N) with hlt | hge
    · have hslot : q % N ≠ base % N := fun heq => by
        have := eq_of_slot_eq (by omega) hlt le_rfl (by omega) heq
        omega
      rw [update_of_ne hslot]
      exact h.of_not_ready q (by omega) hlt hready
    · obtain rfl : q = base + N := by omega
      simp

end Encodes

end Cottage.SequenceRing
