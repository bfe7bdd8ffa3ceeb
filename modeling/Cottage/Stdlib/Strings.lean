import Cottage.Foundations.ByteMemory
import Cottage.Foundations.ByteReader

/-!
# Moving and comparing bytes

The functions of `string.c` that move a block of bytes and compare two of them.
`memmove` copies in the direction in which no byte is overwritten before it is
copied.  `strncmp` is `memcmp`, which takes no notice of the end of a string:
two strings that differ do so at the end of the shorter one at the latest, but
after two equal strings the comparison runs on.
-/

namespace Cottage.Stdlib

open ByteMemory ByteReader Reader

def memmove (m : Memory) (dest src n : ℕ) : Memory × ℕ :=
  if src > dest then (memcpy m dest src n, dest)
  else if src < dest then (memcpyBackward m dest src n, dest)
  else (m, dest)

/-- The bytes are moved as if all were read before any is written. -/
theorem memmove_simultaneous (m : Memory) (dest src n : ℕ) :
    (∀ i, i < n → (memmove m dest src n).1 (dest + i) = m (src + i)) ∧
      ∀ x, ¬ (dest ≤ x ∧ x < dest + n) → (memmove m dest src n).1 x = m x := by
  rw [memmove]
  split_ifs with hforward hbackward
  · refine ⟨fun i hi => memcpy_apply_of_lt m hi ?_, fun x => memcpy_apply_of_outside m dest src⟩
    intro i _ j hj
    omega
  · refine ⟨fun i hi => memcpyBackward_apply_of_lt m hi ?_,
      fun x => memcpyBackward_apply_of_outside m dest src⟩
    intro i _ j hj
    omega
  · obtain rfl : src = dest := by omega
    exact ⟨fun i _ => rfl, fun x _ => rfl⟩

def memcmp (s1 s2 : ℕ) : ℕ → Reader ℤ
  | 0 => pure 0
  | n + 1 => do
      let b1 ← read s1
      let b2 ← read s2
      if b1 ≠ b2 then pure (if b1 < b2 then -1 else 1) else memcmp (s1 + 1) (s2 + 1) n

def strncmp (s1 s2 n : ℕ) : Reader ℤ :=
  memcmp s1 s2 n

variable {m : ℕ → UInt8} {a b n : ℕ} {s t : List UInt8}

lemma memcmp_of_ne (hne : m a ≠ m b) :
    (memcmp a b (n + 1)).run m = (if m a < m b then -1 else 1) ∧
      (memcmp a b (n + 1)).reads m = [a, b] := by
  simp [memcmp, hne]

lemma memcmp_of_eq (heq : m a = m b) :
    (memcmp a b (n + 1)).run m = (memcmp (a + 1) (b + 1) n).run m ∧
      (memcmp a b (n + 1)).reads m = a :: b :: (memcmp (a + 1) (b + 1) n).reads m := by
  simp [memcmp, heq]

/-! ## Strings in memory -/

/-- The bytes of a string are at the address, and a null byte after them. -/
def HoldsString (m : ℕ → UInt8) (a : ℕ) : List UInt8 → Prop
  | [] => m a = 0
  | c :: s => m a = c ∧ c ≠ 0 ∧ HoldsString m (a + 1) s

def InString (a : ℕ) (s : List UInt8) (x : ℕ) : Prop :=
  a ≤ x ∧ x ≤ a + s.length

/-- What the standard asks of `strncmp`. -/
structure Compares (m : ℕ → UInt8) (a b n : ℕ) (s t : List UInt8) : Prop where
  neg : (strncmp a b n).run m < 0 ↔ s.take n < t.take n
  pos : 0 < (strncmp a b n).run m ↔ t.take n < s.take n
  reads : ∀ x ∈ (strncmp a b n).reads m, InString a s x ∨ InString b t x

lemma inString_self (a : ℕ) (s : List UInt8) : InString a s a :=
  ⟨le_rfl, Nat.le_add_right a s.length⟩

lemma inString_cons {x : ℕ} (c : UInt8) (h : InString (a + 1) s x) : InString a (c :: s) x := by
  obtain ⟨hlow, hhigh⟩ := h
  rw [InString, List.length_cons]
  omega

lemma compares_zero (m : ℕ → UInt8) (a b : ℕ) (s t : List UInt8) : Compares m a b 0 s t := by
  constructor <;> simp [strncmp, memcmp]

lemma compares_of_ne (hne : m a ≠ m b) (hlt : s.take (n + 1) < t.take (n + 1) ↔ m a < m b)
    (hgt : t.take (n + 1) < s.take (n + 1) ↔ m b < m a) : Compares m a b (n + 1) s t := by
  obtain ⟨hrun, hreads⟩ := memcmp_of_ne (n := n) hne
  refine ⟨?_, ?_, ?_⟩
  · rw [strncmp, hrun, hlt]
    split_ifs with h <;> simp [h]
  · rw [strncmp, hrun, hgt]
    split_ifs with h
    · simp [UInt8.le_of_lt h]
    · simp [UInt8.lt_of_le_of_ne (UInt8.not_lt.mp h) hne.symm]
  · rw [strncmp, hreads]
    simp [inString_self]

lemma Compares.cons (c : UInt8) (heq : m a = m b) (h : Compares m (a + 1) (b + 1) n s t) :
    Compares m a b (n + 1) (c :: s) (c :: t) := by
  obtain ⟨hrun, hreads⟩ := memcmp_of_eq (n := n) heq
  obtain ⟨hneg, hpos, hin⟩ := h
  refine ⟨?_, ?_, ?_⟩
  · rw [strncmp, hrun, ← strncmp, hneg]
    simp
  · rw [strncmp, hrun, ← strncmp, hpos]
    simp
  · rw [strncmp, hreads]
    simp only [List.forall_mem_cons]
    refine ⟨.inl (inString_self a _), .inr (inString_self b _), ?_⟩
    intro x hx
    exact (hin x hx).imp (inString_cons c) (inString_cons c)

lemma compares_of_ne_or_le (hs : HoldsString m a s) (ht : HoldsString m b t)
    (h : s ≠ t ∨ n ≤ s.length + 1) : Compares m a b n s t := by
  induction n generalizing a b s t with
  | zero => exact compares_zero m a b s t
  | succ n ih =>
    cases s with
    | nil =>
      cases t with
      | nil =>
        obtain rfl : n = 0 := by simpa using h
        have heq : m a = m b := hs.trans ht.symm
        constructor <;> simp [strncmp, memcmp, heq, inString_self]
      | cons d t =>
        obtain ⟨hd, hpos, _⟩ := ht
        have ha : m a = 0 := hs
        apply compares_of_ne <;> simp [ha, hd, hpos.symm, UInt8.pos_iff_ne_zero, hpos]
    | cons c s =>
      obtain ⟨hc, hpos, hs⟩ := hs
      cases t with
      | nil =>
        have hb : m b = 0 := ht
        apply compares_of_ne <;> simp [hb, hc, UInt8.pos_iff_ne_zero, hpos]
      | cons d t =>
        obtain ⟨hd, _, ht⟩ := ht
        by_cases hcd : c = d
        · subst hcd
          apply (ih hs ht ?_).cons c (hc.trans hd.symm)
          simpa using h
        · apply compares_of_ne <;> simp [hc, hd, hcd, Ne.symm hcd, List.cons_lt_cons_iff]

lemma run_strncmp_length (hs : HoldsString m a s) (ht : HoldsString m b t) :
    (strncmp a b s.length).run m = 0 ↔ s <+: t := by
  obtain ⟨hneg, hpos, _⟩ := compares_of_ne_or_le hs ht (.inr (Nat.le_succ s.length))
  rw [List.take_length] at hneg hpos
  rw [List.prefix_iff_eq_take]
  constructor
  · intro hrun
    rw [hrun] at hneg hpos
    exact List.le_antisymm (List.not_lt.mp (hpos.not.mp (lt_irrefl 0)))
      (List.not_lt.mp (hneg.not.mp (lt_irrefl 0)))
  · intro heq
    rw [← heq] at hneg hpos
    exact le_antisymm (not_lt.mp (hpos.not.mpr (List.lt_irrefl s)))
      (not_lt.mp (hneg.not.mpr (List.lt_irrefl s)))

lemma mem_reads_memcmp (m : ℕ → UInt8) (a b n : ℕ) :
    a ∈ (memcmp a b (n + 1)).reads m ∧ b ∈ (memcmp a b (n + 1)).reads m := by
  simp [memcmp]

lemma mem_reads_of_equal (hs : HoldsString m a s) (ht : HoldsString m b s) (k : ℕ) :
    a + (s.length + 1) ∈ (memcmp a b (s.length + k + 2)).reads m ∧
      b + (s.length + 1) ∈ (memcmp a b (s.length + k + 2)).reads m := by
  induction s generalizing a b with
  | nil =>
    rw [List.length_nil, Nat.zero_add, (memcmp_of_eq (hs.trans ht.symm)).2]
    obtain ⟨ha, hb⟩ := mem_reads_memcmp m (a + 1) (b + 1) k
    exact ⟨.tail _ (.tail _ ha), .tail _ (.tail _ hb)⟩
  | cons c s ih =>
    obtain ⟨hc, _, hs⟩ := hs
    obtain ⟨hd, _, ht⟩ := ht
    obtain ⟨ha, hb⟩ := ih hs ht
    have hlength : (c :: s).length + k + 2 = s.length + k + 2 + 1 := by
      rw [List.length_cons]
      omega
    have hshift (x : ℕ) : x + ((c :: s).length + 1) = x + 1 + (s.length + 1) := by
      rw [List.length_cons]
      omega
    rw [hshift a, hshift b, hlength, (memcmp_of_eq (hc.trans hd.symm)).2]
    exact ⟨.tail _ (.tail _ ha), .tail _ (.tail _ hb)⟩

/-- The comparison is right unless equal strings end before the count does. -/
theorem strncmp_compares_iff (hs : HoldsString m a s) (ht : HoldsString m b t) (n : ℕ) :
    Compares m a b n s t ↔ s ≠ t ∨ n ≤ s.length + 1 := by
  refine ⟨?_, compares_of_ne_or_le hs ht⟩
  intro h
  by_contra hbeyond
  rw [not_or, not_not, not_le] at hbeyond
  obtain ⟨rfl, hn⟩ := hbeyond
  obtain ⟨k, rfl⟩ : ∃ k, n = s.length + k + 2 := ⟨n - (s.length + 2), by omega⟩
  obtain ⟨ha, hb⟩ := mem_reads_of_equal hs ht k
  have hina := h.reads _ ha
  have hinb := h.reads _ hb
  simp only [InString] at hina hinb
  omega

def memoryOf (bytes : List UInt8) : ℕ → UInt8 :=
  fun x => bytes.getD x 0

theorem strncmp_compares_ab_abc :
    Compares (memoryOf [97, 98, 0, 97, 98, 99, 0]) 0 3 10 [97, 98] [97, 98, 99] := by
  have hs : HoldsString (memoryOf [97, 98, 0, 97, 98, 99, 0]) 0 [97, 98] :=
    ⟨rfl, by decide, rfl, by decide, rfl⟩
  have ht : HoldsString (memoryOf [97, 98, 0, 97, 98, 99, 0]) 3 [97, 98, 99] :=
    ⟨rfl, by decide, rfl, by decide, rfl, by decide, rfl⟩
  exact (strncmp_compares_iff hs ht 10).mpr (.inl (by decide))

theorem strncmp_beyond_end :
    HoldsString (memoryOf [97, 0, 98, 97, 0, 99]) 0 [97] ∧
      HoldsString (memoryOf [97, 0, 98, 97, 0, 99]) 3 [97] ∧
      (strncmp 0 3 3).run (memoryOf [97, 0, 98, 97, 0, 99]) = -1 ∧
      (strncmp 0 3 3).reads (memoryOf [97, 0, 98, 97, 0, 99]) = [0, 3, 1, 4, 2, 5] ∧
      ¬ Compares (memoryOf [97, 0, 98, 97, 0, 99]) 0 3 3 [97] [97] := by
  have hrun : (strncmp 0 3 3).run (memoryOf [97, 0, 98, 97, 0, 99]) = -1 := by decide
  refine ⟨⟨rfl, by decide, rfl⟩, ⟨rfl, by decide, rfl⟩, hrun, by decide, ?_⟩
  intro h
  have hneg := h.neg
  revert hneg
  decide

end Cottage.Stdlib
