import Cottage.Foundations.ByteMemory
import Mathlib.Data.List.Nodup

/-!
# Lists threaded through memory

A null-terminated list whose links are words of memory: the word at a node is
the address of the next node.  `Chain m head l` states that from `head` on the
links of `m` run through the addresses of `l`, in that order.
-/

namespace Cottage.LinkedList

open ByteMemory

def Chain (m : Memory) : ℕ → List ℕ → Prop
  | head, [] => head = 0
  | head, x :: rest => head = x ∧ x ≠ 0 ∧ Chain m (read64 m x) rest

variable {m m' : Memory} {head : ℕ} {l : List ℕ}

lemma Chain.congr (h : Chain m head l) (hread : ∀ x ∈ l, read64 m' x = read64 m x) :
    Chain m' head l := by
  induction l generalizing head with
  | nil => exact h
  | cons x rest ih =>
    obtain ⟨hhead, hx, hrest⟩ := h
    refine ⟨hhead, hx, ?_⟩
    rw [hread x (.head _)]
    apply ih hrest
    intro y hy
    exact hread y (.tail x hy)

lemma Chain.eq_nil (h : Chain m 0 l) : l = [] := by
  cases l with
  | nil => rfl
  | cons x rest => exact absurd h.1.symm h.2.1

lemma Chain.exists_cons (h : Chain m head l) (hhead : head ≠ 0) :
    ∃ rest, l = head :: rest ∧ Chain m (read64 m head) rest := by
  cases l with
  | nil => exact absurd h hhead
  | cons x rest =>
    obtain ⟨rfl, _, hrest⟩ := h
    exact ⟨rest, rfl, hrest⟩

lemma chain_of_links {f : ℕ → ℕ} {n : ℕ} (hne : ∀ i, i ≤ n → f i ≠ 0)
    (hlink : ∀ i, i < n → read64 m (f i) = f (i + 1)) (hlast : read64 m (f n) = 0) :
    Chain m (f 0) ((List.range (n + 1)).map f) := by
  induction n generalizing f with
  | zero => exact ⟨rfl, hne 0 le_rfl, hlast⟩
  | succ n ih =>
    rw [List.range_succ_eq_map, List.map_cons, List.map_map]
    refine ⟨rfl, hne 0 (Nat.zero_le _), ?_⟩
    rw [hlink 0 (Nat.succ_pos n)]
    apply ih (f := f ∘ Nat.succ)
    · intro i hi
      exact hne (i + 1) (Nat.succ_le_succ hi)
    · intro i hi
      exact hlink (i + 1) (Nat.succ_lt_succ hi)
    · exact hlast

/-- The loop that links `n` cells, each to its successor. -/
def linkCells (f : ℕ → ℕ) (m : Memory) (n : ℕ) : Memory :=
  (List.range n).foldl (fun m i => write64 m (f i) (f (i + 1))) m

lemma linkCells_succ (f : ℕ → ℕ) (m : Memory) (n : ℕ) :
    linkCells f m (n + 1) = write64 (linkCells f m n) (f n) (f (n + 1)) := by
  rw [linkCells, List.range_succ, List.foldl_append]
  rfl

section

variable {f : ℕ → ℕ} {n : ℕ}

lemma read64_linkCells (hspace : ∀ i j, i < j → f i + 8 ≤ f j) (hlt : ∀ i, i ≤ n → f i < 2 ^ 64)
    {i : ℕ} (hi : i < n) : read64 (linkCells f m n) (f i) = f (i + 1) := by
  induction n with
  | zero => omega
  | succ n ih =>
    rw [linkCells_succ]
    by_cases hin : i = n
    · rw [hin, read64_write64, Nat.mod_eq_of_lt (hlt (n + 1) le_rfl)]
    · have hlt' : i < n := by omega
      rw [read64_write64_of_disjoint _ (.inl (hspace i n hlt'))]
      apply ih _ hlt'
      intro j hj
      exact hlt j (by omega)

lemma agreeOn_linkCells {A : ℕ → Prop} (m : Memory)
    (hA : ∀ x, A x → ∀ i, i < n → ¬ (f i ≤ x ∧ x < f i + 8)) : AgreeOn m (linkCells f m n) A := by
  induction n with
  | zero => exact fun _ _ => rfl
  | succ n ih =>
    rw [linkCells_succ]
    refine (ih ?_).trans ?_
    · intro x hx i hi
      exact hA x hx i (by omega)
    · intro x hx
      exact write64_apply_of_outside _ (hA x hx n (Nat.lt_succ_self n))

end

end Cottage.LinkedList
