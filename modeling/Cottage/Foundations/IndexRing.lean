import Mathlib.Data.List.Basic

/-!
# Rings between two indices

A ring of `n` slots, in use from the index `head` up to, but not including,
the index `tail`.  Both indices wrap around, and the ring counts as full when
one slot is left, so that equal indices always mean an empty ring.  `toList`
is the queue the ring stands for, oldest entry first; `push` and `pop` are
appending and dropping the first entry.
-/

namespace Cottage.IndexRing

open Function

universe u

structure Ring (α : Type u) (n : ℕ) where
  slot : ℕ → α
  head : ℕ
  tail : ℕ
  head_lt : head < n
  tail_lt : tail < n

variable {α : Type u} {n : ℕ}

lemma add_mod_of_lt {i k : ℕ} (hi : i < n) (hk : k ≤ n) :
    (i + k) % n = if i + k < n then i + k else i + k - n := by
  split_ifs with h
  · exact Nat.mod_eq_of_lt h
  · have hlt : i + k - n < n := by omega
    rw [Nat.mod_eq_sub_mod (by omega), Nat.mod_eq_of_lt hlt]

lemma succ_mod_of_lt {i : ℕ} (hi : i < n) : (i + 1) % n = if i + 1 < n then i + 1 else 0 := by
  rw [add_mod_of_lt hi (by omega)]
  split_ifs with h
  · rfl
  · omega

namespace Ring

def empty (slot : ℕ → α) (hn : 0 < n) : Ring α n where
  slot := slot
  head := 0
  tail := 0
  head_lt := hn
  tail_lt := hn

def IsEmpty (r : Ring α n) : Prop :=
  r.head = r.tail

instance (r : Ring α n) : Decidable r.IsEmpty :=
  inferInstanceAs (Decidable (_ = _))

def IsFull (r : Ring α n) : Prop :=
  (r.tail + 1) % n = r.head

instance (r : Ring α n) : Decidable r.IsFull :=
  inferInstanceAs (Decidable (_ = _))

def push (r : Ring α n) (a : α) : Ring α n where
  slot := update r.slot r.tail a
  head := r.head
  tail := (r.tail + 1) % n
  head_lt := r.head_lt
  tail_lt := Nat.mod_lt _ (Nat.zero_lt_of_lt r.tail_lt)

/-- The first half of `push`: the entry is in its slot, but not yet in use. -/
def store (r : Ring α n) (a : α) : Ring α n :=
  { r with slot := update r.slot r.tail a }

/-- The second half of `push`. -/
def extend (r : Ring α n) : Ring α n :=
  { r with
    tail := (r.tail + 1) % n
    tail_lt := Nat.mod_lt _ (Nat.zero_lt_of_lt r.tail_lt) }

lemma extend_store (r : Ring α n) (a : α) : (r.store a).extend = r.push a := rfl

def front (r : Ring α n) : α :=
  r.slot r.head

def pop (r : Ring α n) : Ring α n where
  slot := r.slot
  head := (r.head + 1) % n
  tail := r.tail
  head_lt := Nat.mod_lt _ (Nat.zero_lt_of_lt r.head_lt)
  tail_lt := r.tail_lt

def size (r : Ring α n) : ℕ :=
  if r.head ≤ r.tail then r.tail - r.head else r.tail + n - r.head

def toList (r : Ring α n) : List α :=
  (List.range r.size).map fun k => r.slot ((r.head + k) % n)

variable (r : Ring α n)

lemma length_toList : r.toList.length = r.size := by
  rw [toList, List.length_map, List.length_range]

lemma size_lt : r.size < n := by
  have htail := r.tail_lt
  unfold size
  split_ifs <;> omega

lemma size_eq_zero_iff : r.size = 0 ↔ r.IsEmpty := by
  have hhead := r.head_lt
  unfold size IsEmpty
  split_ifs <;> omega

lemma toList_eq_nil_iff : r.toList = [] ↔ r.IsEmpty := by
  rw [← List.length_eq_zero_iff, length_toList, size_eq_zero_iff]

lemma toList_empty (slot : ℕ → α) (hn : 0 < n) : (empty slot hn).toList = [] :=
  (toList_eq_nil_iff _).mpr rfl

lemma isFull_iff : r.IsFull ↔ r.size + 1 = n := by
  have hhead := r.head_lt
  have htail := r.tail_lt
  rw [IsFull, succ_mod_of_lt htail, size]
  split_ifs <;> omega

lemma tail_eq : r.tail = (r.head + r.size) % n := by
  have hhead := r.head_lt
  have htail := r.tail_lt
  rw [add_mod_of_lt hhead (Nat.le_of_lt r.size_lt), size]
  split_ifs <;> omega

variable {r}

lemma size_push (a : α) (h : ¬ r.IsFull) : (r.push a).size = r.size + 1 := by
  have hhead := r.head_lt
  have htail := r.tail_lt
  rw [IsFull, succ_mod_of_lt htail] at h
  simp only [size, push, succ_mod_of_lt htail]
  split_ifs at h ⊢ <;> omega

lemma size_pop (h : ¬ r.IsEmpty) : r.size = r.pop.size + 1 := by
  have hhead := r.head_lt
  have htail := r.tail_lt
  rw [IsEmpty] at h
  simp only [size, pop, succ_mod_of_lt hhead]
  split_ifs <;> omega

lemma slot_ne_tail {k : ℕ} (hk : k < r.size) : (r.head + k) % n ≠ r.tail := by
  have hhead := r.head_lt
  have hsize := r.size_lt
  rw [r.tail_eq, add_mod_of_lt hhead (by omega), add_mod_of_lt hhead (by omega)]
  split_ifs <;> omega

lemma toList_store (a : α) : (r.store a).toList = r.toList := by
  apply List.map_congr_left
  intro k hk
  exact update_of_ne (slot_ne_tail (List.mem_range.mp hk)) _ _

lemma toList_push (a : α) (h : ¬ r.IsFull) : (r.push a).toList = r.toList ++ [a] := by
  have hlast : (r.push a).slot ((r.head + r.size) % n) = a := by
    rw [← r.tail_eq]
    exact update_self _ _ _
  rw [toList, size_push a h, List.range_succ, List.map_append, toList]
  congr 1
  · apply List.map_congr_left
    intro k hk
    exact update_of_ne (slot_ne_tail (List.mem_range.mp hk)) _ _
  · rw [List.map_singleton]
    exact congrArg (fun x => [x]) hlast

lemma toList_extend (h : ¬ r.IsFull) : r.extend.toList = r.toList ++ [r.slot r.tail] := by
  have hpush : r.extend = r.push (r.slot r.tail) := by
    rw [← extend_store, store, update_eq_self]
  rw [hpush, toList_push _ h]

lemma toList_pop (h : ¬ r.IsEmpty) : r.toList = r.front :: r.pop.toList := by
  have hhead := r.head_lt
  have hfirst : (r.head + 0) % n = r.head := Nat.mod_eq_of_lt hhead
  rw [toList, size_pop h, List.range_succ_eq_map, List.map_cons, List.map_map, hfirst]
  refine congrArg (List.cons r.front) ?_
  apply List.map_congr_left
  intro k _
  have hshift : (r.head + (k + 1)) % n = ((r.head + 1) % n + k) % n := by
    rw [Nat.mod_add_mod, Nat.add_assoc, Nat.add_comm 1 k]
  exact congrArg r.slot hshift

end Ring

end Cottage.IndexRing
