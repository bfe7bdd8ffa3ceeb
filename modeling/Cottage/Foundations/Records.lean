import Mathlib.Data.Nat.Notation
import Mathlib.Logic.Function.Basic

/-!
# Records that point at each other

A store of records that are named by their addresses: a new record gets the
next name, and every record can be overwritten.  A pointer is a name; it is
valid when it is below the number of records.
-/

namespace Cottage

open Function

structure Records (α : Type*) where
  count : ℕ
  get : ℕ → α

namespace Records

variable {α : Type*} (s : Records α) (a : α) {ref ref' : ℕ}

/-- The store with a further record, whose name is the old number of records. -/
def alloc : Records α :=
  ⟨s.count + 1, update s.get s.count a⟩

def set (ref : ℕ) : Records α :=
  ⟨s.count, update s.get ref a⟩

@[simp] lemma count_alloc : (s.alloc a).count = s.count + 1 := rfl

@[simp] lemma get_alloc_self : (s.alloc a).get s.count = a :=
  update_self _ _ _

lemma get_alloc_of_lt (href : ref < s.count) : (s.alloc a).get ref = s.get ref :=
  update_of_ne (Nat.ne_of_lt href) _ _

lemma get_alloc_cases (href : ref < (s.alloc a).count) :
    (ref = s.count ∧ (s.alloc a).get ref = a) ∨
      ref < s.count ∧ (s.alloc a).get ref = s.get ref := by
  rcases Nat.lt_succ_iff_lt_or_eq.mp href with hlt | rfl
  · exact .inr ⟨hlt, s.get_alloc_of_lt a hlt⟩
  · exact .inl ⟨rfl, s.get_alloc_self a⟩

@[simp] lemma get_set_self (ref : ℕ) : (s.set a ref).get ref = a :=
  update_self _ _ _

lemma get_set_of_ne (hne : ref' ≠ ref) : (s.set a ref).get ref' = s.get ref' :=
  update_of_ne hne _ _

end Records

end Cottage
