import Mathlib.Logic.Function.Iterate
import Mathlib.Tactic.SplitIfs

/-!
# Mixing the words of an array

A word of an array is combined with a value that is computed from the other
words.  When combining twice with the same value gives the word back, such a
step undoes itself, since the value is the same the second time; whatever is
built from such steps is a bijection on the arrays.
-/

namespace Cottage.Mixing

variable {α β γ : Type*} {n : ℕ} {i j : Fin n}

def Ignores (f : Vector α n → β) (i : Fin n) : Prop :=
  ∀ x a, f (x.setIfInBounds i a) = f x

lemma get_setIfInBounds (x : Vector α n) (a : α) :
    (x.setIfInBounds i a).get j = if i = j then a else x.get j := by
  have hget (y : Vector α n) (k : Fin n) : y.get k = y[(k : ℕ)] := rfl
  rw [hget, hget, Vector.getElem_setIfInBounds]
  simp only [Fin.ext_iff]

lemma ignores_get (hne : i ≠ j) : Ignores (fun x : Vector α n => x.get j) i := by
  intro x a
  exact (get_setIfInBounds x a).trans (if_neg hne)

lemma Ignores.map₂ {f : Vector α n → β} {g : Vector α n → β} (hf : Ignores f i)
    (hg : Ignores g i) (h : β → β → γ) : Ignores (fun x => h (f x) (g x)) i := by
  intro x a
  simp only [hf x a, hg x a]

def mix (op : α → α → α) (f : Vector α n → α) (i : Fin n) (x : Vector α n) : Vector α n :=
  x.setIfInBounds i (op (x.get i) (f x))

lemma mix_involutive {op : α → α → α} {f : Vector α n → α} (hop : ∀ a b, op (op a b) b = a)
    (hf : Ignores f i) : Function.Involutive (mix op f i) := by
  intro x
  have hvalue : f (mix op f i x) = f x := hf x _
  have hword : (mix op f i x).get i = op (x.get i) (f x) := by
    rw [mix, get_setIfInBounds, if_pos rfl]
  rw [mix, hvalue, hword, hop, mix]
  apply Vector.ext
  intro k hk
  simp only [Vector.getElem_setIfInBounds]
  split_ifs with heq
  · subst heq
    rfl
  · rfl

end Cottage.Mixing
