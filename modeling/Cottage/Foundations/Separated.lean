import Mathlib.Data.List.TakeWhile

/-!
# Sequences with separators

A list read as components between separators, where empty components do not
count.  `components` is the list of components by definition; a scanner takes
the component at the front and passes over the separators behind it, again and
again, and the lemmas say that it meets the components in order.
-/

namespace Cottage.Separated

universe u

variable {α : Type u} [DecidableEq α] (sep : α)

def components (l : List α) : List (List α) :=
  (l.splitOn sep).filter (· ≠ [])

/-- The component at the front of a list that does not start with a separator. -/
def front (l : List α) : List α :=
  l.takeWhile (· ≠ sep)

/-- What follows the component at the front and the separators behind it. -/
def rest (l : List α) : List α :=
  (l.dropWhile (· ≠ sep)).dropWhile (· = sep)

@[simp] lemma components_nil : components sep [] = [] := rfl

@[simp] lemma components_cons_sep (l : List α) :
    components sep (sep :: l) = components sep l := by
  rw [components, List.splitOn_cons_eq_if_modifyHead, if_pos (beq_self_eq_true sep),
    List.filter_cons_of_neg (by simp), components]

lemma components_append_sep (l l' : List α) :
    components sep (l ++ sep :: l') = components sep l ++ components sep l' := by
  rw [components, List.splitOn_append_cons_self, List.filter_append, components, components]

lemma components_dropWhile (l : List α) :
    components sep (l.dropWhile (· = sep)) = components sep l := by
  induction l with
  | nil => rfl
  | cons x l ih =>
    by_cases hx : x = sep
    · subst hx
      rw [List.dropWhile_cons_of_pos (by simp), components_cons_sep, ih]
    · rw [List.dropWhile_cons_of_neg (by simpa using hx)]

variable {sep} {l : List α}

lemma not_sep_of_mem_front {x : α} (hx : x ∈ front sep l) : x ≠ sep := by
  simpa using List.mem_takeWhile_imp hx

lemma front_ne_nil (hne : l ≠ []) (hhead : l.head? ≠ some sep) : front sep l ≠ [] := by
  cases l with
  | nil => exact absurd rfl hne
  | cons x l =>
    have hx : x ≠ sep := fun h => hhead (congrArg some h)
    rw [front, List.takeWhile_cons_of_pos (by simpa using hx)]
    exact List.cons_ne_nil _ _

lemma sep_notMem_front : sep ∉ front sep l :=
  fun hmem => not_sep_of_mem_front hmem rfl

lemma head_dropWhile_ne (l : List α) : (l.dropWhile (· = sep)).head? ≠ some sep := by
  intro h
  have hdrop := List.head?_dropWhile_not (fun a => decide (a = sep)) l
  rw [h] at hdrop
  simp at hdrop

lemma head_rest_ne (l : List α) : (rest sep l).head? ≠ some sep :=
  head_dropWhile_ne _

lemma components_eq_singleton (hne : l ≠ []) (hsep : sep ∉ l) : components sep l = [l] := by
  rw [components, List.splitOn_eq_singleton hsep, List.filter_cons_of_pos (by simpa using hne),
    List.filter_nil]

section

variable (hne : l ≠ []) (hhead : l.head? ≠ some sep)

include hne hhead

lemma components_eq_cons : components sep l = front sep l :: components sep (rest sep l) := by
  have hfront := front_ne_nil hne hhead
  have hsplit : front sep l ++ l.dropWhile (· ≠ sep) = l := List.takeWhile_append_dropWhile
  rw [rest, components_dropWhile]
  cases htail : l.dropWhile (· ≠ sep) with
  | nil =>
    rw [htail, List.append_nil] at hsplit
    have hsep : sep ∉ l := hsplit ▸ sep_notMem_front
    rw [components_eq_singleton hne hsep, components_nil, hsplit]
  | cons x tail =>
    have hx : x = sep := by
      have hdrop := List.head?_dropWhile_not (fun a => decide (a ≠ sep)) l
      rw [htail] at hdrop
      simpa using hdrop
    subst hx
    rw [htail] at hsplit
    have hfirst : l.splitOn x = front x l :: tail.splitOn x := by
      have hnot : x ∉ front x l := sep_notMem_front
      rw [← List.splitOn_append_cons_self_of_not_mem hnot tail, hsplit]
    rw [components, hfirst, components_cons_sep, List.filter_cons_of_pos (by simpa using hfront),
      components]

lemma length_rest_lt : (rest sep l).length < l.length := by
  have hfront := List.length_pos_iff.mpr (front_ne_nil hne hhead)
  have hsplit : (front sep l).length + (l.dropWhile (· ≠ sep)).length = l.length := by
    rw [← List.length_append]
    exact congrArg List.length List.takeWhile_append_dropWhile
  have hdrop : (rest sep l).length ≤ (l.dropWhile (· ≠ sep)).length :=
    (List.dropWhile_sublist _).length_le
  omega

lemma components_ne_nil : components sep l ≠ [] := by
  rw [components_eq_cons hne hhead]
  exact List.cons_ne_nil _ _

end

lemma components_eq_nil_iff : components sep l = [] ↔ l.dropWhile (· = sep) = [] := by
  rw [← components_dropWhile]
  constructor
  · intro h
    by_contra hne
    exact components_ne_nil hne (head_dropWhile_ne l) h
  · intro h
    rw [h, components_nil]

lemma length_of_mem_components {c : List α} (hc : c ∈ components sep l) :
    c.length ≤ l.length ∧ (sep ∈ l → c.length < l.length) := by
  induction hn : l.length using Nat.strong_induction_on generalizing l with
  | _ n ih =>
    have hdrop : (l.dropWhile (· = sep)).length ≤ l.length :=
      (List.dropWhile_sublist _).length_le
    have hhead : (l.dropWhile (· = sep)).head? ≠ some sep := head_dropWhile_ne l
    rw [← components_dropWhile] at hc
    generalize hl' : l.dropWhile (· = sep) = l' at hc hdrop hhead
    have hne : l' ≠ [] := by
      rintro rfl
      cases hc
    have hrest := length_rest_lt hne hhead
    have hfront : (front sep l').length ≤ l'.length := (List.takeWhile_sublist _).length_le
    rw [components_eq_cons hne hhead, List.mem_cons] at hc
    rcases hc with rfl | hc
    · refine ⟨by omega, fun hsep => ?_⟩
      by_contra hlt
      have hsame : l' = l :=
        hl' ▸ (List.dropWhile_sublist _).eq_of_length (hl' ▸ (by omega : l'.length = l.length))
      have hall : front sep l' = l' :=
        (List.takeWhile_sublist _).eq_of_length (by omega : (front sep l').length = l'.length)
      rw [← hsame, ← hall] at hsep
      exact sep_notMem_front hsep
    · obtain ⟨hle, _⟩ := ih _ (by omega) hc rfl
      exact ⟨by omega, fun _ => by omega⟩

end Cottage.Separated
