import Mathlib.Logic.Function.Basic

/-!
# Following pointers

Every object holds at most one pointer to another one.  `Ends next p r` says
that following the pointers from `p` stops at `r`.
-/

namespace Cottage.PointerChain

open Function

variable {α : Type*} {next : α → Option α} {K : α → Prop} {p q r t : α}

inductive Ends (next : α → Option α) : α → α → Prop
  | stop {p : α} : next p = none → Ends next p p
  | step {p q r : α} : next p = some q → Ends next q r → Ends next p r

lemma Ends.next_eq_none (h : Ends next p r) : next r = none := by
  induction h with
  | stop hp => exact hp
  | step _ _ ih => exact ih

lemma Ends.unique (h : Ends next p q) (h' : Ends next p r) : q = r := by
  induction h with
  | stop hp =>
    cases h' with
    | stop _ => rfl
    | step hp' _ => cases hp.symm.trans hp'
  | step hp _ ih =>
    cases h' with
    | stop hp' => cases hp'.symm.trans hp
    | step hp' hrest =>
      cases hp.symm.trans hp'
      exact ih hrest

lemma Ends.mem (hclosed : ∀ p t, K p → next p = some t → K t) (h : Ends next p r)
    (hp : K p) : K r := by
  induction h with
  | stop _ => exact hp
  | step hnext _ ih => exact ih (hclosed _ _ hp hnext)

lemma Ends.congr {next' : α → Option α} (hclosed : ∀ p t, K p → next p = some t → K t)
    (heq : ∀ q, K q → next' q = next q) (h : Ends next p r) (hp : K p) : Ends next' p r := by
  induction h with
  | stop hnext =>
    apply Ends.stop
    rwa [heq _ hp]
  | step hnext _ ih =>
    refine Ends.step ?_ (ih (hclosed _ _ hp hnext))
    rwa [heq _ hp]

/-- All pointers lead into `K`, and every way ends. -/
structure Confined (next : α → Option α) (K : α → Prop) : Prop where
  into : ∀ p t, next p = some t → K t
  ends : ∀ p, ∃ r, Ends next p r

lemma Confined.mono {L : α → Prop} (h : Confined next K) (hKL : ∀ p, K p → L p) :
    Confined next L where
  into p t hnext := hKL t (h.into p t hnext)
  ends := h.ends

variable [DecidableEq α]

lemma exists_ends_update (hends : ∀ q, ∃ r, Ends next q r)
    (ht : ∃ r, Ends (update next p (some t)) t r) (q : α) :
    ∃ r, Ends (update next p (some t)) q r := by
  have hself : ∃ r, Ends (update next p (some t)) p r := by
    obtain ⟨r, hr⟩ := ht
    exact ⟨r, .step (update_self p _ next) hr⟩
  obtain ⟨r, hr⟩ := hends q
  induction hr with
  | @stop q hnext =>
    by_cases hq : q = p
    · rwa [hq]
    · refine ⟨q, .stop ?_⟩
      rwa [update_of_ne hq]
  | @step q q' r hnext _ ih =>
    by_cases hq : q = p
    · rwa [hq]
    · obtain ⟨r', hr'⟩ := ih
      refine ⟨r', .step ?_ hr'⟩
      rwa [update_of_ne hq]

lemma Confined.update_none (h : Confined next K) (p : α) :
    Confined (update next p none) K where
  into q t hnext := by
    by_cases hq : q = p
    · rw [hq, update_self] at hnext
      cases hnext
    · rw [update_of_ne hq] at hnext
      exact h.into q t hnext
  ends q := by
    have hself : Ends (update next p none) p p := .stop (update_self p _ next)
    obtain ⟨r, hr⟩ := h.ends q
    induction hr with
    | @stop q hnext =>
      by_cases hq : q = p
      · exact ⟨p, hq ▸ hself⟩
      · refine ⟨q, .stop ?_⟩
        rwa [update_of_ne hq]
    | @step q q' r hnext _ ih =>
      by_cases hq : q = p
      · exact ⟨p, hq ▸ hself⟩
      · obtain ⟨r', hr'⟩ := ih
        refine ⟨r', .step ?_ hr'⟩
        rwa [update_of_ne hq]

lemma Confined.into_update (h : Confined next K) (ht : K t) (q u : α)
    (hnext : update next p (some t) q = some u) : K u := by
  by_cases hq : q = p
  · rw [hq, update_self] at hnext
    exact Option.some.inj hnext ▸ ht
  · rw [update_of_ne hq] at hnext
    exact h.into q u hnext

lemma Confined.update_outside (h : Confined next K) (hp : ¬ K p) (ht : K t) :
    Confined (update next p (some t)) K where
  into := h.into_update ht
  ends := by
    have heq (q : α) (hq : K q) : update next p (some t) q = next q := by
      apply update_of_ne
      rintro rfl
      exact hp hq
    obtain ⟨r, hr⟩ := h.ends t
    exact exists_ends_update h.ends ⟨r, hr.congr (fun p t _ => h.into p t) heq ht⟩

lemma Ends.update_of_end {v : Option α} (hp : next p = none) (h : Ends next t r) (hne : r ≠ p) :
    Ends (update next p v) t r := by
  induction h with
  | stop hnext =>
    apply Ends.stop
    rwa [update_of_ne hne]
  | @step q q' r hnext _ ih =>
    have hq : q ≠ p := by
      rintro rfl
      cases hp.symm.trans hnext
    refine Ends.step ?_ (ih hne)
    rwa [update_of_ne hq]

lemma Confined.update_end (h : Confined next K) (hp : next p = none) (ht : K t)
    (hne : ¬ Ends next t p) : Confined (update next p (some t)) K where
  into := h.into_update ht
  ends := by
    obtain ⟨r, hr⟩ := h.ends t
    have hrp : r ≠ p := by
      rintro rfl
      exact hne hr
    exact exists_ends_update h.ends ⟨r, hr.update_of_end hp hrp⟩

end Cottage.PointerChain
