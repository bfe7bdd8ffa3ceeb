import Mathlib.Logic.Function.Basic

/-!
# Ownership by a lock and a tag

Resources of type `τ` are taken by agents of type `κ`.  A resource may be taken
in two ways: by winning its lock, or, without the lock, by an agent that finds
its own name in the resource's tag.
-/

namespace Cottage.Ownership

open Function

universe u v

structure View (κ : Type u) (τ : Type v) where
  lock : τ → Bool
  tag : τ → Option κ
  owns : κ → τ → Prop

variable {κ : Type u} {τ : Type v}

/-- No two agents own one resource, owned resources are locked, and a tagged
resource is locked and owned by nobody but the agent named in the tag. -/
structure View.Exclusive (v : View κ τ) : Prop where
  unique : ∀ c d t, v.owns c t → v.owns d t → c = d
  locked : ∀ c t, v.owns c t → v.lock t = true
  tagged : ∀ c t, v.tag t = some c → v.lock t = true ∧ ∀ d, v.owns d t → d = c

lemma View.Exclusive.keep {v w : View κ τ} (h : v.Exclusive) (hlock : w.lock = v.lock)
    (htag : w.tag = v.tag) (howns : ∀ d u, w.owns d u → v.owns d u) : w.Exclusive where
  unique c d t hc hd := h.unique c d t (howns _ _ hc) (howns _ _ hd)
  locked c t hc := hlock ▸ h.locked c t (howns _ _ hc)
  tagged c t hc := by
    obtain ⟨hl, hu⟩ := h.tagged c t (htag ▸ hc)
    exact ⟨hlock ▸ hl, fun d hd => hu d (howns _ _ hd)⟩

lemma View.Exclusive.insert {v w : View κ τ} (h : v.Exclusive) (c : κ) (t : τ)
    (halone : ∀ d, v.owns d t → d = c) (htagAlone : ∀ d, v.tag t = some d → d = c)
    (hlock : ∀ u, v.lock u = true → w.lock u = true) (hlocked : w.lock t = true)
    (htag : w.tag = v.tag)
    (howns : ∀ d u, w.owns d u → v.owns d u ∨ d = c ∧ u = t) : w.Exclusive where
  unique a b u ha hb := by
    rcases howns _ _ ha with ha | ⟨rfl, rfl⟩ <;> rcases howns _ _ hb with hb | ⟨rfl, hb⟩
    · exact h.unique a b u ha hb
    · exact halone a (hb ▸ ha)
    · exact (halone b hb).symm
    · rfl
  locked a u ha := by
    rcases howns _ _ ha with ha | ⟨rfl, rfl⟩
    · exact hlock u (h.locked a u ha)
    · exact hlocked
  tagged a u ha := by
    rw [htag] at ha
    obtain ⟨hl, hu⟩ := h.tagged a u ha
    refine ⟨hlock u hl, fun d hd => ?_⟩
    rcases howns _ _ hd with hd | ⟨rfl, rfl⟩
    · exact hu d hd
    · exact (htagAlone a ha).symm

variable [DecidableEq τ]

/-- One permitted change.  An agent may always give up a resource without
releasing its lock. -/
inductive Move (v w : View κ τ) : Prop
  | keep (hlock : w.lock = v.lock) (htag : w.tag = v.tag) (howns : ∀ d u, w.owns d u → v.owns d u)
  | acquire (c : κ) (t : τ) (hfree : v.lock t = false)
      (hlock : w.lock = update v.lock t true) (htag : w.tag = v.tag)
      (howns : ∀ d u, w.owns d u → v.owns d u ∨ d = c ∧ u = t)
  | adopt (c : κ) (t : τ) (hmine : v.tag t = some c)
      (hlock : w.lock = v.lock) (htag : w.tag = v.tag)
      (howns : ∀ d u, w.owns d u → v.owns d u ∨ d = c ∧ u = t)
  | setTag (c : κ) (t : τ) (hown : v.owns c t)
      (hlock : w.lock = v.lock) (htag : w.tag = update v.tag t (some c))
      (howns : ∀ d u, w.owns d u → v.owns d u)
  | clearTag (t : τ) (hlock : w.lock = v.lock) (htag : w.tag = update v.tag t none)
      (howns : ∀ d u, w.owns d u → v.owns d u)
  | release (c : κ) (t : τ) (hown : v.owns c t) (huntagged : v.tag t = none)
      (hlock : w.lock = update v.lock t false) (htag : w.tag = v.tag)
      (howns : ∀ d u, w.owns d u → v.owns d u ∧ ¬ (d = c ∧ u = t))

lemma Move.exclusive {v w : View κ τ} (hmove : Move v w) (h : v.Exclusive) :
    w.Exclusive := by
  cases hmove with
  | keep hlock htag howns => exact h.keep hlock htag howns
  | acquire c t hfree hlock htag howns =>
    have hunowned : ∀ d, ¬ v.owns d t := by
      intro d hd
      have := h.locked d t hd
      simp [hfree] at this
    have huntagged : ∀ d, v.tag t ≠ some d := by
      intro d hd
      have := (h.tagged d t hd).1
      simp [hfree] at this
    refine h.insert c t (fun d hd => (hunowned d hd).elim) (fun d hd => (huntagged d hd).elim)
      ?_ (by simp [hlock]) htag howns
    intro u hu
    by_cases hut : u = t <;> simp [hlock, hut, hu]
  | adopt c t hmine hlock htag howns =>
    refine h.insert c t (h.tagged c t hmine).2 ?_ (fun u hu => by rw [hlock, hu])
      (by rw [hlock, (h.tagged c t hmine).1]) htag howns
    intro d hd
    rw [hmine, Option.some.injEq] at hd
    exact hd.symm
  | setTag c t hown hlock htag howns =>
    refine ⟨(h.keep (w := ⟨v.lock, v.tag, w.owns⟩) rfl rfl howns).unique,
      fun d u hd => hlock ▸ h.locked d u (howns _ _ hd), ?_⟩
    intro d u hd
    rw [htag] at hd
    by_cases hut : u = t
    · subst hut
      rw [update_self, Option.some.injEq] at hd
      subst hd
      exact ⟨hlock ▸ h.locked c u hown, fun e he => h.unique e c u (howns _ _ he) hown⟩
    · rw [update_of_ne hut] at hd
      obtain ⟨hl, hu⟩ := h.tagged d u hd
      exact ⟨hlock ▸ hl, fun e he => hu e (howns _ _ he)⟩
  | clearTag t hlock htag howns =>
    refine ⟨(h.keep (w := ⟨v.lock, v.tag, w.owns⟩) rfl rfl howns).unique,
      fun d u hd => hlock ▸ h.locked d u (howns _ _ hd), ?_⟩
    intro d u hd
    rw [htag] at hd
    by_cases hut : u = t
    · simp [hut] at hd
    · rw [update_of_ne hut] at hd
      obtain ⟨hl, hu⟩ := h.tagged d u hd
      exact ⟨hlock ▸ hl, fun e he => hu e (howns _ _ he)⟩
  | release c t hown huntagged hlock htag howns =>
    have hlockNe : ∀ u, u ≠ t → w.lock u = v.lock u := by
      intro u hut
      rw [hlock, update_of_ne hut]
    refine ⟨fun a b u ha hb => h.unique a b u (howns _ _ ha).1 (howns _ _ hb).1, ?_, ?_⟩
    · intro a u ha
      have hut : u ≠ t := by
        rintro rfl
        exact (howns _ _ ha).2 ⟨h.unique a c u (howns _ _ ha).1 hown, rfl⟩
      rw [hlockNe u hut]
      exact h.locked a u (howns _ _ ha).1
    · intro a u ha
      rw [htag] at ha
      have hut : u ≠ t := by
        rintro rfl
        simp [huntagged] at ha
      obtain ⟨hl, hu⟩ := h.tagged a u ha
      exact ⟨(hlockNe u hut).trans hl, fun e he => hu e (howns _ _ he).1⟩

end Cottage.Ownership
