import Mathlib.Data.Nat.Init
import Mathlib.Logic.Relation

/-!
# Loops that may not end

A round of a loop either gives the state for the next round or leaves the loop
with a result.  `run` executes at most a given number of rounds, and `Ends`
says that the loop is left with a result at some time.
-/

namespace Cottage.Loop

variable {σ ρ : Type*} {body : σ → σ ⊕ ρ} {s t : σ} {r r' : ρ}

/-- The result, if it is there after at most `fuel` rounds. -/
def run (body : σ → σ ⊕ ρ) : ℕ → σ → Option ρ
  | 0, _ => none
  | fuel + 1, s => (body s).elim (run body fuel) some

inductive Ends (body : σ → σ ⊕ ρ) : σ → ρ → Prop
  | done {s : σ} {r : ρ} : body s = .inr r → Ends body s r
  | next {s t : σ} {r : ρ} : body s = .inl t → Ends body t r → Ends body s r

lemma run_mono {fuel fuel' : ℕ} (hle : fuel ≤ fuel') (h : run body fuel s = some r) :
    run body fuel' s = some r := by
  induction fuel generalizing fuel' s with
  | zero => cases h
  | succ fuel ih =>
    obtain ⟨more, rfl⟩ := Nat.exists_eq_add_of_le hle
    rw [Nat.add_right_comm, run]
    rw [run] at h
    cases hbody : body s with
    | inl t =>
      rw [hbody] at h
      exact ih (Nat.le_add_right fuel more) h
    | inr r' =>
      rwa [hbody] at h

lemma ends_of_run {fuel : ℕ} (h : run body fuel s = some r) : Ends body s r := by
  induction fuel generalizing s with
  | zero => cases h
  | succ fuel ih =>
    rw [run] at h
    cases hbody : body s with
    | inl t =>
      rw [hbody] at h
      exact .next hbody (ih h)
    | inr r' =>
      rw [hbody] at h
      cases h
      exact .done hbody

lemma ends_iff_run : Ends body s r ↔ ∃ fuel, run body fuel s = some r := by
  constructor
  · intro h
    induction h with
    | done hbody =>
      refine ⟨1, ?_⟩
      rw [run, hbody]
      rfl
    | next hbody _ ih =>
      obtain ⟨fuel, hfuel⟩ := ih
      refine ⟨fuel + 1, ?_⟩
      rw [run, hbody]
      exact hfuel
  · rintro ⟨fuel, h⟩
    exact ends_of_run h

lemma Ends.of_next (h : Ends body s r) (hbody : body s = .inl t) : Ends body t r := by
  cases h with
  | done hdone => cases hbody.symm.trans hdone
  | next hnext hrest =>
    obtain rfl := Sum.inl.inj (hbody.symm.trans hnext)
    exact hrest

lemma Ends.eq_of_done (h : Ends body s r) (hbody : body s = .inr r') : r = r' := by
  cases h with
  | done hdone => exact Sum.inr.inj (hdone.symm.trans hbody)
  | next hnext _ => cases hnext.symm.trans hbody

lemma Ends.unique (h : Ends body s r) (h' : Ends body s r') : r = r' := by
  induction h with
  | done hbody => exact (h'.eq_of_done hbody).symm
  | next hbody _ ih => exact ih (h'.of_next hbody)

def Reaches (body : σ → σ ⊕ ρ) : σ → σ → Prop :=
  Relation.ReflTransGen fun s t => body s = .inl t

lemma Ends.of_reaches (h : Ends body s r) (hreach : Reaches body s t) : Ends body t r := by
  induction hreach with
  | refl => exact h
  | tail _ hbody ih => exact ih.of_next hbody

lemma ends_of_reaches (hreach : Reaches body s t) (h : Ends body t r) : Ends body s r := by
  induction hreach using Relation.ReflTransGen.head_induction_on with
  | refl => exact h
  | head hbody _ ih => exact .next hbody ih

lemma Reaches.invariant {I : σ → Prop} (h : Reaches body s t) (hs : I s)
    (hnext : ∀ s t, I s → body s = .inl t → I t) : I t := by
  induction h with
  | refl => exact hs
  | tail _ hbody ih => exact hnext _ _ ih hbody

lemma Ends.invariant {I : σ → Prop} {Q : ρ → Prop} (h : Ends body s r) (hs : I s)
    (hnext : ∀ s t, I s → body s = .inl t → I t) (hdone : ∀ s r, I s → body s = .inr r → Q r) :
    Q r := by
  induction h with
  | done hbody => exact hdone _ _ hs hbody
  | next hbody _ ih => exact ih (hnext _ _ hs hbody)

lemma exists_ends {I : σ → Prop} (variant : σ → ℕ) (hs : I s)
    (hnext : ∀ s t, I s → body s = .inl t → I t ∧ variant t < variant s) :
    ∃ r, Ends body s r := by
  induction hn : variant s using Nat.strong_induction_on generalizing s with
  | _ n ih =>
    cases hbody : body s with
    | inl t =>
      obtain ⟨ht, hlt⟩ := hnext s t hs hbody
      obtain ⟨r, hr⟩ := ih (variant t) (hn ▸ hlt) ht rfl
      exact ⟨r, .next hbody hr⟩
    | inr r => exact ⟨r, .done hbody⟩

lemma not_ends {I : σ → Prop} (hs : I s) (hnext : ∀ s, I s → ∃ t, body s = .inl t ∧ I t) :
    ¬ Ends body s r := by
  intro h
  induction h with
  | done hbody =>
    obtain ⟨t, hbody', _⟩ := hnext _ hs
    cases hbody'.symm.trans hbody
  | next hbody _ ih =>
    obtain ⟨t, hbody', ht⟩ := hnext _ hs
    obtain rfl := Sum.inl.inj (hbody'.symm.trans hbody)
    exact ih ht

end Cottage.Loop
