import Mathlib.Data.List.Basic

/-!
# Labelled transition systems

A system is an initial-state predicate and a partial, executable step function.
`ReachableVia ok` is reachability along runs whose steps all meet the condition
`ok`; plain reachability is the case in which `ok` is trivially true.
-/

namespace Cottage.Transition

universe u v

structure System (σ : Type u) (ι : Type v) where
  init : σ → Prop
  step : σ → ι → Option σ

namespace System

variable {σ : Type u} {ι : Type v} (S : System σ ι)

def run (s : σ) : List ι → Option σ
  | [] => some s
  | a :: rest => (S.step s a).bind fun t => run t rest

@[simp] lemma run_nil (s : σ) : S.run s [] = some s := rfl

@[simp] lemma run_cons (s : σ) (a : ι) (rest : List ι) :
    S.run s (a :: rest) = (S.step s a).bind fun t => S.run t rest := rfl

lemma run_cons_of_step {s t : σ} {a : ι} (hstep : S.step s a = some t) (rest : List ι) :
    S.run s (a :: rest) = S.run t rest := by
  rw [run_cons, hstep, Option.bind_some]

lemma run_append (s : σ) (xs ys : List ι) :
    S.run s (xs ++ ys) = (S.run s xs).bind fun t => S.run t ys := by
  induction xs generalizing s with
  | nil => simp
  | cons a xs ih =>
    rw [List.cons_append, run_cons, run_cons]
    cases hstep : S.step s a with
    | none => rfl
    | some t => exact ih t

/-- The states reached by runs whose steps all satisfy `ok`, a condition on
the state before the step and on its label. -/
inductive ReachableVia (ok : σ → ι → Prop) : σ → Prop
  | init {s : σ} : S.init s → ReachableVia ok s
  | step {s t : σ} {a : ι} :
      ReachableVia ok s → ok s a → S.step s a = some t → ReachableVia ok t

def Reachable : σ → Prop :=
  S.ReachableVia fun _ _ => True

variable {S} {ok : σ → ι → Prop}

/-- The invariant rule: what holds initially and is kept by every permitted
step holds in every state reached by permitted steps. -/
lemma ReachableVia.invariant {I : σ → Prop} {s : σ} (h : S.ReachableVia ok s)
    (hinit : ∀ s, S.init s → I s)
    (hstep : ∀ s a t, I s → ok s a → S.step s a = some t → I t) : I s := by
  induction h with
  | init hs => exact hinit _ hs
  | step _ hok hst ih => exact hstep _ _ _ ih hok hst

lemma ReachableVia.reachable {s : σ} (h : S.ReachableVia ok s) : S.Reachable s := by
  induction h with
  | init hs => exact .init hs
  | step _ _ hst ih => exact .step ih trivial hst

lemma Reachable.invariant {I : σ → Prop} {s : σ} (h : S.Reachable s) (hinit : ∀ s, S.init s → I s)
    (hstep : ∀ s a t, I s → S.step s a = some t → I t) : I s :=
  ReachableVia.invariant h hinit fun s a t hI _ hst => hstep s a t hI hst

lemma ReachableVia.run {P : σ → Prop} {A : ι → Prop} {s t : σ} (h : S.ReachableVia ok s)
    (hP : P s) (hkeep : ∀ s a t, A a → P s → S.step s a = some t → P t)
    (hok : ∀ s a, A a → P s → ok s a) {xs : List ι} (hxs : ∀ a ∈ xs, A a)
    (hrun : S.run s xs = some t) : S.ReachableVia ok t ∧ P t := by
  induction xs generalizing s with
  | nil =>
    rw [run_nil, Option.some.injEq] at hrun
    exact hrun ▸ ⟨h, hP⟩
  | cons a xs ih =>
    obtain ⟨r, hstep, hrest⟩ := Option.bind_eq_some_iff.mp hrun
    have ha : A a := hxs a (.head _)
    exact ih (.step h (hok s a ha hP) hstep) (hkeep s a r ha hP hstep)
      (fun b hb => hxs b (.tail a hb)) hrest

lemma Reachable.run {s t : σ} (h : S.Reachable s) {xs : List ι}
    (hrun : S.run s xs = some t) : S.Reachable t :=
  (ReachableVia.run (P := fun _ => True) (A := fun _ => True) h trivial
    (fun _ _ _ _ _ _ => trivial) (fun _ _ _ _ => trivial) (fun _ _ => trivial) hrun).1

lemma Reachable.exists_of_run_any {s : σ} (h : S.Reachable s) (xs : List ι) (p : σ → Bool)
    (hany : (S.run s xs).any p = true) : ∃ t, S.Reachable t ∧ p t = true := by
  obtain ⟨t, hrun, hp⟩ := Option.any_eq_true p _ |>.mp hany
  exact ⟨t, h.run hrun, hp⟩

def guard (S : System σ ι) (ok : σ → ι → Prop) [∀ s a, Decidable (ok s a)] : System σ ι where
  init := S.init
  step s a := if ok s a then S.step s a else none

lemma guard_step [∀ s a, Decidable (ok s a)] {s t : σ} {a : ι} (hok : ok s a)
    (hstep : S.step s a = some t) : (S.guard ok).step s a = some t :=
  (if_pos hok).trans hstep

lemma run_of_guard [∀ s a, Decidable (ok s a)] {s t : σ} {xs : List ι}
    (hrun : (S.guard ok).run s xs = some t) : S.run s xs = some t := by
  induction xs generalizing s with
  | nil => exact hrun
  | cons a xs ih =>
    obtain ⟨r, hstep, hrest⟩ := Option.bind_eq_some_iff.mp hrun
    simp only [guard] at hstep
    split_ifs at hstep
    rw [S.run_cons_of_step hstep]
    exact ih hrest

lemma ReachableVia.run_guard [∀ s a, Decidable (ok s a)] {s t : σ} (h : S.ReachableVia ok s)
    {xs : List ι} (hrun : (S.guard ok).run s xs = some t) : S.ReachableVia ok t := by
  induction xs generalizing s with
  | nil =>
    rw [run_nil, Option.some.injEq] at hrun
    exact hrun ▸ h
  | cons a xs ih =>
    obtain ⟨r, hstep, hrest⟩ := Option.bind_eq_some_iff.mp hrun
    simp only [guard] at hstep
    split_ifs at hstep with hok
    exact ih (.step h hok hstep) hrest

lemma reachableVia_of_guard [∀ s a, Decidable (ok s a)] {s : σ}
    (h : (S.guard ok).Reachable s) : S.ReachableVia ok s := by
  induction h with
  | init hs => exact .init hs
  | step _ _ hst ih =>
    simp only [guard] at hst
    split_ifs at hst with hok
    exact .step ih hok hst

end System

end Cottage.Transition
