import Mathlib.Data.List.Basic

/-!
# Computations with a log

A computation returns a value or stops with an error, and in both cases leaves
a log of what it did up to there.  It is safe for a property of log entries if
it returns and all entries have the property.
-/

namespace Cottage

structure Logged (ω ε α : Type) where
  log : List ω
  result : Except ε α

namespace Logged

variable {ω ε α β σ ι : Type}

def stop (e : ε) : Logged ω ε α :=
  ⟨[], .error e⟩

def record (ws : List ω) : Logged ω ε Unit :=
  ⟨ws, .ok ()⟩

def lift (x : Except ε α) : Logged ω ε α :=
  ⟨[], x⟩

def andThen (x : Logged ω ε α) (f : α → Logged ω ε β) : Logged ω ε β where
  log := x.log ++ x.result.toOption.elim [] fun a => (f a).log
  result := x.result.bind fun a => (f a).result

instance : Monad (Logged ω ε) where
  pure a := ⟨[], .ok a⟩
  bind := andThen

def loop (f : ι → σ → Logged ω ε (σ × Bool)) : List ι → σ → Logged ω ε (σ × Bool)
  | [], s => pure (s, true)
  | i :: is, s => do
      let (s, ok) ← f i s
      if ok then loop f is s else pure (s, false)

variable {x : Logged ω ε α} {f : α → Logged ω ε β} {a : α} {b : β} {e : ε}

lemma result_pure : (pure a : Logged ω ε α).result = .ok a :=
  rfl

lemma result_bind_ok :
    (x >>= f).result = .ok b ↔ ∃ a, x.result = .ok a ∧ (f a).result = .ok b := by
  have hbind : (x >>= f).result = x.result.bind fun a => (f a).result := rfl
  rw [hbind]
  cases x.result with
  | error e => simp [Except.bind]
  | ok a => simp [Except.bind]

lemma result_bind_of_ok (h : x.result = .ok a) : (x >>= f).result = (f a).result := by
  have hbind : (x >>= f).result = x.result.bind fun a => (f a).result := rfl
  rw [hbind, h]
  rfl

lemma result_lift_bind_of_ok {y : Except ε α} (h : y = .ok a) :
    ((lift y : Logged ω ε α) >>= f).result = (f a).result :=
  result_bind_of_ok h

lemma result_bind_of_error (h : x.result = .error e) : (x >>= f).result = .error e := by
  have hbind : (x >>= f).result = x.result.bind fun a => (f a).result := rfl
  rw [hbind, h]
  rfl

lemma result_lift_bind_of_error {y : Except ε α} (h : y = .error e) :
    ((lift y : Logged ω ε α) >>= f).result = .error e :=
  result_bind_of_error h

lemma mem_log_bind_left {w : ω} (h : w ∈ x.log) : w ∈ (x >>= f).log :=
  List.mem_append_left _ h

lemma mem_log_bind_right {w : ω} (h : x.result = .ok a) (hw : w ∈ (f a).log) :
    w ∈ (x >>= f).log := by
  apply List.mem_append_right
  rw [h]
  exact hw

lemma ne_error_of_bind (h : (x >>= f).result ≠ .error e) :
    x.result ≠ .error e ∧ ∀ a, x.result = .ok a → (f a).result ≠ .error e := by
  have hbind : (x >>= f).result = x.result.bind fun a => (f a).result := rfl
  rw [hbind] at h
  refine ⟨fun hx => ?_, fun a hx hf => ?_⟩
  · rw [hx] at h
    exact h rfl
  · rw [hx] at h
    exact h hf

variable {P : ω → Prop}

/-- The computation returns `a`, and its log is as it should be. -/
def Returns (P : ω → Prop) (x : Logged ω ε α) (a : α) : Prop :=
  x.result = .ok a ∧ ∀ w ∈ x.log, P w

def Safe (P : ω → Prop) (x : Logged ω ε α) : Prop :=
  (∃ a, x.result = .ok a) ∧ ∀ w ∈ x.log, P w

lemma safe_iff_returns : Safe P x ↔ ∃ a, Returns P x a :=
  ⟨fun ⟨⟨a, ha⟩, hlog⟩ => ⟨a, ha, hlog⟩, fun ⟨a, ha, hlog⟩ => ⟨⟨a, ha⟩, hlog⟩⟩

lemma returns_pure {a' : α} : Returns P (pure a : Logged ω ε α) a' ↔ a = a' := by
  refine ⟨fun h => Except.ok.inj h.1, ?_⟩
  rintro rfl
  exact ⟨rfl, fun w hw => absurd hw List.not_mem_nil⟩

lemma returns_record {ws : List ω} {u : Unit} :
    Returns P (record ws : Logged ω ε Unit) u ↔ ∀ w ∈ ws, P w :=
  ⟨fun h => h.2, fun h => ⟨rfl, h⟩⟩

lemma returns_lift {y : Except ε α} : Returns P (lift y : Logged ω ε α) a ↔ y = .ok a :=
  ⟨fun h => h.1, fun h => ⟨h, fun _ hw => absurd hw List.not_mem_nil⟩⟩

lemma not_returns_stop : ¬ Returns P (stop e : Logged ω ε α) a := by
  rintro ⟨h, _⟩
  cases h

lemma returns_bind : Returns P (x >>= f) b ↔ ∃ a, Returns P x a ∧ Returns P (f a) b := by
  have hlog : (x >>= f).log = x.log ++ x.result.toOption.elim [] fun a => (f a).log := rfl
  rw [Returns, result_bind_ok, hlog]
  constructor
  · rintro ⟨⟨a, ha, hb⟩, hentries⟩
    rw [ha] at hentries
    obtain ⟨hfirst, hsecond⟩ := List.forall_mem_append.mp hentries
    exact ⟨a, ⟨ha, hfirst⟩, hb, hsecond⟩
  · rintro ⟨a, ⟨ha, hfirst⟩, hb, hsecond⟩
    refine ⟨⟨a, ha, hb⟩, ?_⟩
    rw [ha]
    exact List.forall_mem_append.mpr ⟨hfirst, hsecond⟩

lemma safe_bind : Safe P (x >>= f) ↔ ∃ a, Returns P x a ∧ Safe P (f a) := by
  simp only [safe_iff_returns, returns_bind]
  constructor
  · rintro ⟨b, a, ha, hb⟩
    exact ⟨a, ha, b, hb⟩
  · rintro ⟨a, ha, b, hb⟩
    exact ⟨b, a, ha, hb⟩

variable {g : ι → σ → Logged ω ε (σ × Bool)} {s s' : σ} {is : List ι}

lemma result_loop_singleton (i : ι) : (loop g [i] s).result = (g i s).result := by
  rw [loop]
  cases hresult : (g i s).result with
  | error e => exact result_bind_of_error hresult
  | ok r =>
    rw [result_bind_of_ok hresult]
    obtain ⟨s', ok⟩ := r
    cases ok <;> rfl

lemma safe_loop_iff {C : ι → Prop}
    (hround : ∀ i ∈ is, ∀ s, (g i s).result ≠ .error e → (Safe P (g i s) ↔ C i))
    (hgoes : ∀ i ∈ is, ∀ s s' ok, Returns P (g i s) (s', ok) → ok = true)
    (hpossible : (loop g is s).result ≠ .error e) :
    Safe P (loop g is s) ↔ ∀ i ∈ is, C i := by
  induction is generalizing s with
  | nil =>
    refine ⟨fun _ i hi => absurd hi List.not_mem_nil, fun _ => safe_iff_returns.mpr ⟨(s, true), ?_⟩⟩
    exact returns_pure.mpr rfl
  | cons i is ih =>
    rw [loop] at hpossible ⊢
    obtain ⟨hpossible₁, hpossible₂⟩ := ne_error_of_bind hpossible
    have hhead := hround i (.head _) s hpossible₁
    have hrest (s₁ : σ) (hs₁ : Returns P (g i s) (s₁, true)) :
        Safe P (loop g is s₁) ↔ ∀ i ∈ is, C i := by
      apply ih
      · exact fun j hj => hround j (.tail _ hj)
      · exact fun j hj => hgoes j (.tail _ hj)
      · exact hpossible₂ (s₁, true) hs₁.1
    rw [safe_bind, List.forall_mem_cons]
    constructor
    · rintro ⟨⟨s₁, ok⟩, hs₁, hsafe⟩
      obtain rfl := hgoes i (.head _) s s₁ ok hs₁
      exact ⟨hhead.mp (safe_iff_returns.mpr ⟨_, hs₁⟩), (hrest s₁ hs₁).mp hsafe⟩
    · rintro ⟨hC, hCs⟩
      obtain ⟨⟨s₁, ok⟩, hs₁⟩ := safe_iff_returns.mp (hhead.mpr hC)
      obtain rfl := hgoes i (.head _) s s₁ ok hs₁
      exact ⟨_, hs₁, (hrest s₁ hs₁).mpr hCs⟩

lemma loop_induction {I : List ι → σ → Prop} (hstart : I [] s)
    (hround : ∀ done i rest s s', is = done ++ i :: rest → I done s →
      (g i s).result = .ok (s', true) → I (done ++ [i]) s')
    (hloop : (loop g is s).result = .ok (s', true)) : I is s' := by
  have hfrom (done rest : List ι) (s : σ) (hsplit : is = done ++ rest) (hs : I done s)
      (hrest : (loop g rest s).result = .ok (s', true)) : I is s' := by
    induction rest generalizing s done with
    | nil =>
      cases hrest
      rwa [hsplit, List.append_nil]
    | cons i rest ih =>
      rw [loop, result_bind_ok] at hrest
      obtain ⟨⟨s₁, ok⟩, hs₁, hrest⟩ := hrest
      cases ok with
      | false =>
        obtain ⟨_, hfalse⟩ := Prod.mk.inj (Except.ok.inj hrest)
        cases hfalse
      | true =>
        apply ih (done ++ [i]) s₁ _ (hround done i rest s s₁ hsplit hs hs₁) hrest
        rw [hsplit, List.append_cons]
  exact hfrom [] is s rfl hstart hloop

lemma loop_invariant {I : σ → Prop} {ok : Bool}
    (hround : ∀ i ∈ is, ∀ s s' ok, I s → (g i s).result = .ok (s', ok) → I s') (hs : I s)
    (hloop : (loop g is s).result = .ok (s', ok)) : I s' := by
  induction is generalizing s with
  | nil =>
    cases hloop
    exact hs
  | cons i is ih =>
    rw [loop, result_bind_ok] at hloop
    obtain ⟨⟨s₁, ok₁⟩, hs₁, hrest⟩ := hloop
    have hI := hround i (.head _) s s₁ ok₁ hs hs₁
    cases ok₁ with
    | false =>
      cases hrest
      exact hI
    | true => exact ih (fun j hj => hround j (.tail _ hj)) hI hrest

end Logged

end Cottage
