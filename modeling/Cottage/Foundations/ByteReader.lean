import Mathlib.Data.List.Basic

/-!
# Programs that read bytes

A program that asks for bytes of a source, at offsets it computes from what it
has read so far, and ends with a result.  `run` is the result on a given source
and `reads` the list of offsets asked for on the way.
-/

namespace Cottage.ByteReader

universe u

inductive Reader (α : Type u) : Type u
  | done (a : α)
  | byte (offset : ℕ) (rest : UInt8 → Reader α)

namespace Reader

variable {α β : Type u} (source : ℕ → UInt8)

protected def bind : Reader α → (α → Reader β) → Reader β
  | .done a, f => f a
  | .byte offset rest, f => .byte offset fun b => (rest b).bind f

instance : Monad Reader where
  pure := .done
  bind := Reader.bind

def run : Reader α → α
  | .done a => a
  | .byte offset rest => (rest (source offset)).run

def reads : Reader α → List ℕ
  | .done _ => []
  | .byte offset rest => offset :: (rest (source offset)).reads

@[simp] lemma run_pure (a : α) : (pure a : Reader α).run source = a := rfl

@[simp] lemma reads_pure (a : α) : (pure a : Reader α).reads source = [] := rfl

@[simp] lemma run_bind (p : Reader α) (f : α → Reader β) :
    (p >>= f).run source = (f (p.run source)).run source := by
  induction p with
  | done a => rfl
  | byte offset rest ih => exact ih (source offset)

@[simp] lemma reads_bind (p : Reader α) (f : α → Reader β) :
    (p >>= f).reads source = p.reads source ++ (f (p.run source)).reads source := by
  induction p with
  | done a => rfl
  | byte offset rest ih => exact congrArg (List.cons offset) (ih (source offset))

variable {source} in
lemma congr {source' : ℕ → UInt8} {p : Reader α}
    (h : ∀ i ∈ p.reads source, source' i = source i) : p.run source' = p.run source := by
  induction p with
  | done a => rfl
  | byte offset rest ih =>
    rw [run, run, h offset (.head _)]
    apply ih
    intro i hi
    exact h i (.tail offset hi)

def read (offset : ℕ) : Reader UInt8 :=
  .byte offset .done

@[simp] lemma run_read (offset : ℕ) : (read offset).run source = source offset := by
  rw [read, run, run]

@[simp] lemma reads_read (offset : ℕ) : (read offset).reads source = [offset] := rfl

def bytes (offset : ℕ) : (n : ℕ) → Reader (Vector UInt8 n)
  | 0 => pure #v[]
  | n + 1 => do
      let v ← bytes offset n
      let b ← read (offset + n)
      pure (v.push b)

@[simp] lemma run_bytes (offset n : ℕ) :
    (bytes offset n).run source = Vector.ofFn fun i => source (offset + i) := by
  induction n with
  | zero => exact Vector.toArray_inj.mp rfl
  | succ n ih =>
    rw [bytes, run_bind, run_bind, run_pure, run_read, ih, Vector.ofFn_succ]
    rfl

@[simp] lemma reads_bytes (offset n : ℕ) :
    (bytes offset n).reads source = (List.range n).map (offset + ·) := by
  induction n with
  | zero => rfl
  | succ n ih =>
    rw [bytes, reads_bind, reads_bind, reads_pure, reads_read, ih, List.range_succ, List.map_append]
    rfl

def Within (p : Reader α) (n : ℕ) : Prop :=
  ∀ i ∈ p.reads source, i < n

variable {source} {n : ℕ}

@[simp] lemma within_pure (a : α) : (pure a : Reader α).Within source n :=
  nofun

@[simp] lemma within_bind (p : Reader α) (f : α → Reader β) :
    (p >>= f).Within source n ↔ p.Within source n ∧ (f (p.run source)).Within source n := by
  simp only [Within, reads_bind, List.mem_append, or_imp, forall_and]

@[simp] lemma within_read (offset : ℕ) : (read offset).Within source n ↔ offset < n := by
  simp only [Within, reads_read, List.mem_singleton, forall_eq]

lemma within_bytes {offset count : ℕ} :
    (bytes offset count).Within source n ↔ count = 0 ∨ offset + count ≤ n := by
  simp only [Within, reads_bytes, List.mem_map, List.mem_range]
  constructor
  · intro h
    rcases Nat.eq_zero_or_pos count with hzero | hpos
    · exact .inl hzero
    · have hlast := h (offset + (count - 1)) ⟨count - 1, by omega, rfl⟩
      omega
  · rintro h i ⟨k, hk, rfl⟩
    omega

end Reader

end Cottage.ByteReader
