import Mathlib.Data.List.Basic

/-!
# Walks through tables of tables

A table has entries, and an entry is empty or leads to another table.  A walk
follows a list of indices from a table on.  A `Marking` writes on each table
the path that leads to it, so that what is said of the paths passes to the
tables at their ends.  `Extension` is the change of a single empty entry to
lead to a new table without entries: it lengthens the walks that stopped there
by one step and leaves all others as they are.
-/

namespace Cottage.TableWalk

variable {α ι : Type*} {next next' : α → ι → Option α}

def walk (next : α → ι → Option α) (a : α) (path : List ι) : Option α :=
  path.foldlM next a

@[simp] lemma walk_nil (a : α) : walk next a [] = some a := rfl

lemma walk_cons (a : α) (i : ι) (path : List ι) :
    walk next a (i :: path) = (next a i).bind fun b => walk next b path := rfl

lemma walk_append (a : α) (path path' : List ι) :
    walk next a (path ++ path') = (walk next a path).bind fun b => walk next b path' :=
  List.foldlM_append

lemma walk_concat (a : α) (path : List ι) (i : ι) :
    walk next a (path ++ [i]) = (walk next a path).bind fun b => next b i := by
  rw [walk_append]
  congr 1
  funext b
  simp [walk_cons]

/-- Every table carries the path that leads to it, down to depth `D` and along
indices that satisfy `I`. -/
def Marking (next : α → ι → Option α) (D : ℕ) (I : ι → Prop) (carries : List ι → α → Prop) :
    Prop :=
  ∀ path a i b, carries path a → path.length < D → I i → next a i = some b → carries (path ++ [i]) b

section

variable {D : ℕ} {I : ι → Prop} {carries : List ι → α → Prop} {path path' : List ι} {a b t f : α}
  {i : ι}

section

variable (hm : Marking next D I carries) (ha : carries path a) (hI : ∀ i ∈ path', I i)

include hm ha hI

lemma Marking.walk (hlen : path.length + path'.length ≤ D) (hwalk : walk next a path' = some b) :
    carries (path ++ path') b := by
  induction path' generalizing path a with
  | nil =>
    cases hwalk
    rwa [List.append_nil]
  | cons i path' ih =>
    obtain ⟨c, hnext, hwalk⟩ := Option.bind_eq_some_iff.mp hwalk
    rw [List.length_cons] at hlen
    have hc := hm path a i c ha (by omega) (hI i (.head _)) hnext
    have hrest := ih hc (fun j hj => hI j (.tail i hj))
      (by rw [List.length_append, List.length_singleton]; omega) hwalk
    rwa [List.append_assoc] at hrest

lemma Marking.walk_congr (hlen : path.length + path'.length ≤ D)
    (hagree : ∀ p c j, carries p c → p.length < D → I j → next' c j = next c j) :
    TableWalk.walk next' a path' = TableWalk.walk next a path' := by
  induction path' generalizing path a with
  | nil => rfl
  | cons i path' ih =>
    rw [List.length_cons] at hlen
    have hi := hI i (.head _)
    rw [walk_cons, walk_cons, hagree path a i ha (by omega) hi]
    cases hnext : next a i with
    | none => rfl
    | some c =>
      have hc := hm path a i c ha (by omega) hi hnext
      apply ih hc (fun j hj => hI j (.tail i hj))
      rw [List.length_append, List.length_singleton]
      omega

end

/-- The empty entry `i` of `t` is made to lead to `f`, whose entries are
empty. -/
structure Extension (next next' : α → ι → Option α) (D : ℕ) (I : ι → Prop)
    (carries : List ι → α → Prop) (t : α) (i : ι) (f : α) : Prop where
  agree : ∀ p a j, carries p a → p.length < D → I j → ¬ (a = t ∧ j = i) → next' a j = next a j
  empty : next t i = none
  entry : next' t i = some f
  fresh : ∀ j, I j → next' f j = none

lemma Extension.walk (he : Extension next next' D I carries t i f)
    (hm : Marking next D I carries) (ha : carries path a) (hI : ∀ i ∈ path', I i)
    (hlen : path.length + path'.length ≤ D) :
    TableWalk.walk next' a path' = TableWalk.walk next a path' ∨
      TableWalk.walk next a path' = none ∧ TableWalk.walk next' a path' = some f ∧
        ∃ pre, path' = pre ++ [i] ∧ TableWalk.walk next a pre = some t := by
  induction path' generalizing path a with
  | nil => exact .inl rfl
  | cons j path' ih =>
    rw [List.length_cons] at hlen
    have hj := hI j (.head _)
    have hI' : ∀ i ∈ path', I i := fun i hi => hI i (.tail j hi)
    rw [walk_cons, walk_cons]
    by_cases hat : a = t ∧ j = i
    · obtain ⟨rfl, rfl⟩ := hat
      rw [he.empty, he.entry, Option.bind_none, Option.bind_some]
      cases path' with
      | nil => exact .inr ⟨rfl, rfl, [], rfl, rfl⟩
      | cons k rest =>
        left
        rw [walk_cons, he.fresh k (hI' k (.head _)), Option.bind_none]
    · rw [he.agree path a j ha (by omega) hj hat]
      cases hnext : next a j with
      | none => exact .inl rfl
      | some c =>
        have hc := hm path a j c ha (by omega) hj hnext
        rcases ih hc hI' (by rw [List.length_append, List.length_singleton]; omega) with
          hsame | ⟨hnone, hsome, pre, rfl, hpre⟩
        · exact .inl hsame
        · refine .inr ⟨hnone, hsome, j :: pre, rfl, ?_⟩
          rw [walk_cons, hnext]
          exact hpre

end

end Cottage.TableWalk
