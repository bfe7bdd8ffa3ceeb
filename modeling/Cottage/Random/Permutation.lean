import Cottage.Foundations.Mixing
import Cottage.Random.Read

/-!
# The generator loses no state

Each of the four assignments of a quarter round combines one word of the buffer
with a value computed from two others.  The whole of `salsa20_block` is built
from such steps, so on the buffers it is a bijection, however often it is
applied.
-/

namespace Cottage.Random

open Function Mixing

/-- `x[i] ^= ROTL(x[j] + x[k], r)` -/
def addRotateXor (i j k : Fin 16) (r : UInt32) : Words → Words :=
  mix (· ^^^ ·) (fun x => rotl (x.get j + x.get k) r) i

lemma addRotateXor_bijective {i j k : Fin 16} (hj : i ≠ j) (hk : i ≠ k) (r : UInt32) :
    Bijective (addRotateXor i j k r) := by
  have hignores : Ignores (fun x : Words => rotl (x.get j + x.get k) r) i :=
    (ignores_get hj).map₂ (ignores_get hk) fun a b => rotl (a + b) r
  have hcancel : ∀ a b : UInt32, a ^^^ b ^^^ b = a := by
    intro a b
    rw [UInt32.xor_assoc, UInt32.xor_self, UInt32.xor_zero]
  exact (mix_involutive hcancel hignores).bijective

lemma quarterRound_eq (a b c d : Fin 16) :
    (quarterRound · a b c d) = addRotateXor a d c 18 ∘ addRotateXor d c b 13 ∘
      addRotateXor c b a 9 ∘ addRotateXor b a d 7 := rfl

lemma quarterRound_bijective {a b c d : Fin 16} (h : [a, b, c, d].Nodup) :
    Bijective (quarterRound · a b c d) := by
  obtain ⟨⟨hab, hac, had⟩, ⟨hbc, hbd⟩, hcd⟩ :
      (a ≠ b ∧ a ≠ c ∧ a ≠ d) ∧ (b ≠ c ∧ b ≠ d) ∧ c ≠ d := by
    simpa [not_or] using h
  rw [quarterRound_eq]
  refine (addRotateXor_bijective had hac 18).comp ?_
  refine (addRotateXor_bijective hcd.symm hbd.symm 13).comp ?_
  refine (addRotateXor_bijective hbc.symm hac.symm 9).comp ?_
  exact addRotateXor_bijective hab.symm hbd 7

lemma doubleRound_eq :
    doubleRound = (quarterRound · 15 12 13 14) ∘ (quarterRound · 10 11 8 9) ∘
      (quarterRound · 5 6 7 4) ∘ (quarterRound · 0 1 2 3) ∘ (quarterRound · 15 3 7 11) ∘
        (quarterRound · 10 14 2 6) ∘ (quarterRound · 5 9 13 1) ∘ (quarterRound · 0 4 8 12) := by
  funext x
  simp only [doubleRound, comp_apply]

lemma doubleRound_bijective : Bijective doubleRound := by
  rw [doubleRound_eq]
  iterate 7 refine (quarterRound_bijective (by decide)).comp ?_
  exact quarterRound_bijective (by decide)

def nextBuffer (key buf : Words) : Words :=
  (salsa20Block key buf).2

def output (key buf : Words) : Words :=
  (salsa20Block key buf).1

lemma nextBuffer_bijective (key : Words) : Bijective (nextBuffer key) :=
  doubleRound_bijective.iterate (roundCount / 2)

lemma zipWith_add_injective (key : Words) :
    Injective fun x : Words => x.zipWith (· + ·) key := by
  intro x y h
  apply Vector.ext
  intro i hi
  have hword := congrArg (fun z : Words => z[i]) h
  simp only [Vector.getElem_zipWith] at hword
  exact (UInt32.add_left_inj key[i]).mp hword

lemma output_injective (key : Words) : Injective (output key) :=
  (zipWith_add_injective key).comp (nextBuffer_bijective key).injective

/-- Different blocks have different successors and different outputs. -/
theorem salsa20_block_loses_nothing (key : Words) :
    Bijective (nextBuffer key) ∧ (∀ n, Bijective (nextBuffer key)^[n]) ∧ Injective (output key) :=
  ⟨nextBuffer_bijective key, fun n => (nextBuffer_bijective key).iterate n, output_injective key⟩

end Cottage.Random
