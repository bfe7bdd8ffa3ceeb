import Cottage.Foundations.ByteMemory
import Mathlib.Data.List.GetD

/-!
# Byte strings

A byte string that can be written at any place: behind its end the gap is
filled with zeros.  In memory it is followed by zeros, up to the end of the
block that holds it, so reading a byte of the block is `getD` with zero as the
default.
-/

namespace Cottage.ByteString

open ByteMemory

def overwrite (content : List UInt8) (loc : ℕ) (data : List UInt8) : List UInt8 :=
  (List.range (max content.length (loc + data.length))).map fun i =>
    if loc ≤ i ∧ i < loc + data.length then data.getD (i - loc) 0 else content.getD i 0

variable {content data : List UInt8} {loc : ℕ}

lemma length_overwrite :
    (overwrite content loc data).length = max content.length (loc + data.length) := by
  rw [overwrite, List.length_map, List.length_range]

lemma getD_overwrite (i : ℕ) :
    (overwrite content loc data).getD i 0 =
      if loc ≤ i ∧ i < loc + data.length then data.getD (i - loc) 0 else content.getD i 0 := by
  by_cases hi : i < max content.length (loc + data.length)
  · rw [List.getD_eq_getElem _ _ (by rwa [length_overwrite])]
    simp only [overwrite, List.getElem_map, List.getElem_range]
  · rw [List.getD_eq_default _ _ (by rw [length_overwrite]; omega), if_neg (by omega),
      List.getD_eq_default _ _ (by omega)]

lemma map_range_getD (content : List UInt8) {loc count : ℕ} (hle : loc + count ≤ content.length) :
    ((List.range count).map fun i => content.getD (loc + i) 0) = (content.drop loc).take count := by
  apply List.ext_getElem
  · rw [List.length_map, List.length_range, List.length_take, List.length_drop]
    omega
  · intro i hi _
    rw [List.length_map, List.length_range] at hi
    rw [List.getElem_map, List.getElem_range, List.getElem_take, List.getElem_drop,
      List.getD_eq_getElem _ _ (by omega)]

def storeBytes (m : Memory) (dest : ℕ) : List UInt8 → Memory
  | [] => m
  | c :: data => storeBytes (m.set dest c) (dest + 1) data

lemma storeBytes_apply (m : Memory) (dest : ℕ) (data : List UInt8) (x : ℕ) :
    storeBytes m dest data x =
      if dest ≤ x ∧ x < dest + data.length then data.getD (x - dest) 0 else m x := by
  induction data generalizing m dest with
  | nil =>
    rw [storeBytes, if_neg]
    rw [List.length_nil]
    omega
  | cons c data ih =>
    rw [storeBytes, ih, set_apply, List.length_cons]
    by_cases hx : x = dest
    · rw [if_neg (by omega), if_pos hx, if_pos (by omega), hx, Nat.sub_self]
      rfl
    · rw [if_neg hx]
      by_cases hin : dest + 1 ≤ x ∧ x < dest + 1 + data.length
      · have hsub : x - dest = x - (dest + 1) + 1 := by omega
        rw [if_pos hin, if_pos (by omega), hsub, List.getD_cons_succ]
      · rw [if_neg hin, if_neg (by omega)]

lemma agreeOutside_storeBytes (m : Memory) (dest : ℕ) (data : List UInt8) :
    AgreeOutside m (storeBytes m dest data) dest data.length := by
  intro x hx
  rw [storeBytes_apply, if_neg hx]

end Cottage.ByteString
