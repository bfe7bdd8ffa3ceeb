import Cottage.Foundations.ByteString

/-!
# A stack in memory

A stack that grows towards lower addresses, in units of words of 64 bits.
Pushing a list of words moves the pointer down and leaves the words above it in
the order of the list; pushing bytes moves the pointer down by whole words and
leaves the bytes at the new pointer.
-/

namespace Cottage.WordStack

open ByteMemory ByteString

/-- `a - b` for numbers of 64 bits. -/
def sub64 (a b : ℕ) : ℕ :=
  (a + (2 ^ 64 - b % 2 ^ 64)) % 2 ^ 64

lemma sub64_of_le {a b : ℕ} (h : b ≤ a) (hlt : a - b < 2 ^ 64) : sub64 a b = a - b := by
  rw [sub64]
  omega

lemma sub64_sub64 (a b c : ℕ) : sub64 (sub64 a b) c = sub64 a (b + c) := by
  simp only [sub64]
  omega

structure Stack where
  memory : Memory
  pointer : ℕ

def storeWords (m : Memory) (a : ℕ) : List ℕ → Memory
  | [] => m
  | w :: ws => storeWords (write64 m a w) (a + 8) ws

def Stack.drop (s : Stack) (words : ℕ) : Stack :=
  { s with pointer := sub64 s.pointer (8 * words) }

def Stack.push (s : Stack) (ws : List ℕ) : Stack :=
  let s := s.drop ws.length
  { s with memory := storeWords s.memory s.pointer ws }

def Stack.pushBytes (s : Stack) (bytes : List UInt8) : Stack :=
  let s := s.drop bytes.length
  { s with memory := storeBytes s.memory s.pointer bytes }

variable {m m' : Memory} {a b : ℕ} {w : ℕ} {ws ws' : List ℕ} {s : Stack}

lemma agreeOutside_storeWords (m : Memory) (a : ℕ) (ws : List ℕ) :
    AgreeOutside m (storeWords m a ws) a (8 * ws.length) := by
  induction ws generalizing m a with
  | nil => exact fun _ _ => rfl
  | cons w ws ih =>
    intro x hx
    rw [List.length_cons] at hx
    rw [storeWords, ih (write64 m a w) (a + 8) x (by omega), agreeOutside_write64 m a w x]
    omega

def Words (m : Memory) (a : ℕ) (ws : List ℕ) : Prop :=
  ∀ i (hi : i < ws.length), read64 m (a + 8 * i) = ws.get ⟨i, hi⟩ % 2 ^ 64

lemma Words.read64_eq (h : Words m a ws) {i : ℕ} (hw : ws[i]? = some w) :
    read64 m (a + 8 * i) = w % 2 ^ 64 := by
  obtain ⟨hi, rfl⟩ := List.getElem?_eq_some_iff.mp hw
  exact h i hi

lemma words_storeWords (m : Memory) (a : ℕ) (ws : List ℕ) : Words (storeWords m a ws) a ws := by
  induction ws generalizing m a with
  | nil => exact fun i hi => absurd hi (Nat.not_lt_zero i)
  | cons w ws ih =>
    intro i hi
    cases i with
    | zero =>
      have hrest := agreeOutside_storeWords (write64 m a w) (a + 8) ws
      rw [storeWords, read64_of_agreeOutside hrest (by omega), Nat.mul_zero, Nat.add_zero,
        read64_write64]
      rfl
    | succ i =>
      have haddr : a + 8 * (i + 1) = a + 8 + 8 * i := by omega
      rw [storeWords, haddr, ih (write64 m a w) (a + 8) i (Nat.lt_of_succ_lt_succ hi)]
      rfl

lemma Words.of_agreeOutside {n : ℕ} (h : Words m a ws) (hagree : AgreeOutside m m' b n)
    (hdisj : a + 8 * ws.length ≤ b ∨ b + n ≤ a) : Words m' a ws := by
  intro i hi
  rw [read64_of_agreeOutside hagree (by omega), h i hi]

lemma Words.append (h : Words m a ws) (h' : Words m (a + 8 * ws.length) ws') :
    Words m a (ws ++ ws') := by
  intro i hi
  rw [List.length_append] at hi
  by_cases hlt : i < ws.length
  · rw [h i hlt, List.get_eq_getElem, List.get_eq_getElem, List.getElem_append_left hlt]
  · have haddr : a + 8 * i = a + 8 * ws.length + 8 * (i - ws.length) := by omega
    rw [haddr, h' (i - ws.length) (by omega), List.get_eq_getElem, List.get_eq_getElem,
      List.getElem_append_right (not_lt.mp hlt)]

lemma Stack.memory_drop (s : Stack) (n : ℕ) : (s.drop n).memory = s.memory :=
  rfl

lemma Stack.pointer_drop (s : Stack) (n : ℕ) : (s.drop n).pointer = sub64 s.pointer (8 * n) :=
  rfl

lemma Stack.pointer_push (s : Stack) (ws : List ℕ) :
    (s.push ws).pointer = sub64 s.pointer (8 * ws.length) :=
  rfl

lemma Stack.pointer_pushBytes (s : Stack) (bytes : List UInt8) :
    (s.pushBytes bytes).pointer = sub64 s.pointer (8 * bytes.length) :=
  rfl

/-- The words were pushed from the address `p` on, and nothing else has
changed. -/
structure Pushed (m : Memory) (p : ℕ) (ws : List ℕ) (s : Stack) : Prop where
  pointer : s.pointer + 8 * ws.length = p
  words : Words s.memory s.pointer ws
  agree : AgreeOutside m s.memory s.pointer (8 * ws.length)

lemma pushed_nil (s : Stack) : Pushed s.memory s.pointer [] s :=
  ⟨rfl, fun i hi => absurd hi (Nat.not_lt_zero i), fun _ _ => rfl⟩

lemma Pushed.push {p : ℕ} (h : Pushed m p ws s) (ws' : List ℕ)
    (hroom : 8 * (ws' ++ ws).length ≤ p) (hlt : p < 2 ^ 64 + 8 * (ws' ++ ws).length) :
    Pushed m p (ws' ++ ws) (s.push ws') := by
  have hstart := h.pointer
  rw [List.length_append] at hroom hlt
  have hpointer : (s.push ws').pointer = s.pointer - 8 * ws'.length :=
    sub64_of_le (by omega) (by omega)
  have hagree : AgreeOutside s.memory (s.push ws').memory (s.push ws').pointer (8 * ws'.length) :=
    agreeOutside_storeWords s.memory (s.push ws').pointer ws'
  have haddr : (s.push ws').pointer + 8 * ws'.length = s.pointer := by omega
  refine ⟨?_, ?_, fun x hx => ?_⟩
  · rw [List.length_append]
    omega
  · apply (words_storeWords s.memory (s.push ws').pointer ws').append
    rw [haddr]
    exact h.words.of_agreeOutside hagree (by omega)
  · rw [List.length_append] at hx
    rw [hagree x (by omega), h.agree x (by omega)]

lemma Pushed.pushAll {p : ℕ} {lists : List (List ℕ)} (h : Pushed m p ws s)
    (hroom : 8 * (lists.flatten.length + ws.length) ≤ p) (hlt : p < 2 ^ 64 + 8 * ws.length) :
    Pushed m p (lists.foldl (fun ws ws' => ws' ++ ws) ws) (lists.foldl Stack.push s) := by
  induction lists generalizing ws s with
  | nil => exact h
  | cons ws' lists ih =>
    rw [List.flatten_cons, List.length_append] at hroom
    have hlength : (ws' ++ ws).length = ws'.length + ws.length := List.length_append
    have hroom' : 8 * (lists.flatten.length + (ws' ++ ws).length) ≤ p := by omega
    have hlt' : p < 2 ^ 64 + 8 * (ws' ++ ws).length := by omega
    exact ih (h.push ws' (by omega) hlt') hroom' hlt'

end Cottage.WordStack
