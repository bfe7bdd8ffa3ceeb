import Cottage.Mem.UserMemory

/-!
# What the processor lets a program do

The processor reads a word of each of the four tables for an address, and a
program may access the page if all of them say so.  Words that lead to tables
allow everything, so the word of the page decides.
-/

namespace Cottage.Mmap

open ByteMemory Mem Paging TableWalk

def pathWords (m : Memory) : ℕ → List ℕ → List ℕ
  | _, [] => []
  | n, i :: path => word m n i :: pathWords m (pageBase (word m n i)) path

def accessWords (m : Memory) (top virt : ℕ) : List ℕ :=
  pathWords m top (tablePath virt ++ [pml1Entry virt])

def UserReadable (m : Memory) (top virt : ℕ) : Prop :=
  ∀ w ∈ accessWords m top virt, w &&& pteFlagPresent ≠ 0 ∧ w &&& pteFlagUser ≠ 0

def UserWritable (m : Memory) (top virt : ℕ) : Prop :=
  UserReadable m top virt ∧ ∀ w ∈ accessWords m top virt, w &&& pteFlagWritable ≠ 0

variable {m : Memory} {owned tops : List ℕ} {kernel top virt n : ℕ} {path : List ℕ}

lemma pageBase_of_nextLevel {i n' : ℕ} (h : nextLevel m n i = some n') :
    pageBase (word m n i) = n' := by
  rw [nextLevel, target] at h
  split_ifs at h
  exact Option.some.inj h

lemma pathWords_append (hwalk : walk (nextLevel m) top path = some n) (rest : List ℕ) :
    pathWords m top (path ++ rest) = pathWords m top path ++ pathWords m n rest := by
  induction path generalizing top with
  | nil =>
    cases hwalk
    rfl
  | cons i path ih =>
    rw [walk_cons] at hwalk
    obtain ⟨n', hnext, hwalk⟩ := Option.bind_eq_some_iff.mp hwalk
    rw [List.cons_append, pathWords, pathWords, pageBase_of_nextLevel hnext, ih hwalk,
      List.cons_append]

lemma flags_of_pathWords {label : Labels} (hs : Tree m owned kernel tops label)
    (hfilled : Filled m label) (htop : top ∈ tops) (hI : ∀ i ∈ path, i < 512)
    (hlen : path.length ≤ 3) (hwalk : walk (nextLevel m) top path = some n) :
    ∀ w ∈ pathWords m top path, ∃ n', w = n' ||| 0b111 := by
  induction path using List.reverseRecOn generalizing n with
  | nil => exact nofun
  | append_singleton path i ih =>
    rw [List.length_append, List.length_singleton] at hlen
    have hI' : ∀ j ∈ path, j < 512 := fun j hj => hI j (List.mem_append_left _ hj)
    rw [walk_concat] at hwalk
    obtain ⟨n₁, hwalk₁, hnext⟩ := Option.bind_eq_some_iff.mp hwalk
    have hlabel := hs.carries_of_walk htop hI' (by omega) hwalk₁
    have hi : i < 512 := hI i (List.mem_append_right _ (.head _))
    have hword := hfilled n₁ _ i hlabel (by simp only; omega) hi
    rw [pathWords_append hwalk₁]
    intro w hw
    rcases List.mem_append.mp hw with hw | hw
    · exact ih hI' (by omega) hwalk₁ w hw
    · obtain rfl : w = word m n₁ i := List.mem_singleton.mp hw
      rcases hword with hzero | ⟨n', _, hword⟩
      · rw [nextLevel, hzero, target_zero] at hnext
        cases hnext
      · exact ⟨n', hword⟩

lemma and_flag_of_or (n : ℕ) {flag : ℕ} (hflag : 0b111 &&& flag ≠ 0) :
    (n ||| 0b111) &&& flag ≠ 0 := by
  rw [Nat.and_or_distrib_right]
  intro h
  exact hflag (Nat.or_eq_zero_iff.mp h).2

variable {s : Machine} {label : ℕ → Labels}

lemma World.accessWords_iff (h : World s owned tops label) (htop : top ∈ tops)
    (hpresent : pte s.tables.memory top virt ≠ 0) {flag : ℕ} (hflag : 0b111 &&& flag ≠ 0) :
    (∀ w ∈ accessWords s.tables.memory top virt, w &&& flag ≠ 0) ↔
      pte s.tables.memory top virt &&& flag ≠ 0 := by
  cases hwalk : walk (nextLevel s.tables.memory) top (tablePath virt) with
  | none =>
    rw [pte, entry, hwalk, Option.map_none, Option.getD_none] at hpresent
    exact absurd rfl hpresent
  | some n =>
    have hpte : pte s.tables.memory top virt = word s.tables.memory n (pml1Entry virt) := by
      rw [pte, entry, hwalk, Option.map_some, Option.getD_some]
    have hlinks := flags_of_pathWords h.kernelSpace.toTree
      (h.spaces.filled s.kernel s.kernel_mem_roots) htop (tablePath_lt virt)
      (length_tablePath virt).le hwalk
    have hwords : accessWords s.tables.memory top virt =
        pathWords s.tables.memory top (tablePath virt) ++ [pte s.tables.memory top virt] := by
      rw [accessWords, pathWords_append hwalk, hpte, pathWords, pathWords]
    rw [hwords, List.forall_mem_append, List.forall_mem_singleton]
    refine and_iff_right fun w hw => ?_
    obtain ⟨n', rfl⟩ := hlinks w hw
    exact and_flag_of_or n' hflag

lemma user_or (n prot : ℕ) : (n ||| ptFlags prot) &&& pteFlagUser ≠ 0 := by
  rw [Nat.and_or_distrib_right]
  intro h
  have hzero := (Nat.or_eq_zero_iff.mp h).2
  rw [ptFlags] at hzero
  split_ifs at hzero <;> cases hzero

lemma World.access_of_pte (h : World s owned tops label) (htop : top ∈ tops) {phys prot : ℕ}
    (hphys : pageSize ∣ phys) (hword : pte s.tables.memory top virt = phys ||| ptFlags prot) :
    UserReadable s.tables.memory top virt ∧
      (UserWritable s.tables.memory top virt ↔ prot &&& mmapProtWrite ≠ 0) := by
  have hpresent : pte s.tables.memory top virt &&& pteFlagPresent ≠ 0 := by
    rw [hword]
    exact or_ptFlags_present phys prot
  have hne : pte s.tables.memory top virt ≠ 0 := by
    intro hzero
    rw [hzero] at hpresent
    exact hpresent rfl
  have huser : pte s.tables.memory top virt &&& pteFlagUser ≠ 0 := by
    rw [hword]
    exact user_or phys prot
  have hreadable : UserReadable s.tables.memory top virt := fun w hw =>
    ⟨(h.accessWords_iff htop hne (by decide)).mpr hpresent w hw,
      (h.accessWords_iff htop hne (by decide)).mpr huser w hw⟩
  refine ⟨hreadable, ?_⟩
  rw [UserWritable, and_iff_right hreadable, h.accessWords_iff htop hne (by decide), hword]
  exact writable_or hphys prot

end Cottage.Mmap
