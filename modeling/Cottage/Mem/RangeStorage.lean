import Cottage.Mem.HeapArrays

/-!
# The arrays of ranges

`mmap_range_count` and the block at `mmap_ranges` of every pagemap.  Ranges are
appended in `mmap_map_range`, `munmap` and `mmap_fork_pagemap`, always in the
same way: the block is resized for `8 * count + 1` bytes and the pointer to the
range is stored behind the ones that are there.  Seven of the eight bytes that
are stored are not in the size that is asked for; there is room for them as all
sizes of blocks are multiples of eight.
-/

namespace Cottage.Malloc

open ByteMemory Mem Transition

/-- The size that is requested before a range is appended. -/
def appendSize (count : ℕ) : ℕ :=
  (8 * count + 1) % 2 ^ 64

def appendRange (s : ArrayState) (pm range page : ℕ) : Option ArrayState :=
  if pm < s.arrays.count then
    (s.resize pm (appendSize (s.arrays.get pm).count) page).map fun s =>
      let ⟨mmapRanges, mmapRangeCount⟩ := s.arrays.get pm
      (s.write (write64 s.heap.heap.memory (mmapRanges + 8 * mmapRangeCount) range)).setCount pm
        (mmapRangeCount + 1)
  else none

/-- `munmap` has found a range of the pagemap, so there is one. -/
def removeRange (s : ArrayState) (pm page : ℕ) : Option ArrayState :=
  if pm < s.arrays.count ∧ 0 < (s.arrays.get pm).count then
    let count := (s.arrays.get pm).count - 1
    (s.setCount pm count).resize pm (8 * count % 2 ^ 64) page
  else none

inductive RangeEvent
  | newPagemap
  | append (pm range page : ℕ)
  | remove (pm page : ℕ)
  | other (e : Event)
  deriving DecidableEq, Repr

def rangeStep (s : ArrayState) : RangeEvent → Option ArrayState
  | .newPagemap => some { s with arrays := s.arrays.alloc ⟨0, 0⟩ }
  | .append pm range page => appendRange s pm range page
  | .remove pm page => removeRange s pm page
  | .other e => s.other e

def rangeSystem : System ArrayState RangeEvent where
  init s := Initial s.heap ∧ s.arrays.count = 0
  step := rangeStep

def RangesFit (a : ArrayRef) (len : ℕ) : Prop :=
  8 * a.count ≤ len + 7

variable {s t : ArrayState} {pm range page : ℕ}

section

variable (h : Held RangesFit s)

include h

lemma Held.count_le (hpm : pm < s.arrays.count) : 8 * (s.arrays.get pm).count ≤ 2 ^ 48 := by
  by_cases hzero : (s.arrays.get pm).ptr = 0
  · have hfit := h.null pm hpm hzero
    rw [RangesFit] at hfit
    omega
  · obtain ⟨b, hb, _, hfit⟩ := h.block pm hpm hzero
    have hlen := h.inv.len_le hb
    rw [RangesFit] at hfit
    omega

lemma Held.appendSize_eq (hpm : pm < s.arrays.count) :
    appendSize (s.arrays.get pm).count = 8 * (s.arrays.get pm).count + 1 := by
  have hcount := h.count_le hpm
  exact Nat.mod_eq_of_lt (by omega)

lemma Held.append_room {h' : Heap} {ptr : ℕ} (hpm : pm < s.arrays.count)
    (hcall : realloc (s.arrays.get pm).ptr (appendSize (s.arrays.get pm).count) page s.heap.heap =
      some (h', ptr)) :
    8 * ((s.arrays.get pm).count + 1) ≤ usableAt h' ptr := by
  have hcount := h.count_le hpm
  have hsize := h.appendSize_eq hpm
  have hI' := h.inv.reallocated (h.takes hpm) (by omega) hcall
  have hroom := hI'.le_usableAt
  obtain ⟨n, hn⟩ := hI'.dvd_usableAt (.head _)
  simp only [State.reallocated] at hroom hn
  omega

lemma Held.appendRange (hstep : Malloc.appendRange s pm range page = some t) :
    Held RangesFit t := by
  simp only [Malloc.appendRange, Option.ite_none_right_eq_some, Option.map_eq_some_iff] at hstep
  obtain ⟨hpm, s₁, hresize, rfl⟩ := hstep
  have hcount := h.count_le hpm
  have hsize := h.appendSize_eq hpm
  have h₁ : Held RangesFit s₁ := by
    apply h.resize hpm (by omega) _ hresize
    intro newPtr
    rw [hsize]
    simp only [RangesFit]
    omega
  obtain ⟨⟨h', newPtr⟩, hrealloc, rfl⟩ := Option.map_eq_some_iff.mp hresize
  have hroom := h.append_room hpm hrealloc
  have hne : newPtr ≠ 0 := h₁.inv.ptr_ne_zero (.head _)
  simp only [Records.get_set_self]
  have hwrite := h₁.write hpm (by simpa only [Records.get_set_self] using hne)
    (agreeOutside_write64 _ (newPtr + 8 * (s.arrays.get pm).count) range)
    (by simp only [Records.get_set_self]; omega)
    (by simp only [Records.get_set_self, State.reallocated]; omega)
  apply hwrite.setCount
  · intro hzero
    exact absurd hzero (by simpa only [ArrayState.write, Records.get_set_self] using hne)
  · intro b hb hptr _
    simp only [ArrayState.write, Records.get_set_self] at hptr
    obtain rfl := hwrite.inv.layout.ptr_inj hb (.head _) hptr
    simp only [RangesFit, hsize]
    omega

lemma Held.removeRange (hstep : Malloc.removeRange s pm page = some t) : Held RangesFit t := by
  simp only [Malloc.removeRange, Option.ite_none_right_eq_some] at hstep
  obtain ⟨⟨hpm, hpos⟩, hresize⟩ := hstep
  have hcount := h.count_le hpm
  have hset : Held RangesFit (s.setCount pm ((s.arrays.get pm).count - 1)) := by
    apply h.setCount
    · intro _ hfit
      simp only [RangesFit] at hfit ⊢
      omega
    · intro b _ _ hfit
      simp only [RangesFit] at hfit ⊢
      omega
  have hmod : 8 * ((s.arrays.get pm).count - 1) % 2 ^ 64 = 8 * ((s.arrays.get pm).count - 1) :=
    Nat.mod_eq_of_lt (by omega)
  apply hset.resize hpm (by omega) _ hresize
  intro newPtr
  simp only [ArrayState.setCount, Records.get_set_self, RangesFit]
  omega

lemma Held.rangeStep {e : RangeEvent} (hstep : Malloc.rangeStep s e = some t) :
    Held RangesFit t := by
  cases e with
  | newPagemap =>
    cases hstep
    apply h.push h.inv (List.Subset.refl _)
    · intro _
      exact Nat.zero_le _
    · exact absurd rfl
    · exact absurd rfl
  | append pm range page => exact h.appendRange hstep
  | remove pm page => exact h.removeRange hstep
  | other e => exact h.other hstep

end

lemma held_of_reachable (hreach : rangeSystem.Reachable s) : Held RangesFit s := by
  refine hreach.invariant ?_ fun _ _ _ h hstep => h.rangeStep hstep
  rintro s ⟨hheap, hcount⟩
  exact .of_initial hheap hcount

/-- The block that `realloc` returns before a range is stored has room for it. -/
theorem range_storage_room {s : ArrayState} {pm page ptr : ℕ} {h' : Heap}
    (hreach : rangeSystem.Reachable s) (hpm : pm < s.arrays.count)
    (hcall : realloc (s.arrays.get pm).ptr (appendSize (s.arrays.get pm).count) page
      s.heap.heap = some (h', ptr)) :
    8 * ((s.arrays.get pm).count + 1) ≤ usableAt h' ptr :=
  (held_of_reachable hreach).append_room hpm hcall

lemma realloc_of_le {h : Heap} {ptr len : ℕ} (hne : ptr ≠ 0) (hoffset : pageOffset ptr ≠ 0)
    (hle : len ≤ usableAt h ptr) : realloc ptr len page h = some (h, ptr) := by
  rw [usableAt, if_neg hoffset] at hle
  rw [realloc, if_neg hne, if_neg hoffset, if_neg (not_lt.mpr hle)]

theorem range_storage_room_after_removal :
    ∃ s s' h' ptr, rangeSystem.Reachable s ∧ rangeStep s (.remove 0 0xC000) = some s' ∧
      realloc (s'.arrays.get 0).ptr (appendSize (s'.arrays.get 0).count) 0xD000 s'.heap.heap =
        some (h', ptr) ∧ 8 * ((s'.arrays.get 0).count + 1) ≤ usableAt h' ptr := by
  obtain ⟨heap, hheap, hany⟩ := exists_initial_of_bootHeap_any (fun heap =>
    (rangeSystem.run (noArrays heap) [.newPagemap, .append 0 0x5000 0xB000]).any
      fun s : ArrayState => decide (s.arrays.count = 1 ∧ (s.arrays.get 0).count = 1 ∧
        (s.arrays.get 0).ptr ≠ 0 ∧ pageOffset (s.arrays.get 0).ptr ≠ 0)) (by decide +kernel)
  have hinit : rangeSystem.Reachable (noArrays heap) := .init ⟨hheap, rfl⟩
  obtain ⟨s, hs, hresult⟩ := hinit.exists_of_run_any _ _ hany
  obtain ⟨hpagemaps, hcount, hne, hoffset⟩ := of_decide_eq_true hresult
  have hheld := held_of_reachable hs
  have hroom : 1 ≤ usableAt s.heap.heap (s.arrays.get 0).ptr := by
    obtain ⟨b, hb, hptr, hfit⟩ := hheld.block 0 (by omega) hne
    have hlen : b.len ≤ usableAt s.heap.heap b.ptr :=
      (hheld.inv.len_le_usable hb).trans_eq (hheld.inv.usableAt_eq hb).symm
    rw [RangesFit, hcount] at hfit
    rw [← hptr]
    omega
  have hremove : ∃ s', rangeStep s (.remove 0 0xC000) = some s' ∧ s'.heap.heap = s.heap.heap ∧
      s'.arrays.count = 1 ∧ s'.arrays.get 0 = ⟨(s.arrays.get 0).ptr, 0⟩ := by
    have harray : (s.setCount 0 0).arrays.get 0 = ⟨(s.arrays.get 0).ptr, 0⟩ :=
      Records.get_set_self _ _ _
    have hkept : realloc ((s.setCount 0 0).arrays.get 0).ptr 0 0xC000 (s.setCount 0 0).heap.heap =
        some (s.heap.heap, (s.arrays.get 0).ptr) := by
      rw [harray]
      exact realloc_of_le hne hoffset (Nat.zero_le _)
    have hresize : rangeStep s (.remove 0 0xC000) = (s.setCount 0 0).resize 0 0 0xC000 := by
      rw [rangeStep, removeRange, if_pos (by omega), hcount]
      rfl
    rw [hresize, ArrayState.resize, hkept]
    exact ⟨_, rfl, rfl, hpagemaps, by rw [harray]; exact Records.get_set_self _ _ _⟩
  obtain ⟨s', hstep, hsame, hpagemaps', harray⟩ := hremove
  have hcall : realloc (s'.arrays.get 0).ptr (appendSize (s'.arrays.get 0).count) 0xD000
      s'.heap.heap = some (s.heap.heap, (s.arrays.get 0).ptr) := by
    rw [harray, hsame]
    exact realloc_of_le hne hoffset hroom
  exact ⟨s, s', _, _, hs, hstep, hcall,
    range_storage_room (hs.step (a := .remove 0 0xC000) trivial hstep) (by omega) hcall⟩

end Cottage.Malloc
