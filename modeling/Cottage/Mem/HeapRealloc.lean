import Cottage.Mem.HeapSafety

/-!
# `realloc`

`realloc` leaves a block where it is, or takes a new one, copies the first
bytes and frees the old one.  How many bytes are copied depends on where the
old block was: the whole entry of a slab, or what was requested for a big block
as far as the new one has room for it.
-/

namespace Cottage.Malloc

open ByteMemory LinkedList Mem Transition

variable {h h' : Heap} {live : List Block} {b b' : Block} {c len page ptr x : ℕ}

section

variable {n : ℕ} {h₁ : Heap}

variable (hmoved : Moved h h' b len page ptr n h₁) (hI : Inv h live)

include hmoved hI

lemma Moved.inv_copied (hle : len ≤ 2 ^ 63) :
    Inv { h₁ with memory := memcpy h₁.memory ptr b.ptr n } (⟨ptr, len, isBig len⟩ :: live) :=
  (hI.malloc hle hmoved.malloc_eq).copy hmoved.le_len

variable (hb : b ∈ live) (hle : len ≤ 2 ^ 63)

include hb hle

lemma Moved.ptr_ne : b.ptr ≠ ptr :=
  (hI.malloc hle hmoved.malloc_eq).head_ne hb

lemma Moved.copied {k : ℕ} (hk : k < n) : h'.memory (ptr + k) = h.memory (b.ptr + k) := by
  have hallocated := hI.allocated_malloc hle hmoved.malloc_eq
  have hI₁ := hallocated.inv
  have hne := hmoved.ptr_ne hI hb hle
  have hnew (k : ℕ) (hk : k < n) : Covers h₁.slabPages ⟨ptr, len, isBig len⟩ (ptr + k) := by
    apply hI₁.layout.covers_of_lt (.head _)
    · exact Nat.le_add_right ptr k
    · have := hmoved.le_len
      dsimp only
      omega
  have hold (k : ℕ) (hk : k < n) : Covers h.slabPages b (b.ptr + k) :=
    hmoved.covers _ (by omega) (by omega)
  have hkept := ((hmoved.inv_copied hI hle).keepsBlocks_free (.tail _ hb)).1
    ⟨ptr, len, isBig len⟩ (mem_without.mpr ⟨.head _, hne.symm⟩) (ptr + k) (hnew k hk)
  rw [hmoved.result_eq, hkept]
  dsimp only
  rw [memcpy_apply_of_lt _ hk]
  · exact hallocated.keeps b hb _ (hold k hk)
  · intro i hi j hj heq
    apply hI₁.not_covers (.tail _ hb) (.head _) hne
      ((hold i hi).mono hallocated.subset)
    rw [heq]
    exact hnew j (hj.trans hi)

lemma Moved.zero (hx : Covers h₁.slabPages ⟨ptr, len, isBig len⟩ x) (hcopied : ptr + n ≤ x) :
    h'.memory x = 0 := by
  have hallocated := hI.allocated_malloc hle hmoved.malloc_eq
  have hne := hmoved.ptr_ne hI hb hle
  have hkept := ((hmoved.inv_copied hI hle).keepsBlocks_free (.tail _ hb)).1
    ⟨ptr, len, isBig len⟩ (mem_without.mpr ⟨.head _, hne.symm⟩) x hx
  rw [hmoved.result_eq, hkept, ← hallocated.zero x hx]
  apply memcpy_apply_of_outside
  omega

lemma Moved.keepsBlocks :
    KeepsBlocks h.slabPages (without live b.ptr) h.memory h'.memory ∧
      h.slabPages ⊆ h'.slabPages := by
  have hallocated := hI.allocated_malloc hle hmoved.malloc_eq
  have hI₁ := hallocated.inv
  obtain ⟨hkept, hslabs⟩ :=
    (hmoved.inv_copied hI hle).keepsBlocks_free (.tail _ hb)
  refine ⟨?_, ?_⟩
  · intro b' hb' x hx
    obtain ⟨hb', hne⟩ := mem_without.mp hb'
    have hx₁ := hx.mono hallocated.subset
    rw [hmoved.result_eq, hkept b' (mem_without.mpr ⟨List.mem_cons_of_mem _ hb', hne⟩) x hx₁,
      ← hallocated.keeps b' hb' x hx]
    apply memcpy_apply_of_outside
    rintro ⟨hlo, hhi⟩
    apply hI₁.not_covers (.tail _ hb') (.head _) (hI₁.head_ne hb') hx₁
    apply hI₁.layout.covers_of_lt (.head _) hlo
    have := hmoved.le_len
    dsimp only
    omega
  · rw [hmoved.result_eq, hslabs]
    exact hallocated.subset

end

/-- The entry of the block is in one free list, once; or the run of the block
was the heap's before and is not any more. -/
def FreeOnce (h h' : Heap) (b : Block) : Prop :=
  if b.big then
    ∃ r ∈ h.owned, b.ptr = r.base + higherHalf + pageSize ∧ r ∉ h'.owned
  else
    ∃ c < slabCount, ∃ lists : ℕ → List ℕ,
      (∀ i < slabCount, Chain h'.memory (h'.firstFree i) (lists i)) ∧
      (lists c).count b.ptr = 1 ∧ ∀ i < slabCount, i ≠ c → b.ptr ∉ lists i

lemma Inv.freeOnce (hI : Inv h live) (hb : b ∈ live) :
    FreeOnce h (Malloc.free b.ptr h) b := by
  have hI' := hI.free hb
  rw [FreeOnce]
  split_ifs with hbig
  · obtain ⟨hpages, _⟩ := hI.contents.metadata b hb hbig
    obtain ⟨p, hptr, howned, _⟩ := hI.layout.big_block b hb hbig
    refine ⟨_, howned, hptr, ?_⟩
    have hpage : b.ptr - pageSize - higherHalf = p := by omega
    rw [free_of_big hI hb hbig, Malloc.bigFree, hpages, hpage]
    simp [pmmFree]
  · obtain ⟨c, hentry, _⟩ := hI.layout.slab_block b hb (by simpa using hbig)
    obtain ⟨hc, _⟩ := hI.entry_header hentry
    have hslabs := (hI.keepsBlocks_free hb).2
    have hlists (i : ℕ) : ∃ l, i < slabCount →
        Chain (Malloc.free b.ptr h).memory ((Malloc.free b.ptr h).firstFree i) l ∧ l.Nodup ∧
          ∀ a, a ∈ l ↔ FreeEntry (Malloc.free b.ptr h).slabPages (without live b.ptr) i a := by
      by_cases hi : i < slabCount
      · obtain ⟨l, hl⟩ := hI'.contents.freeList i hi
        exact ⟨l, fun _ => hl⟩
      · exact ⟨[], fun hi' => absurd hi' hi⟩
    choose lists hlists using hlists
    refine ⟨c, hc, lists, fun i hi => (hlists i hi).1, ?_, ?_⟩
    · obtain ⟨_, hnodup, hmem⟩ := hlists c hc
      apply List.count_eq_one_of_mem hnodup
      rw [hmem, hslabs]
      exact ⟨hentry, fun b' hb' => (mem_without.mp hb').2⟩
    · intro i hi hne hin
      obtain ⟨_, _, hmem⟩ := hlists i hi
      have hentry' := ((hmem _).mp hin).1
      rw [hslabs] at hentry'
      exact hne (hI.layout.entry_class_eq hentry' hentry)

/-! ## Data is preserved -/

/-- What a call `realloc(ptr, len)` on the block `b` has done when it returns
`newPtr`. -/
structure DataPreserved (s : State) (b : Block) (len page newPtr : ℕ) (h' : Heap) : Prop where
  room : len ≤ State.usable ⟨h', []⟩ ⟨newPtr, len, if newPtr = b.ptr then b.big else isBig len⟩
  first_eq : ∀ k, k < min b.len len → h'.memory (newPtr + k) = s.heap.memory (b.ptr + k)
  others_eq : ∀ b' ∈ s.live, b'.ptr ≠ b.ptr → ∀ x ∈ s.bytes b', h'.memory x = s.heap.memory x
  freed : newPtr ≠ b.ptr → ∃ h₁ m, malloc len page s.heap = some (h₁, newPtr) ∧
    h' = free b.ptr { h₁ with memory := m } ∧ FreeOnce { h₁ with memory := m } h' b

/-- A block keeps its bytes when it is resized, and so do all others. -/
theorem realloc_preserves {s : State} {b : Block} {len page newPtr : ℕ} {h' : Heap}
    (hreach : system.Reachable s) (hb : b ∈ s.live) (hle : len ≤ 2 ^ 63)
    (hcall : realloc b.ptr len page s.heap = some (h', newPtr)) :
    DataPreserved s b len page newPtr h' := by
  have hI := inv_of_reachable hreach
  have hI' := hI.realloc hb hle hcall
  have hroom := Inv.len_le_usable (s := ⟨h', _⟩) hI' (.head _)
  have hcovers {b' : Block} (hb' : b' ∈ s.live) {x : ℕ} (hx : x ∈ s.bytes b') :
      Covers s.heap.slabPages b' x :=
    (hI.covers_iff hb').mpr hx
  rcases hI.realloc_cases hb hle hcall with ⟨rfl, _, hkeep, _⟩ | ⟨n, h₁, hmoved⟩
  · refine ⟨hroom, ?_, ?_, fun hne => absurd rfl hne⟩
    · intro k hk
      apply hkeep b hb
      exact hI.layout.covers_of_lt hb (by omega) (by omega)
    · intro b' hb' _ x hx
      exact hkeep b' hb' x (hcovers hb' hx)
  · refine ⟨hroom, ?_, ?_, fun _ => ⟨h₁, _, hmoved.malloc_eq, hmoved.result_eq, ?_⟩⟩
    · intro k hk
      exact hmoved.copied hI hb hle (hk.trans_le hmoved.min_le)
    · intro b' hb' hne x hx
      exact (hmoved.keepsBlocks hI hb hle).1 b' (mem_without.mpr ⟨hb', hne⟩) x (hcovers hb' hx)
    · rw [hmoved.result_eq]
      exact (hmoved.inv_copied hI hle).freeOnce (.tail _ hb)

theorem realloc_preserves_grown :
    ∃ s b h' newPtr, system.Reachable s ∧ b ∈ s.live ∧ b.len = 5000 ∧ newPtr ≠ b.ptr ∧
      realloc b.ptr 10000 0x10000 s.heap = some (h', newPtr) ∧
        DataPreserved s b 10000 0x10000 newPtr h' := by
  obtain ⟨heap, hinit, hany⟩ := exists_initial_of_bootHeap_any (fun heap =>
    (system.run ⟨heap, []⟩ [.malloc 5000 0xC000]).any fun s : State =>
      decide (s.live = [⟨0xFFFF80000000D000, 5000, true⟩]) &&
        (realloc 0xFFFF80000000D000 10000 0x10000 s.heap).any
          fun result => result.2 ≠ 0xFFFF80000000D000) (by decide +kernel)
  have hreach : system.Reachable ⟨heap, []⟩ := .init hinit
  obtain ⟨s, hs, hresult⟩ := hreach.exists_of_run_any _ _ hany
  obtain ⟨hlive, hmoved⟩ := Bool.and_eq_true_iff.mp hresult
  obtain ⟨⟨h', newPtr⟩, hcall, hne⟩ := Option.any_eq_true _ _ |>.mp hmoved
  have hb : (⟨0xFFFF80000000D000, 5000, true⟩ : Block) ∈ s.live := by
    rw [of_decide_eq_true hlive]
    exact .head _
  exact ⟨s, _, h', newPtr, hs, hb, rfl, of_decide_eq_true hne, hcall,
    realloc_preserves hs hb (by decide) hcall⟩

end Cottage.Malloc
