import Cottage.Mem.HeapCalls

/-!
# What calls of the heap do to blocks

A new block holds zeros: its entry is cleared, or its pages come cleared from
the page allocator.  The blocks that were there before keep their bytes, as
what is written lies in the new block or in pages that were not in use.
-/

namespace Cottage.Malloc

open ByteMemory LinkedList Mem

variable {h h' : Heap} {live : List Block} {slabs slabs' : List (ℕ × ℕ)} {owned : List PageRun}
  {b b' : Block} {c i len page ptr x : ℕ}

lemma Covers.mono (hx : Covers slabs b x) (hsub : slabs ⊆ slabs') : Covers slabs' b x := by
  rw [Covers] at hx ⊢
  split_ifs at hx ⊢
  · exact hx
  · obtain ⟨c, hentry, hbytes⟩ := hx
    exact ⟨c, hentry.mono hsub, hbytes⟩

lemma Unused.not_covers {r : PageRun} (hu : Unused slabs live r) (hl : Layout owned slabs live)
    (hr : r ∈ owned) (hb : b ∈ live) (hx : Covers slabs b x) : ¬ r.Has x := by
  intro hhas
  cases hbig : b.big with
  | false =>
    obtain ⟨p, c, hp, _, _, _, hrun, _⟩ := hl.slab_of_covers hbig hx
    exact hu.ne_slab hp (hl.run_eq hr (hl.slab_owned p c hp).1 hhas hrun)
  | true =>
    obtain ⟨p, hptr, howned, _, _, _, hrun⟩ := hl.big_of_covers hb hbig hx
    exact hu.ne_big hb hbig hptr (hl.run_eq hr howned hhas hrun)

lemma Inv.not_covers (hI : Inv h live) (hb : b ∈ live) (hb' : b' ∈ live) (hne : b.ptr ≠ b'.ptr)
    (hx : Covers h.slabPages b x) : ¬ Covers h.slabPages b' x := by
  intro hx'
  exact hne (congrArg Block.ptr (hI.layout.block_eq hb hb' hx hx'))

def KeepsBlocks (slabs : List (ℕ × ℕ)) (live : List Block) (m m' : Memory) : Prop :=
  ∀ b ∈ live, ∀ x, Covers slabs b x → m' x = m x

lemma Inv.keepsBlocks_pmmAlloc {count : ℕ} (hI : Inv h live) (hcount : 1 ≤ count)
    (hcall : Malloc.pmmAlloc page count h = some h') :
    KeepsBlocks h.slabPages live h.memory h'.memory ∧ h'.slabPages = h.slabPages ∧
      ∀ x, PageRun.Has ⟨page, count⟩ x → h'.memory x = 0 := by
  obtain ⟨hI', hr, hu, _⟩ := hI.pmmAlloc hcount hcall
  rw [Malloc.pmmAlloc] at hcall
  split at hcall
  · cases hcall
    refine ⟨?_, rfl, ?_⟩
    · intro b hb x hx
      exact agreeOutside_memset _ _ _ _ x (hu.not_covers hI'.layout hr hb hx)
    · intro x hx
      dsimp only
      rw [memset_apply]
      exact if_pos hx
  · cases hcall

lemma Inv.keepsBlocks_initSlab (hI : Inv h live) (hi : i < slabCount)
    (hcall : Malloc.initSlab i page h = some h') :
    KeepsBlocks h.slabPages live h.memory h'.memory ∧ h.slabPages ⊆ h'.slabPages := by
  rw [initSlab_eq hi, Option.map_eq_some_iff] at hcall
  obtain ⟨h₁, halloc, rfl⟩ := hcall
  obtain ⟨hI₁, hr, hu, _⟩ := hI.pmmAlloc le_rfl halloc
  obtain ⟨hkeep, hslabs, _⟩ := hI.keepsBlocks_pmmAlloc le_rfl halloc
  refine ⟨?_, ?_⟩
  · intro b hb x hx
    have hnot := hu.not_covers hI₁.layout hr hb (hslabs ▸ hx)
    exact (agreeOn_slabMemory hi h₁.memory x hnot).trans (hkeep b hb x hx)
  · rw [← hslabs]
    exact List.subset_cons_self _ _

/-- The block `b` is new and holds zeros, and the other blocks are as before. -/
structure Allocated (h h' : Heap) (live : List Block) (b : Block) : Prop where
  inv : Inv h' (b :: live)
  subset : h.slabPages ⊆ h'.slabPages
  keeps : KeepsBlocks h.slabPages live h.memory h'.memory
  zero : ∀ x, Covers h'.slabPages b x → h'.memory x = 0

lemma Inv.allocated_slabAlloc (hI : Inv h live) (hi : i < slabCount) (hlen : len ≤ entSize i)
    (hcall : Malloc.slabAlloc i page h = some (h', ptr)) :
    Allocated h h' live ⟨ptr, len, false⟩ ∧ IsEntry h'.slabPages i ptr := by
  rw [Malloc.slabAlloc, Option.map_eq_some_iff] at hcall
  obtain ⟨h₁, hpage, heq⟩ := hcall
  cases heq
  have hready : Inv h₁ live ∧ h₁.firstFree i ≠ 0 ∧
      KeepsBlocks h.slabPages live h.memory h₁.memory ∧ h.slabPages ⊆ h₁.slabPages := by
    split at hpage
    · obtain ⟨hI₁, hfirst, _⟩ := hI.initSlab hi (by assumption) hpage
      exact ⟨hI₁, hfirst, hI.keepsBlocks_initSlab hi hpage⟩
    · cases hpage
      exact ⟨hI, by assumption, fun _ _ _ _ => rfl, List.Subset.refl _⟩
  obtain ⟨hI₁, hfirst, hkeep, hsub⟩ := hready
  have hentry := (hI₁.freeEntry_firstFree hi hfirst).1
  have hI' := (hI₁.pop hi hfirst hlen).write_block (.head _)
    (agreeOutside_memset _ (h₁.firstFree i) 0 (entSize i)) fun x hlo hhi => ⟨i, hentry, hlo, hhi⟩
  refine ⟨⟨hI', hsub, ?_, ?_⟩, hentry⟩
  · intro b hb x hx
    rw [← hkeep b hb x hx]
    apply agreeOutside_memset
    rintro ⟨hlo, hhi⟩
    apply hI'.not_covers (.tail _ hb) (.head _) (hI'.head_ne hb)
      (hx.mono hsub)
    exact ⟨i, hentry, hlo, hhi⟩
  · intro x hx
    obtain ⟨c, hentry', hlo, hhi⟩ := hx
    obtain rfl := hI₁.layout.entry_class_eq hentry' hentry
    dsimp only at hlo hhi ⊢
    rw [memset_apply, if_pos ⟨hlo, hhi⟩]

lemma Inv.allocated_bigMalloc (hI : Inv h live) (hlen : 1 ≤ len) (hle : len ≤ 2 ^ 63)
    (hcall : Malloc.bigMalloc len page h = some (h', ptr)) :
    Allocated h h' live ⟨ptr, len, true⟩ := by
  rw [Malloc.bigMalloc, Option.map_eq_some_iff] at hcall
  obtain ⟨h₁, halloc, heq⟩ := hcall
  cases heq
  have hpages : divRoundup len pageSize < 2 ^ 63 := by
    rw [divRoundup_eq hle]
    omega
  rw [Nat.mod_eq_of_lt (by omega)] at halloc
  have hcount : 1 ≤ divRoundup len pageSize + 1 := Nat.le_add_left 1 _
  obtain ⟨hI₁, hr, hu, _⟩ := hI.pmmAlloc hcount halloc
  obtain ⟨hkeep, hslabs, hzero⟩ := hI.keepsBlocks_pmmAlloc hcount halloc
  have hfirst := hI₁.write_unused hr hu (agreeOn_metadata (a := page + higherHalf) hcount
    le_rfl (Nat.le_add_right _ 8) h₁.memory (divRoundup len pageSize))
  have hsecond := hfirst.write_unused hr hu (agreeOn_metadata (a := page + higherHalf + 8) hcount
    (Nat.le_add_right _ 8) le_rfl _ len)
  have hsame (x : ℕ) (hx : ¬ (page + higherHalf ≤ x ∧ x < page + higherHalf + 16)) :
      write64 (write64 h₁.memory (page + higherHalf) (divRoundup len pageSize))
        (page + higherHalf + 8) len x = h₁.memory x := by
    rw [write64_apply_of_outside _ (by omega), write64_apply_of_outside _ (by omega)]
  refine ⟨?_, hslabs ▸ List.Subset.refl _, ?_, ?_⟩
  · apply hsecond.addBig (b := ⟨page + higherHalf + pageSize, len, true⟩) rfl rfl rfl hr hu hlen hle
    · have hapart : page + higherHalf + 8 ≤ page + higherHalf + 8 := le_rfl
      rw [Nat.add_sub_cancel, read64_write64_of_disjoint _ (.inl hapart), read64_write64,
        Nat.mod_eq_of_lt (by omega)]
      rfl
    · rw [Nat.add_sub_cancel, read64_write64, Nat.mod_eq_of_lt (by omega)]
  · intro b hb x hx
    have hnot := hu.not_covers hI₁.layout hr hb (hslabs ▸ hx)
    rw [← hkeep b hb x hx]
    apply hsame
    simp only [PageRun.Has, Nat.succ_mul, pageSize] at hnot
    omega
  · intro x hx
    obtain ⟨hlo, hhi⟩ := hx
    dsimp only at hlo hhi ⊢
    rw [hsame x (by simp only [pageSize] at hlo; omega)]
    apply hzero
    simp only [PageRun.Has, Block.pages, Nat.succ_mul] at *
    omega

lemma Inv.allocated_malloc (hI : Inv h live) (hle : len ≤ 2 ^ 63)
    (hcall : Malloc.malloc len page h = some (h', ptr)) :
    Allocated h h' live ⟨ptr, len, isBig len⟩ := by
  rw [Malloc.malloc] at hcall
  cases hfind : findSlab ((8 + len) % 2 ^ 64) with
  | none =>
    have hlarge := findSlab_none hfind
    simp only [hfind] at hcall
    rw [isBig, hfind]
    exact hI.allocated_bigMalloc (by omega) hle hcall
  | some i =>
    obtain ⟨hi, hsize⟩ := findSlab_some hfind
    simp only [hfind] at hcall
    rw [isBig, hfind]
    exact (hI.allocated_slabAlloc hi (by omega) hcall).1

lemma Inv.malloc (hI : Inv h live) (hle : len ≤ 2 ^ 63)
    (hcall : Malloc.malloc len page h = some (h', ptr)) : Inv h' (⟨ptr, len, isBig len⟩ :: live) :=
  (hI.allocated_malloc hle hcall).inv

/-! ## `free` -/

lemma Inv.keepsBlocks_free (hI : Inv h live) (hb : b ∈ live) :
    KeepsBlocks h.slabPages (without live b.ptr) h.memory (Malloc.free b.ptr h).memory ∧
      (Malloc.free b.ptr h).slabPages = h.slabPages := by
  cases hbig : b.big with
  | false =>
    obtain ⟨c, hentry, _⟩ := hI.layout.slab_block b hb hbig
    have hsize := (entSize_spec c (hI.entry_header hentry).1).1
    rw [free_of_entry hI hentry, Malloc.slabFree, if_neg (hI.ptr_ne_zero hb)]
    refine ⟨?_, rfl⟩
    intro b' hb' x hx
    obtain ⟨hb', hne⟩ := mem_without.mp hb'
    apply agreeOutside_write64
    rintro ⟨hlo, hhi⟩
    apply hI.not_covers hb' hb hne hx
    simp only [Covers, hbig, Bool.false_eq_true, if_false]
    exact ⟨c, hentry, hlo, by omega⟩
  | true =>
    rw [free_of_big hI hb hbig]
    exact ⟨fun _ _ _ _ => rfl, rfl⟩

/-! ## `realloc` -/

lemma without_cons_of_ne (hne : ptr ≠ b.ptr) :
    without (b :: live) ptr = b :: without live ptr := by
  simp [without, hne.symm]

lemma Inv.copy {b' : Block} {n : ℕ} (hI : Inv h (b' :: live)) (hn : n ≤ b'.len) :
    Inv { h with memory := memcpy h.memory b'.ptr b.ptr n } (b' :: live) := by
  apply hI.write_block (.head _) (agreeOutside_memcpy _ b'.ptr b.ptr n)
  intro x hlo hhi
  exact hI.layout.covers_of_lt (.head _) hlo (by omega)

lemma Inv.free_old {b' : Block} (hI : Inv h (b' :: live)) (hb : b ∈ live) :
    Inv (Malloc.free b.ptr h) (b' :: without live b.ptr) ∧ b'.ptr ≠ b.ptr := by
  have hne := hI.head_ne hb
  have hfreed := hI.free (.tail b' hb)
  rw [without_cons_of_ne hne] at hfreed
  exact ⟨hfreed, hne.symm⟩

lemma Inv.resizeBig (hI : Inv h live) (hb : b ∈ live) (hbig : b.big = true)
    (hle : len ≤ 2 ^ 63) (hsame : b.pages = divRoundup len pageSize) :
    Inv { h with memory := write64 h.memory (b.ptr - pageSize + 8) len }
      (⟨b.ptr, len, true⟩ :: without live b.ptr) := by
  obtain ⟨p, hptr, howned, hlen, hle'⟩ := hI.layout.big_block b hb hbig
  obtain ⟨hpages, _⟩ := hI.contents.metadata b hb hbig
  obtain ⟨hI', p', hptr', hr, hu⟩ := hI.forgetBig hb hbig
  have hpos : 1 ≤ len := by
    have hpos := Layout.pages_pos hlen hle'
    rw [hsame, divRoundup_eq hle] at hpos
    omega
  have hwritten := hI'.write_unused hr hu (agreeOn_metadata (a := b.ptr - pageSize + 8)
    (Nat.le_add_left 1 _) (by omega) (by omega) h.memory len)
  apply hwritten.addBig (b := ⟨b.ptr, len, true⟩) hptr' rfl _ hr hu hpos hle
  · have hapart : b.ptr - pageSize + 8 ≤ b.ptr - pageSize + 8 := le_rfl
    rw [read64_write64_of_disjoint _ (.inl hapart), hpages, hsame]
    rfl
  · rw [read64_write64, Nat.mod_eq_of_lt (by omega)]
  · exact congrArg (· + 1) hsame

/-! ## The two ways of `realloc` -/

/-- A new block is taken, `n` bytes are copied to it, and the old block is
freed. -/
structure Moved (h h' : Heap) (b : Block) (len page ptr n : ℕ) (h₁ : Heap) : Prop where
  malloc_eq : malloc len page h = some (h₁, ptr)
  result_eq : h' = free b.ptr { h₁ with memory := memcpy h₁.memory ptr b.ptr n }
  le_len : n ≤ len
  min_le : min b.len len ≤ n
  covers : ∀ x, b.ptr ≤ x → x < b.ptr + n → Covers h.slabPages b x

lemma Inv.bigRealloc_cases (hI : Inv h live) (hb : b ∈ live) (hbig : b.big = true)
    (hle : len ≤ 2 ^ 63) (hcall : Malloc.bigRealloc b.ptr len page h = some (h', ptr)) :
    (ptr = b.ptr ∧ b.pages = divRoundup len pageSize ∧
      h' = { h with memory := write64 h.memory (b.ptr - pageSize + 8) len }) ∨
    ∃ h₁, Moved h h' b len page ptr (min b.len len) h₁ := by
  obtain ⟨_, hsize⟩ := hI.contents.metadata b hb hbig
  simp only [Malloc.bigRealloc, hsize] at hcall
  split at hcall
  · rename_i hsame
    cases hcall
    exact .inl ⟨rfl, hsame, rfl⟩
  · rw [Option.map_eq_some_iff] at hcall
    obtain ⟨⟨h₁, newPtr⟩, hmalloc, heq⟩ := hcall
    have hI₁ := hI.malloc hle hmalloc
    have hne := hI₁.ptr_ne_zero (.head _)
    obtain ⟨_, hsize₁⟩ := hI₁.contents.metadata b (.tail _ hb) hbig
    have hmin : (if b.len > len then len else b.len) = min b.len len := by
      split_ifs <;> omega
    simp only [if_neg hne, hsize₁, hmin] at heq
    cases heq
    refine .inr ⟨h₁, hmalloc, rfl, min_le_right _ _, le_rfl, ?_⟩
    intro x hlo hhi
    exact hI.layout.covers_of_lt hb hlo (by omega)

lemma Inv.realloc_cases (hI : Inv h live) (hb : b ∈ live) (hle : len ≤ 2 ^ 63)
    (hcall : Malloc.realloc b.ptr len page h = some (h', ptr)) :
    (ptr = b.ptr ∧ h'.slabPages = h.slabPages ∧ KeepsBlocks h.slabPages live h.memory h'.memory ∧
      Inv h' (⟨b.ptr, len, b.big⟩ :: without live b.ptr)) ∨
    ∃ n h₁, Moved h h' b len page ptr n h₁ := by
  rw [Malloc.realloc, if_neg (hI.ptr_ne_zero hb)] at hcall
  cases hbig : b.big with
  | true =>
    rw [if_pos (hI.big_page hb hbig).2] at hcall
    rcases hI.bigRealloc_cases hb hbig hle hcall with ⟨rfl, hsame, rfl⟩ | ⟨h₁, hmoved⟩
    · refine .inl ⟨rfl, rfl, ?_, hI.resizeBig hb hbig hle hsame⟩
      intro b' hb' x hx
      apply agreeOutside_write64
      rintro ⟨hlo, hhi⟩
      exact hI.layout.not_reserved hb' hx (.metadata b hb hbig (by omega) (by omega))
    · exact .inr ⟨_, h₁, hmoved⟩
  | false =>
    obtain ⟨c, hentry, hlen⟩ := hI.layout.slab_block b hb hbig
    obtain ⟨_, _, hoffset, hheader⟩ := hI.entry_header hentry
    simp only [if_neg hoffset, hheader] at hcall
    split at hcall
    · rename_i hgrow
      rw [Option.map_eq_some_iff] at hcall
      obtain ⟨⟨h₁, newPtr⟩, hmalloc, heq⟩ := hcall
      have hI₁ := hI.malloc hle hmalloc
      have hentry₁ := hentry.mono (hI.allocated_malloc hle hmalloc).subset
      have hcopied := hI₁.copy (b := b) hgrow.le
      simp only [(hI₁.entry_header hentry₁).2.2.2, (hcopied.entry_header hentry₁).2.2.2] at heq
      cases heq
      refine .inr ⟨entSize c, h₁, hmalloc, ?_, hgrow.le, (min_le_left _ _).trans hlen, ?_⟩
      · exact (free_of_entry hcopied hentry₁).symm
      · intro x hlo hhi
        simp only [Covers, hbig, Bool.false_eq_true, if_false]
        exact ⟨c, hentry, hlo, hhi⟩
    · cases hcall
      exact .inl ⟨rfl, rfl, fun _ _ _ _ => rfl, hI.resizeSlab hb hentry (by omega)⟩

lemma Inv.realloc (hI : Inv h live) (hb : b ∈ live) (hle : len ≤ 2 ^ 63)
    (hcall : Malloc.realloc b.ptr len page h = some (h', ptr)) :
    Inv h' (⟨ptr, len, if ptr = b.ptr then b.big else isBig len⟩ :: without live b.ptr) := by
  rcases hI.realloc_cases hb hle hcall with ⟨rfl, _, _, hstays⟩ | ⟨n, h₁, hmoved⟩
  · rw [if_pos rfl]
    exact hstays
  · obtain ⟨hfreed, hne⟩ := ((hI.malloc hle hmoved.malloc_eq).copy hmoved.le_len).free_old hb
    rw [if_neg hne, hmoved.result_eq]
    exact hfreed

end Cottage.Malloc
