import Cottage.Mem.HeapSafety

/-!
# Requests of every size

`malloc` adds eight to the size before it looks for a slab, and `div_roundup`
adds almost a page before it divides.  Both sums wrap, for the last sizes below
`2 ^ 64`: then `malloc` serves a request for almost the whole address space
from the smallest slab, or takes one page for the metadata and none for the
data.
-/

namespace Cottage.Malloc

open ByteMemory LinkedList Mem Transition

variable {h h' : Heap} {live : List Block} {b : Block} {len page ptr : ℕ}

/-- The bytes of a block as the code finds them from its address. -/
def usableAt (h : Heap) (ptr : ℕ) : ℕ :=
  if pageOffset ptr = 0 then read64 h.memory (ptr - pageSize) * pageSize
  else entSize (read64 h.memory (pageBase ptr))

/-- A call that panics, returns null, or returns a block of at least `len`
bytes. -/
def Honoured (len : ℕ) (result : Option (Heap × ℕ)) : Prop :=
  ∀ h' ptr, result = some (h', ptr) → ptr = 0 ∨ len ≤ usableAt h' ptr

lemma honoured_none (len : ℕ) : Honoured len none :=
  fun _ _ hcall => by cases hcall

lemma Inv.usableAt_eq (hI : Inv h live) (hb : b ∈ live) :
    usableAt h b.ptr = State.usable ⟨h, live⟩ b := by
  cases hbig : b.big with
  | false =>
    obtain ⟨c, hentry, _⟩ := hI.layout.slab_block b hb hbig
    rw [usableAt, if_neg (hI.entry_header hentry).2.2.1]
    simp only [State.usable, hbig, Bool.false_eq_true, if_false]
  | true =>
    rw [usableAt, if_pos (hI.big_page hb hbig).2]
    simp only [State.usable, hbig, if_true]

lemma Inv.le_usableAt {big : Bool} (hI : Inv h' (⟨ptr, len, big⟩ :: live)) :
    len ≤ usableAt h' ptr := by
  have hroom := Inv.len_le_usable (s := ⟨h', _⟩) hI (.head _)
  rwa [← hI.usableAt_eq (.head _)] at hroom

lemma findSlab_eq_none {size : ℕ} (hsize : 1024 < size) : findSlab size = none := by
  rw [findSlab, List.find?_eq_none]
  intro i hi
  have hle : ∀ i ∈ List.range slabCount, entSize i ≤ 1024 := by decide
  have := hle i hi
  simp only [decide_eq_true_eq]
  omega

lemma pmmAlloc_eq_none {count : ℕ} (hcount : 2 ^ 47 < count * pageSize) :
    pmmAlloc page count h = none := by
  rw [pmmAlloc, if_neg]
  rintro ⟨⟨_, _, hend⟩, _⟩
  simp only [directMapSize] at hend
  omega

lemma malloc_eq_none (hlarge : 2 ^ 63 < len) (hle : len ≤ 2 ^ 64 - 4096) :
    malloc len page h = none := by
  have hsum : (8 + len) % 2 ^ 64 = 8 + len := Nat.mod_eq_of_lt (by omega)
  have hpages : divRoundup len pageSize = (len + 4095) / 4096 := by
    rw [divRoundup, pageSize, Nat.mod_eq_of_lt (by omega)]
  have hnone : pmmAlloc page (((len + 4095) / 4096 + 1) % 2 ^ 64) h = none := by
    apply pmmAlloc_eq_none
    rw [Nat.mod_eq_of_lt (by omega), pageSize]
    omega
  simp only [malloc, hsum, findSlab_eq_none (by omega : 1024 < 8 + len)]
  rw [bigMalloc, hpages, hnone]
  rfl

lemma Inv.pages_le (hI : Inv h live) (hb : b ∈ live) (hbig : b.big = true) :
    1 ≤ b.pages ∧ b.pages ≤ 2 ^ 35 := by
  obtain ⟨p, _, howned, hlen, hle⟩ := hI.layout.big_block b hb hbig
  have hend := (hI.layout.valid _ howned).2.2
  refine ⟨Layout.pages_pos hlen hle, ?_⟩
  simp only [directMapSize, pageSize] at hend
  omega

lemma Inv.realloc_eq_none (hI : Inv h live) (hb : b ∈ live) (hlarge : 2 ^ 63 < len)
    (hlt : len < 2 ^ 64) (hmalloc : Malloc.malloc len page h = none) :
    Malloc.realloc b.ptr len page h = none := by
  rw [Malloc.realloc, if_neg (hI.ptr_ne_zero hb)]
  cases hbig : b.big with
  | false =>
    obtain ⟨c, hentry, _⟩ := hI.layout.slab_block b hb hbig
    obtain ⟨hc, _, hoffset, hheader⟩ := hI.entry_header hentry
    have hsize : ∀ c, c < slabCount → entSize c ≤ 1024 := by decide
    have := hsize c hc
    simp only [if_neg hoffset, hheader]
    rw [if_pos (by omega), hmalloc]
    rfl
  | true =>
    obtain ⟨_, hsize⟩ := hI.contents.metadata b hb hbig
    obtain ⟨hpos, hle⟩ := hI.pages_le hb hbig
    have hne : b.pages ≠ divRoundup len pageSize := by
      intro heq
      rw [heq, divRoundup, pageSize] at hpos hle
      omega
    rw [if_pos (hI.big_page hb hbig).2, Malloc.bigRealloc]
    simp only [hsize]
    rw [← Block.pages, if_neg hne, hmalloc]
    rfl

lemma malloc_eq_slabAlloc (hlarge : 2 ^ 64 - 8 ≤ len) (hlt : len < 2 ^ 64) :
    malloc len page h = slabAlloc 0 page h := by
  have hsmall : (8 + len) % 2 ^ 64 ≤ entSize 0 := by
    simp only [entSize, entSizes, List.getD_cons_zero]
    omega
  have hfind : findSlab ((8 + len) % 2 ^ 64) = some 0 := by
    have hrange : List.range slabCount = 0 :: (List.range 9).map Nat.succ := by decide
    rw [findSlab, hrange, List.find?_cons_of_pos (by simpa using hsmall)]
  simp only [malloc, hfind]

def metadataOnly (len page : ℕ) (h : Heap) : Heap :=
  { h with memory := write64 (write64 h.memory (page + higherHalf) 0) (page + higherHalf + 8) len }

lemma malloc_eq_metadataOnly (hlarge : 2 ^ 64 - 4096 < len) (hlt : len < 2 ^ 64 - 8) :
    malloc len page h =
      (pmmAlloc page 1 h).map fun h => (metadataOnly len page h, page + higherHalf + pageSize) := by
  have hsum : (8 + len) % 2 ^ 64 = 8 + len := Nat.mod_eq_of_lt (by omega)
  have hpages : divRoundup len pageSize = 0 := by
    rw [divRoundup, pageSize]
    omega
  simp only [malloc, hsum, findSlab_eq_none (by omega : 1024 < 8 + len), bigMalloc, hpages]
  rfl

def FreshPage (h : Heap) (page : ℕ) : Prop :=
  (PageRun.mk page 1).Valid ∧ ∀ r ∈ h.owned, (PageRun.mk page 1).Apart r

instance (h : Heap) (page : ℕ) : Decidable (FreshPage h page) :=
  inferInstanceAs (Decidable (_ ∧ _))

lemma isSome_pmmAlloc_iff : (pmmAlloc page 1 h).isSome ↔ FreshPage h page := by
  rw [pmmAlloc]
  split_ifs with hpage
  · exact iff_of_true rfl hpage
  · exact iff_of_false (by simp) hpage

def CanServe (h : Heap) (page len : ℕ) : Prop :=
  FreshPage h page ∨ 2 ^ 64 - 8 ≤ len ∧ h.firstFree 0 ≠ 0

lemma isSome_malloc_iff (hlarge : 2 ^ 64 - 4096 < len) (hlt : len < 2 ^ 64) :
    (malloc len page h).isSome ↔ CanServe h page len := by
  by_cases hentry : 2 ^ 64 - 8 ≤ len
  · rw [malloc_eq_slabAlloc hentry hlt, slabAlloc, Option.isSome_map, CanServe]
    split_ifs with hempty
    · rw [initSlab, Option.isSome_map, isSome_pmmAlloc_iff]
      exact ⟨.inl, fun hserve => hserve.resolve_right fun hfirst => hfirst.2 hempty⟩
    · exact iff_of_true rfl (.inr ⟨hentry, hempty⟩)
  · rw [malloc_eq_metadataOnly hlarge (not_le.mp hentry), Option.isSome_map, isSome_pmmAlloc_iff]
    exact ⟨.inl, fun hserve => hserve.resolve_right fun hle => hentry hle.1⟩

lemma Inv.usableAt_of_wrap (hI : Inv h live) (hlarge : 2 ^ 64 - 4096 < len) (hlt : len < 2 ^ 64)
    (hcall : Malloc.malloc len page h = some (h', ptr)) : ptr ≠ 0 ∧ usableAt h' ptr ≤ 8 := by
  by_cases hentry : 2 ^ 64 - 8 ≤ len
  · rw [malloc_eq_slabAlloc hentry hlt] at hcall
    obtain ⟨hallocated, hentry⟩ := hI.allocated_slabAlloc (by decide) (Nat.zero_le _) hcall
    obtain ⟨_, hne, hoffset, hheader⟩ := hallocated.inv.entry_header hentry
    rw [usableAt, if_neg hoffset, hheader]
    exact ⟨hne, le_rfl⟩
  · rw [malloc_eq_metadataOnly hlarge (not_le.mp hentry), Option.map_eq_some_iff] at hcall
    obtain ⟨h₁, halloc, heq⟩ := hcall
    cases heq
    obtain ⟨⟨⟨k, hk⟩, _⟩, _⟩ := isSome_pmmAlloc_iff.mp (Option.isSome_of_eq_some halloc)
    have hoffset : pageOffset (page + higherHalf + pageSize) = 0 := by
      rw [pageOffset_eq]
      simp only [pageSize, higherHalf] at *
      omega
    have hread : read64 (metadataOnly len page h₁).memory (page + higherHalf) = 0 := by
      have hapart : page + higherHalf + 8 ≤ page + higherHalf + 8 := le_rfl
      simp only [metadataOnly]
      rw [read64_write64_of_disjoint _ (.inl hapart), read64_write64, Nat.zero_mod]
    rw [usableAt, if_pos hoffset, Nat.add_sub_cancel, hread, Nat.zero_mul]
    exact ⟨Nat.ne_of_gt (Nat.lt_add_left _ (by decide)), Nat.zero_le 8⟩

/-! ## All sizes -/

lemma Inv.honoured_of_le (hI : Inv h live) (hle : len ≤ 2 ^ 64 - 4096) (page : ℕ) :
    Honoured len (Malloc.malloc len page h) ∧
      ∀ b ∈ live, Honoured len (Malloc.realloc b.ptr len page h) := by
  by_cases hsmall : len ≤ 2 ^ 63
  · refine ⟨?_, ?_⟩
    · intro h' ptr hcall
      exact .inr (hI.malloc hsmall hcall).le_usableAt
    · intro b hb h' ptr hcall
      exact .inr (hI.realloc hb hsmall hcall).le_usableAt
  · have hlarge := not_le.mp hsmall
    have hnone : Malloc.malloc len page h = none := malloc_eq_none hlarge hle
    refine ⟨hnone ▸ honoured_none len, ?_⟩
    intro b hb
    rw [hI.realloc_eq_none hb hlarge (by omega) hnone]
    exact honoured_none len

/-- A block has the bytes that were asked for, up to sizes that wrap when they
are rounded. -/
theorem requests_honoured_iff {s : State} {len : ℕ} (hreach : system.Reachable s)
    (hlt : len < 2 ^ 64) (page : ℕ) :
    (Honoured len (malloc len page s.heap) ∧
      ∀ b ∈ s.live, Honoured len (realloc b.ptr len page s.heap)) ↔
    len ≤ 2 ^ 64 - 4096 ∨ ¬ CanServe s.heap page len := by
  have hI := inv_of_reachable hreach
  by_cases hle : len ≤ 2 ^ 64 - 4096
  · exact iff_of_true (hI.honoured_of_le hle page) (.inl hle)
  have hlarge := not_le.mp hle
  by_cases hserve : CanServe s.heap page len
  · refine iff_of_false ?_ (not_or.mpr ⟨hle, not_not.mpr hserve⟩)
    rintro ⟨hhonoured, _⟩
    obtain ⟨⟨h', ptr⟩, hcall⟩ :=
      Option.isSome_iff_exists.mp ((isSome_malloc_iff hlarge hlt).mpr hserve)
    obtain ⟨hne, hfew⟩ := hI.usableAt_of_wrap hlarge hlt hcall
    rcases hhonoured h' ptr hcall with hzero | hroom
    · exact hne hzero
    · omega
  · have hnone : malloc len page s.heap = none := by
      by_contra hsome
      exact hserve ((isSome_malloc_iff hlarge hlt).mp (Option.isSome_iff_ne_none.mpr hsome))
    refine iff_of_true ⟨hnone ▸ honoured_none len, ?_⟩ (.inr hserve)
    intro b hb
    rw [hI.realloc_eq_none hb (by omega) hlt hnone]
    exact honoured_none len

theorem requests_honoured_iff_initial :
    ∃ s, system.Reachable s ∧ s.heap.firstFree 0 ≠ 0 ∧
      Honoured (2 ^ 64 - 4096) (malloc (2 ^ 64 - 4096) 0xB000 s.heap) := by
  obtain ⟨heap, hinit, hfirst⟩ := exists_initial_of_bootHeap_any
    (fun heap => heap.firstFree 0 ≠ 0) (by decide +kernel)
  have hreach : system.Reachable ⟨heap, []⟩ := .init hinit
  refine ⟨⟨heap, []⟩, hreach, of_decide_eq_true hfirst, ?_⟩
  exact ((requests_honoured_iff hreach (by decide) 0xB000).mpr (.inl le_rfl)).1

theorem requests_not_honoured :
    ∃ s, system.Reachable s ∧
      (∃ h' ptr, malloc (2 ^ 64 - 1) 0xB000 s.heap = some (h', ptr) ∧ ptr ≠ 0 ∧
        usableAt h' ptr ≤ 8) ∧
      ∃ h' ptr, malloc (2 ^ 64 - 4095) 0xB000 s.heap = some (h', ptr) ∧ ptr ≠ 0 ∧
        usableAt h' ptr ≤ 8 := by
  obtain ⟨heap, hinit, hpage⟩ := exists_initial_of_bootHeap_any
    (fun heap => FreshPage heap 0xB000) (by decide +kernel)
  have hI : Inv heap [] := inv_of_initial hinit
  have hsmall {len : ℕ} (hlarge : 2 ^ 64 - 4096 < len) (hlt : len < 2 ^ 64) :
      ∃ h' ptr, malloc len 0xB000 heap = some (h', ptr) ∧ ptr ≠ 0 ∧ usableAt h' ptr ≤ 8 := by
    have hsome := (isSome_malloc_iff hlarge hlt).mpr (.inl (of_decide_eq_true hpage))
    obtain ⟨⟨h', ptr⟩, hcall⟩ := Option.isSome_iff_exists.mp hsome
    exact ⟨h', ptr, hcall, hI.usableAt_of_wrap hlarge hlt hcall⟩
  exact ⟨⟨heap, []⟩, .init hinit, hsmall (by decide) (by decide), hsmall (by decide) (by decide)⟩

end Cottage.Malloc
