import Cottage.Mem.HeapInvariant

/-!
# The heap keeps its invariant

Each function of the allocators is one of the moves of the invariant, after a
change of memory inside a block or inside a run that is not in use.
-/

namespace Cottage.Malloc

open ByteMemory LinkedList Mem Function

variable {h h' : Heap} {live : List Block} {b : Block} {c i k len page ptr : ℕ}

lemma Inv.pmmAlloc {count : ℕ} (hI : Inv h live) (hcount : 1 ≤ count)
    (hcall : pmmAlloc page count h = some h') :
    Inv h' live ∧ ⟨page, count⟩ ∈ h'.owned ∧ Unused h'.slabPages live ⟨page, count⟩ ∧
      h'.firstFree = h.firstFree := by
  rw [Malloc.pmmAlloc] at hcall
  split at hcall
  · rename_i hanswer
    obtain ⟨hvalid, hapart⟩ := hanswer
    cases hcall
    obtain ⟨hI', hu⟩ := hI.addRun hcount hvalid hapart
    refine ⟨?_, .head _, hu, rfl⟩
    exact hI'.write_unused (.head _) hu (agreeOutside_memset _ _ _ _)
  · cases hcall

def slabMemory (page i : ℕ) (m : Memory) : Memory :=
  write64 (linkCells (entAddr page i) (write64 m (page + higherHalf) i) (entries i - 1))
    (entAddr page i (entries i - 1)) 0

lemma initSlab_eq (hi : i < slabCount) :
    initSlab i page h = (pmmAlloc page 1 h).map fun h =>
      { h with
        memory := slabMemory page i h.memory
        firstFree := update h.firstFree i (entAddr page i 0)
        slabPages := (page, i) :: h.slabPages } := by
  obtain ⟨_, hfact, halign, _⟩ := entSize_spec i hi
  have hfirst : page + higherHalf + entSize i = entAddr page i 0 := by
    rw [entAddr, Nat.zero_add, Nat.mul_one]
  have haddr (k : ℕ) : entAddr page i 0 + k * (entSize i / 8) * 8 = entAddr page i k := by
    rw [Nat.mul_assoc, hfact, ← hfirst, entAddr, Nat.mul_succ, Nat.mul_comm]
    omega
  simp only [initSlab, halign, hfirst, haddr]
  rfl

lemma entry_in_page (page : ℕ) (hi : i < slabCount) (hk : k < entries i) :
    page + higherHalf + 8 ≤ entAddr page i k ∧
      entAddr page i k + 8 ≤ page + higherHalf + pageSize := by
  obtain ⟨hend, hsize, hfirst⟩ := entry_bounds hi hk
  simp only [entAddr]
  omega

lemma agreeOn_slabMemory (hi : i < slabCount) (m : Memory) :
    AgreeOn m (slabMemory page i m) fun x => ¬ PageRun.Has ⟨page, 1⟩ x := by
  obtain ⟨_, _, _, hentries⟩ := entSize_spec i hi
  have hheader : AgreeOn m (write64 m (page + higherHalf) i)
      fun x => ¬ PageRun.Has ⟨page, 1⟩ x := by
    apply (agreeOutside_write64 _ _ _).mono
    simp only [PageRun.Has, pageSize]
    omega
  have hentry (x : ℕ) (hx : ¬ PageRun.Has ⟨page, 1⟩ x) (k : ℕ) (hk : k < entries i) :
      ¬ (entAddr page i k ≤ x ∧ x < entAddr page i k + 8) := by
    have := entry_in_page page hi hk
    simp only [PageRun.Has] at hx
    omega
  apply (hheader.trans (agreeOn_linkCells _ _)).trans
  · apply (agreeOutside_write64 _ _ _).mono
    intro x hx
    exact hentry x hx _ (by omega)
  · intro x hx k hk
    exact hentry x hx k (by omega)

lemma read64_slabMemory_header (hi : i < slabCount) (m : Memory) :
    read64 (slabMemory page i m) (page + higherHalf) = i := by
  obtain ⟨_, _, _, hentries⟩ := entSize_spec i hi
  have hlast := entry_in_page page hi (show entries i - 1 < entries i by omega)
  rw [slabMemory, read64_write64_of_disjoint _ (.inl hlast.1)]
  have hlinks : read64 (linkCells (entAddr page i) (write64 m (page + higherHalf) i)
      (entries i - 1)) (page + higherHalf) = read64 (write64 m (page + higherHalf) i)
        (page + higherHalf) := by
    apply read64_congr
    apply agreeOn_linkCells
    intro x hx k hk
    have := entry_in_page page hi (show k < entries i by omega)
    omega
  rw [hlinks, read64_write64, Nat.mod_eq_of_lt]
  simp only [slabCount] at hi
  omega

lemma chain_slabMemory (hi : i < slabCount) (hvalid : PageRun.Valid ⟨page, 1⟩) (m : Memory) :
    Chain (slabMemory page i m) (entAddr page i 0)
      ((List.range (entries i)).map (entAddr page i)) := by
  obtain ⟨hsize, _, _, hentries⟩ := entSize_spec i hi
  have hspace (k k' : ℕ) (hlt : k < k') : entAddr page i k + 8 ≤ entAddr page i k' := by
    have := entry_spacing (c := i) hlt
    simp only [entAddr]
    omega
  have hlt (k : ℕ) (hk : k ≤ entries i - 1) : entAddr page i k < 2 ^ 64 := by
    have := entry_in_page page hi (show k < entries i by omega)
    have hend := hvalid.2.2
    simp only [directMapSize, higherHalf] at *
    omega
  have hcount : entries i - 1 + 1 = entries i := by omega
  rw [← hcount]
  apply chain_of_links
  · intro k hk
    have := entry_in_page page hi (show k < entries i by omega)
    omega
  · intro k hk
    rw [slabMemory, read64_write64_of_disjoint _ (.inl (hspace k _ hk))]
    exact read64_linkCells hspace hlt hk
  · rw [slabMemory, read64_write64, Nat.zero_mod]

lemma Inv.initSlab (hI : Inv h live) (hi : i < slabCount) (hempty : h.firstFree i = 0)
    (hcall : initSlab i page h = some h') :
    Inv h' live ∧ h'.firstFree i ≠ 0 ∧ ∀ j, j ≠ i → h'.firstFree j = h.firstFree j := by
  rw [initSlab_eq hi, Option.map_eq_some_iff] at hcall
  obtain ⟨h₁, halloc, rfl⟩ := hcall
  obtain ⟨hI₁, hr, hu, hfree⟩ := hI.pmmAlloc le_rfl halloc
  have hmemory := hI₁.write_unused hr hu (agreeOn_slabMemory hi h₁.memory)
  refine ⟨?_, ?_, ?_⟩
  · apply hmemory.addSlab hi _ hr hu (read64_slabMemory_header hi _)
    · exact chain_slabMemory hi (hI₁.layout.valid _ hr) _
    · exact hfree ▸ hempty
  · obtain ⟨_, _, _, hentries⟩ := entSize_spec i hi
    have := entry_in_page page hi hentries
    simp only [update_self]
    omega
  · intro j hj
    rw [← hfree]
    exact update_of_ne hj _ _

lemma findSlab_some {size : ℕ} (hfind : findSlab size = some i) :
    i < slabCount ∧ size ≤ entSize i := by
  refine ⟨List.mem_range.mp (List.mem_of_find?_eq_some hfind), ?_⟩
  simpa using List.find?_some hfind

lemma findSlab_none {size : ℕ} (hfind : findSlab size = none) : 1024 < size := by
  have hlast := List.find?_eq_none.mp hfind 9 (by decide)
  simpa [entSize, entSizes] using hlast

lemma agreeOn_metadata {p n a : ℕ} (hn : 1 ≤ n) (hlo : p + higherHalf ≤ a)
    (hhi : a ≤ p + higherHalf + 8) (m : Memory) (v : ℕ) :
    AgreeOn m (write64 m a v) fun x => ¬ PageRun.Has ⟨p, n⟩ x := by
  apply (agreeOutside_write64 m a v).mono
  simp only [PageRun.Has, pageSize] at *
  omega

section

variable (hI : Inv h live)

include hI

lemma Inv.entry_header (hentry : IsEntry h.slabPages c ptr) :
    c < slabCount ∧ ptr ≠ 0 ∧ pageOffset ptr ≠ 0 ∧ read64 h.memory (pageBase ptr) = c := by
  obtain ⟨p, i, hp, hi, rfl⟩ := hentry
  obtain ⟨hlt, hoffset, hpage⟩ := hI.layout.entry_page hp hi
  refine ⟨(hI.layout.slab_owned p c hp).2, ?_, ?_, ?_⟩
  · simp only [entAddr, higherHalf]
    omega
  · rw [pageOffset_eq]
    exact hoffset
  · rw [pageBase_eq hlt, hpage]
    exact hI.contents.header p c hp

lemma Inv.big_page (hb : b ∈ live) (hbig : b.big = true) : b.ptr ≠ 0 ∧ pageOffset b.ptr = 0 := by
  obtain ⟨p, hptr, howned, _⟩ := hI.layout.big_block b hb hbig
  obtain ⟨k, hk⟩ := (hI.layout.valid _ howned).1
  rw [pageOffset_eq]
  simp only [pageSize, higherHalf] at *
  omega

lemma Inv.slabFree (hb : b ∈ live) (hentry : IsEntry h.slabPages c b.ptr) :
    Inv (slabFree c b.ptr h) (without live b.ptr) := by
  obtain ⟨hc, hne, _, _⟩ := hI.entry_header hentry
  have hsize := (entSize_spec c hc).1
  have hslab : b.big = false := by
    by_contra hbig
    exact hI.layout.big_ne_entry hb (by simpa using hbig) hentry rfl
  have hmemory := hI.write_block hb (agreeOutside_write64 _ b.ptr (h.firstFree c)) (by
    intro x hlo hhi
    simp only [Covers, hslab, Bool.false_eq_true, if_false]
    exact ⟨c, hentry, hlo, by omega⟩)
  rw [Malloc.slabFree, if_neg hne]
  apply hmemory.push hc hb hentry
  rw [read64_write64, Nat.mod_eq_of_lt (hI.firstFree_lt hc)]

lemma Inv.bigFree (hb : b ∈ live) (hbig : b.big = true) :
    Inv (bigFree b.ptr h) (without live b.ptr) := by
  obtain ⟨hpages, _⟩ := hI.contents.metadata b hb hbig
  obtain ⟨hI', p, hptr, howned, hu⟩ := hI.forgetBig hb hbig
  have hpage : b.ptr - pageSize - higherHalf = p := by omega
  rw [Malloc.bigFree, hpages, hpage]
  exact hI'.dropRun hu

lemma free_of_entry (hentry : IsEntry h.slabPages c ptr) : free ptr h = slabFree c ptr h := by
  obtain ⟨_, hne, hoffset, hheader⟩ := hI.entry_header hentry
  rw [free, if_neg hne, if_neg hoffset, hheader]

lemma free_of_big (hb : b ∈ live) (hbig : b.big = true) : free b.ptr h = bigFree b.ptr h := by
  obtain ⟨hne, hoffset⟩ := hI.big_page hb hbig
  rw [free, if_neg hne, if_pos hoffset]

lemma Inv.free (hb : b ∈ live) : Inv (free b.ptr h) (without live b.ptr) := by
  cases hbig : b.big with
  | false =>
    obtain ⟨c, hentry, _⟩ := hI.layout.slab_block b hb hbig
    rw [free_of_entry hI hentry]
    exact hI.slabFree hb hentry
  | true =>
    rw [free_of_big hI hb hbig]
    exact hI.bigFree hb hbig

end

lemma Inv.head_ne {b' : Block} (hI : Inv h (b' :: live)) (hb : b ∈ live) : b.ptr ≠ b'.ptr := by
  intro heq
  have hnodup := hI.layout.nodup
  rw [List.map_cons, List.nodup_cons] at hnodup
  exact hnodup.1 (heq ▸ List.mem_map_of_mem hb)

lemma Inv.ptr_ne_zero (hI : Inv h live) (hb : b ∈ live) : b.ptr ≠ 0 := by
  cases hbig : b.big with
  | false =>
    obtain ⟨c, hentry, _⟩ := hI.layout.slab_block b hb hbig
    exact (hI.entry_header hentry).2.1
  | true => exact (hI.big_page hb hbig).1

end Cottage.Malloc
