import Cottage.Foundations.Records
import Cottage.Mem.HeapRealloc
import Cottage.Mem.HeapSizes

/-!
# Arrays in blocks of the heap

Code that keeps arrays in blocks of the heap and grows them with `realloc`,
among other code that uses the heap for its own blocks.  Each array has a block
of its own as long as nobody else frees it; what is known about the size of the
block is a relation between the array and the size that was last requested for
it.
-/

namespace Cottage.Malloc

open ByteMemory Mem

structure ArrayRef where
  ptr : ℕ
  count : ℕ
  deriving DecidableEq, Repr

structure ArrayState where
  heap : State
  arrays : Records ArrayRef

def noArrays (heap : Heap) : ArrayState where
  heap := ⟨heap, []⟩
  arrays := ⟨0, fun _ => ⟨0, 0⟩⟩

def Event.target : Event → ℕ
  | .malloc _ _ => 0
  | .realloc ptr _ _ => ptr
  | .free ptr => ptr
  | .store ptr _ _ => ptr

def ArrayState.other (s : ArrayState) (e : Event) : Option ArrayState :=
  if ∀ k < s.arrays.count, (s.arrays.get k).ptr = e.target → e.target = 0 then
    (step s.heap e).map fun heap => { s with heap := heap }
  else none

def State.reallocated (s : State) (ptr len : ℕ) (result : Heap × ℕ) : State :=
  ⟨result.1, ⟨result.2, len, if result.2 = ptr then s.live.any fun b => b.ptr = ptr && b.big
    else isBig len⟩ :: without s.live ptr⟩

/-- An array gets the block that `realloc` returns for its old one. -/
def ArrayState.resize (s : ArrayState) (k len page : ℕ) : Option ArrayState :=
  (realloc (s.arrays.get k).ptr len page s.heap.heap).map fun result =>
    { heap := s.heap.reallocated (s.arrays.get k).ptr len result
      arrays := s.arrays.set { s.arrays.get k with ptr := result.2 } k }

def ArrayState.write (s : ArrayState) (memory : Memory) : ArrayState :=
  { s with heap := { s.heap with heap := { s.heap.heap with memory := memory } } }

def ArrayState.setCount (s : ArrayState) (k count : ℕ) : ArrayState :=
  { s with arrays := s.arrays.set { s.arrays.get k with count := count } k }

variable {s t : State} {b : Block} {e : Event} {ptr len page : ℕ} {result : Heap × ℕ}

lemma without_subset (live : List Block) (ptr : ℕ) : without live ptr ⊆ live :=
  fun _ hb => (mem_without.mp hb).1

lemma KeepsBlocks.without {slabs : List (ℕ × ℕ)} {live : List Block} {m m' : Memory}
    (h : KeepsBlocks slabs live m m') (ptr : ℕ) :
    KeepsBlocks slabs (Malloc.without live ptr) m m' :=
  fun b hb => h b (without_subset _ _ hb)

lemma Inv.keeps_step (hI : Inv s.heap s.live) (hstep : Malloc.step s e = some t) :
    without s.live e.target ⊆ t.live ∧ s.heap.slabPages ⊆ t.heap.slabPages ∧
      KeepsBlocks s.heap.slabPages (without s.live e.target) s.heap.memory t.heap.memory := by
  cases e with
  | malloc len page =>
    simp only [Malloc.step, Option.ite_none_right_eq_some, Option.map_eq_some_iff] at hstep
    obtain ⟨hle, ⟨heap, ptr⟩, hcall, rfl⟩ := hstep
    have hallocated := hI.allocated_malloc hle hcall
    exact ⟨List.subset_cons_of_subset _ (without_subset _ _), hallocated.subset,
      hallocated.keeps.without _⟩
  | realloc ptr len page =>
    simp only [Malloc.step, Option.ite_none_right_eq_some] at hstep
    obtain ⟨hle, hstep⟩ := hstep
    split_ifs at hstep with hnull
    · obtain ⟨⟨heap, newPtr⟩, hcall, rfl⟩ := Option.map_eq_some_iff.mp hstep
      rw [Malloc.realloc, if_pos hnull] at hcall
      have hallocated := hI.allocated_malloc hle hcall
      exact ⟨List.subset_cons_of_subset _ (without_subset _ _), hallocated.subset,
        hallocated.keeps.without _⟩
    · obtain ⟨b, hfind, hstep⟩ := Option.bind_eq_some_iff.mp hstep
      obtain ⟨⟨heap, newPtr⟩, hcall, rfl⟩ := Option.map_eq_some_iff.mp hstep
      obtain rfl : b.ptr = ptr := by simpa using List.find?_some hfind
      have hb := List.mem_of_find?_eq_some hfind
      refine ⟨List.subset_cons_self _ _, ?_⟩
      rcases hI.realloc_cases hb hle hcall with ⟨_, hslabs, hkeep, _⟩ | ⟨n, h₁, hmoved⟩
      · exact ⟨hslabs ▸ List.Subset.refl _, hkeep.without _⟩
      · exact (hmoved.keepsBlocks hI hb hle).symm
  | free ptr =>
    simp only [Malloc.step, Option.ite_none_right_eq_some, Option.some.injEq] at hstep
    obtain ⟨hvalid, rfl⟩ := hstep
    rcases hvalid with rfl | ⟨b, hb, rfl⟩
    · rw [Malloc.free, if_pos rfl]
      exact ⟨List.Subset.refl _, List.Subset.refl _, fun _ _ _ _ => rfl⟩
    · obtain ⟨hkeep, hslabs⟩ := hI.keepsBlocks_free hb
      exact ⟨List.Subset.refl _, hslabs ▸ List.Subset.refl _, hkeep⟩
  | store ptr offset value =>
    simp only [Malloc.step, Option.bind_eq_some_iff, Option.ite_none_right_eq_some,
      Option.some.injEq] at hstep
    obtain ⟨b, hfind, hlt, rfl⟩ := hstep
    obtain rfl : b.ptr = ptr := by simpa using List.find?_some hfind
    have hb := List.mem_of_find?_eq_some hfind
    refine ⟨without_subset _ _, List.Subset.refl _,
      fun b' hb' x hx => (set_apply ..).trans (if_neg ?_)⟩
    obtain ⟨hb', hne⟩ := mem_without.mp hb'
    rintro rfl
    apply hI.not_covers hb' hb hne hx
    exact (hI.covers_iff hb).mpr ⟨Nat.le_add_right _ _, Nat.add_lt_add_left hlt _⟩

/-- A pointer that `realloc` takes. -/
def State.Takes (s : State) (ptr : ℕ) : Prop :=
  ptr = 0 ∨ ∃ b ∈ s.live, b.ptr = ptr

lemma Inv.reallocated (hI : Inv s.heap s.live) (hptr : s.Takes ptr) (hle : len ≤ 2 ^ 63)
    (hcall : Malloc.realloc ptr len page s.heap = some result) :
    Inv (s.reallocated ptr len result).heap (s.reallocated ptr len result).live := by
  obtain ⟨h', newPtr⟩ := result
  rcases hptr with rfl | ⟨b, hb, rfl⟩
  · rw [Malloc.realloc, if_pos rfl] at hcall
    have hI' := hI.malloc hle hcall
    have hne : newPtr ≠ 0 := hI'.ptr_ne_zero (.head _)
    simp only [State.reallocated, if_neg hne, without_eq_self fun b hb => hI.ptr_ne_zero hb]
    exact hI'
  · have hany : (s.live.any fun b' => b'.ptr = b.ptr && b'.big) = b.big := by
      rw [Bool.eq_iff_iff, List.any_eq_true]
      constructor
      · rintro ⟨b', hb', heq⟩
        simp only [Bool.and_eq_true, decide_eq_true_eq] at heq
        obtain rfl := hI.layout.ptr_inj hb' hb heq.1
        exact heq.2
      · intro hbig
        exact ⟨b, hb, by simp [hbig]⟩
    simp only [State.reallocated, hany]
    exact hI.realloc hb hle hcall

lemma Inv.dvd_usableAt (hI : Inv s.heap s.live) (hb : b ∈ s.live) :
    8 ∣ usableAt s.heap b.ptr := by
  rw [hI.usableAt_eq hb]
  cases hbig : b.big with
  | false =>
    obtain ⟨c, hentry, _⟩ := hI.layout.slab_block b hb hbig
    obtain ⟨hc, _, _, hheader⟩ := hI.entry_header hentry
    simp only [State.usable, hbig, Bool.false_eq_true, if_false, hheader]
    exact ⟨entSize c / 8, by rw [Nat.mul_comm, (entSize_spec c hc).2.1]⟩
  | true =>
    simp only [State.usable, hbig, if_true]
    exact Dvd.dvd.mul_left (by decide) _

lemma Inv.len_le (hI : Inv s.heap s.live) (hb : b ∈ s.live) : b.len ≤ 2 ^ 47 := by
  cases hbig : b.big with
  | false =>
    obtain ⟨c, hentry, hlen⟩ := hI.layout.slab_block b hb hbig
    have hsize : ∀ c, c < slabCount → entSize c ≤ 2 ^ 47 := by decide
    exact hlen.trans (hsize c (hI.entry_header hentry).1)
  | true =>
    obtain ⟨_, hle⟩ := hI.pages_le hb hbig
    obtain ⟨_, _, _, _, hlen⟩ := hI.layout.big_block b hb hbig
    rw [Block.pages, divRoundup_eq hlen] at hle
    omega

/-- Each array is null or has a live block of its own.  `P` relates it to the
size requested for the block, which is 0 for the null pointer. -/
structure Held (P : ArrayRef → ℕ → Prop) (s : ArrayState) : Prop where
  inv : Inv s.heap.heap s.heap.live
  null : ∀ k < s.arrays.count, (s.arrays.get k).ptr = 0 → P (s.arrays.get k) 0
  block : ∀ k < s.arrays.count, (s.arrays.get k).ptr ≠ 0 →
    ∃ b ∈ s.heap.live, b.ptr = (s.arrays.get k).ptr ∧ P (s.arrays.get k) b.len
  distinct : ∀ j < s.arrays.count, ∀ k < s.arrays.count, j ≠ k → (s.arrays.get j).ptr ≠ 0 →
    (s.arrays.get j).ptr ≠ (s.arrays.get k).ptr

namespace Held

variable {P : ArrayRef → ℕ → Prop} {s t : ArrayState} {k : ℕ}

section

variable (h : Held P s)

include h

lemma takes (hk : k < s.arrays.count) : s.heap.Takes (s.arrays.get k).ptr := by
  by_cases hzero : (s.arrays.get k).ptr = 0
  · exact .inl hzero
  · obtain ⟨b, hb, hptr, _⟩ := h.block k hk hzero
    exact .inr ⟨b, hb, hptr⟩

lemma other (hstep : s.other e = some t) : Held P t := by
  simp only [ArrayState.other, Option.ite_none_right_eq_some, Option.map_eq_some_iff] at hstep
  obtain ⟨hother, heap, hstep, rfl⟩ := hstep
  refine ⟨h.inv.step hstep, h.null, ?_, h.distinct⟩
  intro k hk hne
  obtain ⟨b, hb, hptr, hP⟩ := h.block k hk hne
  refine ⟨b, (h.inv.keeps_step hstep).1 (mem_without.mpr ⟨hb, ?_⟩), hptr, hP⟩
  intro heq
  have htarget := hptr.symm.trans heq
  exact hne (htarget.trans (hother k hk htarget))

lemma resize (hk : k < s.arrays.count) (hle : len ≤ 2 ^ 63)
    (hP : ∀ newPtr, P { s.arrays.get k with ptr := newPtr } len)
    (hcall : s.resize k len page = some t) : Held P t := by
  obtain ⟨⟨h', newPtr⟩, hrealloc, rfl⟩ := Option.map_eq_some_iff.mp hcall
  have hI' := h.inv.reallocated (h.takes hk) hle hrealloc
  have hold {j : ℕ} (hj : j < s.arrays.count) (hjk : j ≠ k) (hne : (s.arrays.get j).ptr ≠ 0) :
      ∃ b ∈ without s.heap.live (s.arrays.get k).ptr, b.ptr = (s.arrays.get j).ptr ∧
        P (s.arrays.get j) b.len := by
    obtain ⟨b, hb, hptr, hP'⟩ := h.block j hj hne
    exact ⟨b, mem_without.mpr ⟨hb, hptr ▸ h.distinct j hj k hk hjk hne⟩, hptr, hP'⟩
  have hfresh {j : ℕ} (hj : j < s.arrays.count) (hjk : j ≠ k) (hne : (s.arrays.get j).ptr ≠ 0) :
      (s.arrays.get j).ptr ≠ newPtr := by
    obtain ⟨b, hb, hptr, _⟩ := hold hj hjk hne
    exact hptr ▸ hI'.head_ne hb
  have hnew : newPtr ≠ 0 := hI'.ptr_ne_zero (.head _)
  refine ⟨hI', ?_, ?_, ?_⟩
  · intro j hj hzero
    by_cases hjk : j = k
    · subst hjk
      rw [Records.get_set_self] at hzero
      exact absurd hzero hnew
    · rw [Records.get_set_of_ne _ _ hjk] at hzero ⊢
      exact h.null j hj hzero
  · intro j hj hne
    by_cases hjk : j = k
    · subst hjk
      rw [Records.get_set_self]
      exact ⟨_, .head _, rfl, hP newPtr⟩
    · rw [Records.get_set_of_ne _ _ hjk] at hne ⊢
      obtain ⟨b, hb, hptr, hP'⟩ := hold hj hjk hne
      exact ⟨b, List.mem_cons_of_mem _ hb, hptr, hP'⟩
  · intro i hi j hj hij hne
    by_cases hik : i = k
    · subst hik
      rw [Records.get_set_self, Records.get_set_of_ne _ _ hij.symm]
      intro heq
      have hne' : (s.arrays.get j).ptr ≠ 0 := fun hzero => hnew (heq.trans hzero)
      exact hfresh hj hij.symm hne' heq.symm
    · rw [Records.get_set_of_ne _ _ hik] at hne ⊢
      by_cases hjk : j = k
      · subst hjk
        rw [Records.get_set_self]
        exact hfresh hi hik hne
      · rw [Records.get_set_of_ne _ _ hjk]
        exact h.distinct i hi j hj hij hne

lemma setCount {count : ℕ}
    (hnull : (s.arrays.get k).ptr = 0 → P (s.arrays.get k) 0 →
      P { s.arrays.get k with count := count } 0)
    (hblock : ∀ b ∈ s.heap.live, b.ptr = (s.arrays.get k).ptr → P (s.arrays.get k) b.len →
      P { s.arrays.get k with count := count } b.len) :
    Held P (s.setCount k count) := by
  have hself : (s.setCount k count).arrays.get k = { s.arrays.get k with count := count } :=
    Records.get_set_self _ _ _
  have hother {j : ℕ} (hjk : j ≠ k) : (s.setCount k count).arrays.get j = s.arrays.get j :=
    Records.get_set_of_ne _ _ hjk
  have hptr (j : ℕ) : ((s.setCount k count).arrays.get j).ptr = (s.arrays.get j).ptr := by
    by_cases hjk : j = k
    · rw [hjk, hself]
    · rw [hother hjk]
  refine ⟨h.inv, ?_, ?_, ?_⟩
  · intro j hj hzero
    rw [hptr] at hzero
    have hP := h.null j hj hzero
    by_cases hjk : j = k
    · subst hjk
      rw [hself]
      exact hnull hzero hP
    · rwa [hother hjk]
  · intro j hj hne
    rw [hptr] at hne ⊢
    obtain ⟨b, hb, heq, hP⟩ := h.block j hj hne
    refine ⟨b, hb, heq, ?_⟩
    by_cases hjk : j = k
    · subst hjk
      rw [hself]
      exact hblock b hb heq hP
    · rwa [hother hjk]
  · intro i hi j hj hij hne
    rw [hptr] at hne ⊢
    rw [hptr]
    exact h.distinct i hi j hj hij hne

lemma write {memory : Memory} {dest n : ℕ} (hk : k < s.arrays.count)
    (hne : (s.arrays.get k).ptr ≠ 0) (hagree : AgreeOutside s.heap.heap.memory memory dest n)
    (hlo : (s.arrays.get k).ptr ≤ dest)
    (hhi : dest + n ≤ (s.arrays.get k).ptr + usableAt s.heap.heap (s.arrays.get k).ptr) :
    Held P (s.write memory) := by
  obtain ⟨b, hb, hptr, _⟩ := h.block k hk hne
  refine ⟨?_, h.null, h.block, h.distinct⟩
  apply h.inv.write_block hb hagree
  intro x hlo' hhi'
  have husable : usableAt s.heap.heap b.ptr = s.heap.usable b := h.inv.usableAt_eq hb
  rw [← hptr, husable] at hhi
  exact (h.inv.covers_iff hb).mpr ⟨by omega, by omega⟩

lemma push {heap : State} {a : ArrayRef} (hI : Inv heap.heap heap.live)
    (hlive : s.heap.live ⊆ heap.live) (hnull : a.ptr = 0 → P a 0)
    (hblock : a.ptr ≠ 0 → ∃ b ∈ heap.live, b.ptr = a.ptr ∧ P a b.len)
    (hfresh : a.ptr ≠ 0 → ∀ b ∈ s.heap.live, b.ptr ≠ a.ptr) :
    Held P { heap := heap, arrays := s.arrays.alloc a } := by
  have hapart {k : ℕ} (hk : k < s.arrays.count) (hne : (s.arrays.get k).ptr ≠ 0) :
      (s.arrays.get k).ptr ≠ a.ptr := by
    obtain ⟨b, hb, hptr, _⟩ := h.block k hk hne
    intro heq
    exact hfresh (heq ▸ hne) b hb (hptr.trans heq)
  refine ⟨hI, ?_, ?_, ?_⟩
  · intro k hk hzero
    rcases s.arrays.get_alloc_cases a hk with ⟨_, heq⟩ | ⟨hlt, heq⟩
    · rw [heq] at hzero ⊢
      exact hnull hzero
    · rw [heq] at hzero ⊢
      exact h.null k hlt hzero
  · intro k hk hne
    rcases s.arrays.get_alloc_cases a hk with ⟨_, heq⟩ | ⟨hlt, heq⟩
    · rw [heq] at hne ⊢
      exact hblock hne
    · rw [heq] at hne ⊢
      obtain ⟨b, hb, hptr, hP⟩ := h.block k hlt hne
      exact ⟨b, hlive hb, hptr, hP⟩
  · intro j hj k hk hjk hne
    rcases s.arrays.get_alloc_cases a hj with ⟨rfl, heq⟩ | ⟨hlt, heq⟩
    · rcases s.arrays.get_alloc_cases a hk with ⟨rfl, _⟩ | ⟨hlt', heq'⟩
      · exact absurd rfl hjk
      · rw [heq] at hne ⊢
        rw [heq']
        intro hsame
        exact hapart hlt' (hsame ▸ hne) hsame.symm
    · rw [heq] at hne ⊢
      rcases s.arrays.get_alloc_cases a hk with ⟨_, heq'⟩ | ⟨hlt', heq'⟩
      · rw [heq']
        exact hapart hlt hne
      · rw [heq']
        exact h.distinct j hlt k hlt' hjk hne

end

lemma of_initial (hheap : Initial s.heap) (hcount : s.arrays.count = 0) : Held P s := by
  refine ⟨inv_of_initial hheap, ?_, ?_, ?_⟩
  · intro k hk
    omega
  · intro k hk
    omega
  · intro j hj
    omega

end Held

end Cottage.Malloc
