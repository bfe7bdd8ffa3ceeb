import Cottage.Foundations.Transition
import Cottage.Mem.Pmm
import Mathlib.Order.Interval.Finset.Nat

/-!
# Consistency of the page allocator

What a successful search finds, and from it the invariant of the allocator
over any sequence of allocations and of frees of live blocks: the clear bits
are the free pages that no live block covers, and their number is
`free_pages`.
-/

namespace Cottage.Mem

open ByteMemory Transition

def ClearRun (bitmap : Bitmap) (page count : ℕ) : Prop :=
  ∀ i, page ≤ i → i < page + count → bitmapTestbit bitmap i = false

variable {page count : ℕ} {s t : Pmm}

lemma ClearRun.ptr_ne_zero {bitmap : Bitmap} (hrun : ClearRun bitmap page count)
    (hcount : 0 < count) (hzero : bitmapTestbit bitmap 0 = true) : page * pageSize ≠ 0 := by
  intro hnull
  obtain rfl : page = 0 := by
    rcases Nat.mul_eq_zero.mp hnull with h | h
    · exact h
    · cases h
  have hclear := hrun 0 le_rfl (by omega)
  rw [hzero] at hclear
  cases hclear

def Pmm.take (s : Pmm) (page count : ℕ) : Pmm :=
  { s with bitmap := setRange s.bitmap page count, lastUsedIndex := page + count }

lemma innerAllocLoop_spec {limit : ℕ} (fuel p : ℕ) (s : Pmm)
    (hfuel : limit - s.lastUsedIndex ≤ fuel) (hp : p < count) (hple : p ≤ s.lastUsedIndex)
    (hclear : ClearRun s.bitmap (s.lastUsedIndex - p) p) :
    (∃ page, s.lastUsedIndex - p ≤ page ∧ page + count ≤ limit ∧ ClearRun s.bitmap page count ∧
      innerAllocLoop count limit fuel p s = (s.take page count, page * pageSize)) ∨
    (∀ page, s.lastUsedIndex - p ≤ page → page + count ≤ limit →
      ¬ ClearRun s.bitmap page count) ∧ ∃ index, index ≤ max s.lastUsedIndex limit ∧
        innerAllocLoop count limit fuel p s = ({ s with lastUsedIndex := index }, 0) := by
  induction fuel generalizing p s with
  | zero => exact .inr ⟨fun page hlo hend => by omega, s.lastUsedIndex, le_max_left _ _, rfl⟩
  | succ fuel ih =>
    rw [innerAllocLoop]
    by_cases hlimit : s.lastUsedIndex < limit
    · rw [if_pos hlimit]
      have hmax : max (s.lastUsedIndex + 1) limit ≤ max s.lastUsedIndex limit := by omega
      cases htest : bitmapTestbit s.bitmap s.lastUsedIndex with
      | false =>
        have hrun : ClearRun s.bitmap (s.lastUsedIndex - p) (p + 1) := by
          intro i hlo hhi
          by_cases hi : i = s.lastUsedIndex
          · rw [hi, htest]
          · apply hclear i hlo
            omega
        simp only [Bool.not_false, if_true]
        by_cases hcount : p + 1 = count
        · rw [if_pos hcount]
          subst hcount
          have hpage : s.lastUsedIndex + 1 - (p + 1) = s.lastUsedIndex - p := by omega
          refine .inl ⟨s.lastUsedIndex - p, le_rfl, by omega, hrun, ?_⟩
          rw [hpage, Pmm.take]
          congr 2
          omega
        · rw [if_neg hcount]
          have hnext := ih (p + 1) { s with lastUsedIndex := s.lastUsedIndex + 1 }
            (by dsimp only; omega) (by omega) (Nat.succ_le_succ hple) (by simpa using hrun)
          simp only [Nat.add_sub_add_right] at hnext
          exact hnext.imp_right fun ⟨hnone, index, hindex, heq⟩ =>
            ⟨hnone, index, hindex.trans hmax, heq⟩
      | true =>
        have hnext := ih 0 { s with lastUsedIndex := s.lastUsedIndex + 1 } (by dsimp only; omega)
          (by omega) (Nat.zero_le _) (by intro i hlo hhi; omega)
        rcases hnext with ⟨page, hlo, hend, hpage, heq⟩ | ⟨hnone, index, hindex, heq⟩
        · dsimp only at hlo
          exact .inl ⟨page, by omega, hend, hpage, heq⟩
        · refine .inr ⟨fun page hlo hend hrun => ?_, index, hindex.trans hmax, heq⟩
          by_cases hle : page ≤ s.lastUsedIndex
          · exact absurd (hrun _ hle (by omega)) (by simp [htest])
          · exact hnone page (by dsimp only; omega) hend hrun
    · rw [if_neg hlimit]
      exact .inr ⟨fun page hlo hend => by omega, s.lastUsedIndex, le_max_left _ _, rfl⟩

lemma innerAlloc_spec (limit : ℕ) (s : Pmm) (hcount : 0 < count) :
    (∃ page, s.lastUsedIndex ≤ page ∧ page + count ≤ limit ∧ ClearRun s.bitmap page count ∧
      innerAlloc count limit s = (s.take page count, page * pageSize)) ∨
    (∀ page, s.lastUsedIndex ≤ page → page + count ≤ limit → ¬ ClearRun s.bitmap page count) ∧
      ∃ index, index ≤ max s.lastUsedIndex limit ∧
        innerAlloc count limit s = ({ s with lastUsedIndex := index }, 0) := by
  apply innerAllocLoop_spec (limit - s.lastUsedIndex) 0 s le_rfl
  · exact hcount
  · exact Nat.zero_le _
  · intro i hlo hhi
    omega

section

variable (hcount : 0 < count) (hcursor : s.lastUsedIndex ≤ s.pageCount)
  (hzero : 0 < s.pageCount → bitmapTestbit s.bitmap 0 = true)

include hcount hcursor hzero

lemma pmmSearch_spec {ret : ℕ} (hsearch : pmmSearch count s = (t, ret)) (hret : ret ≠ 0) :
    ∃ page, page + count ≤ s.pageCount ∧ ClearRun s.bitmap page count ∧
      t = s.take page count ∧ ret = page * pageSize := by
  rw [pmmSearch] at hsearch
  rcases innerAlloc_spec s.pageCount s hcount with
    ⟨page, _, hend, hrun, heq⟩ | ⟨_, index, hindex, heq⟩
  · have hne := hrun.ptr_ne_zero hcount (hzero (by omega))
    simp only [heq, if_neg hne, Prod.mk.injEq] at hsearch
    exact ⟨page, hend, hrun, hsearch.1.symm, hsearch.2.symm⟩
  · simp only [heq, if_true] at hsearch
    rcases innerAlloc_spec s.lastUsedIndex { s with lastUsedIndex := 0 } hcount with
      ⟨page, _, hend, hrun, heq'⟩ | ⟨_, index', hindex', heq'⟩
    · rw [heq', Prod.mk.injEq] at hsearch
      exact ⟨page, hend.trans hcursor, hrun, hsearch.1.symm, hsearch.2.symm⟩
    · rw [heq', Prod.mk.injEq] at hsearch
      exact absurd hsearch.2.symm hret

lemma pmmAlloc_spec {ret : ℕ} (halloc : pmmAlloc count s = some (t, ret)) :
    ∃ page, page + count ≤ s.pageCount ∧ ClearRun s.bitmap page count ∧
      ret = page * pageSize ∧ t.bitmap = setRange s.bitmap page count ∧
      t.freePages = (s.freePages + 2 ^ 64 - count) % 2 ^ 64 ∧
      t.lastUsedIndex = page + count ∧ t.pageCount = s.pageCount := by
  rw [pmmAlloc] at halloc
  cases hsearch : pmmSearch count s with
  | mk found ret' =>
    simp only [hsearch] at halloc
    split_ifs at halloc with hnull
    obtain ⟨rfl, rfl⟩ := Prod.mk.injEq .. ▸ Option.some.inj halloc
    obtain ⟨page, hend, hrun, rfl, hret⟩ := pmmSearch_spec hcount hcursor hzero hsearch hnull
    exact ⟨page, hend, hrun, hret, rfl, rfl, rfl, rfl⟩

end

def Pmm.clearPages (s : Pmm) : Finset ℕ :=
  (Finset.range s.pageCount).filter fun i => bitmapTestbit s.bitmap i = false

lemma mem_clearPages {i : ℕ} :
    i ∈ s.clearPages ↔ i < s.pageCount ∧ bitmapTestbit s.bitmap i = false := by
  rw [Pmm.clearPages, Finset.mem_filter, Finset.mem_range]

lemma clearPages_of_setRange (hpages : t.pageCount = s.pageCount)
    (hbitmap : t.bitmap = setRange s.bitmap page count) :
    t.clearPages = s.clearPages \ Finset.Ico page (page + count) := by
  ext i
  rw [mem_clearPages, hpages, hbitmap, bitmapTestbit_setRange, Finset.mem_sdiff, mem_clearPages,
    Finset.mem_Ico, Bool.or_eq_false_iff, decide_eq_false_iff_not]
  tauto

lemma clearPages_of_resetRange (hpages : t.pageCount = s.pageCount)
    (hbitmap : t.bitmap = resetRange s.bitmap page count) (hend : page + count ≤ s.pageCount) :
    t.clearPages = s.clearPages ∪ Finset.Ico page (page + count) := by
  ext i
  rw [mem_clearPages, hpages, hbitmap, bitmapTestbit_resetRange, Finset.mem_union,
    mem_clearPages, Finset.mem_Ico, Bool.and_eq_false_iff, Bool.not_eq_false',
    decide_eq_true_eq]
  constructor
  · tauto
  · rintro (h | h)
    · exact ⟨h.1, .inr h.2⟩
    · exact ⟨by omega, .inl h⟩

/-! ## Sequences of allocations and frees -/

structure PageBlock where
  ptr : ℕ
  count : ℕ
  deriving DecidableEq, Repr

def PageBlock.pages (b : PageBlock) : Finset ℕ :=
  Finset.Ico (b.ptr / pageSize) (b.ptr / pageSize + b.count)

structure PmmState where
  pmm : Pmm
  live : List PageBlock

inductive PmmEvent
  | alloc (count : ℕ)
  | free (b : PageBlock)
  deriving DecidableEq, Repr

/-- `pmm_alloc` of at least one page that does not panic, and `pmm_free` of a
live block with the count it was allocated with. -/
def pmmStep (s : PmmState) : PmmEvent → Option PmmState
  | .alloc count =>
    if 1 ≤ count then
      (pmmAlloc count s.pmm).map fun (pmm, ret) => ⟨pmm, ⟨ret, count⟩ :: s.live⟩
    else none
  | .free b =>
    if b ∈ s.live then some ⟨pmmFree b.ptr b.count s.pmm, s.live.erase b⟩ else none

/-- The clear bits of the bitmap are the pages of `F`, page 0 not among them.
Page numbers are those of 64-bit addresses. -/
structure PmmInitial (F : Finset ℕ) (s : PmmState) : Prop where
  pageCount_le : s.pmm.pageCount ≤ 2 ^ 52
  clearPages_eq : s.pmm.clearPages = F
  zero_notMem : 0 ∉ F
  freePages_eq : s.pmm.freePages = F.card
  cursor_le : s.pmm.lastUsedIndex ≤ s.pmm.pageCount
  live_eq : s.live = []

def pmmSystem (F : Finset ℕ) : System PmmState PmmEvent where
  init := PmmInitial F
  step := pmmStep

structure PmmConsistent (F : Finset ℕ) (s : PmmState) : Prop where
  disjoint : s.live.Pairwise fun b c => Disjoint b.pages c.pages
  subset : ∀ b ∈ s.live, b.pages ⊆ F
  aligned : ∀ b ∈ s.live, pageSize ∣ b.ptr ∧ 1 ≤ b.count
  clear_iff : ∀ i, i ∈ s.pmm.clearPages ↔ i ∈ F ∧ ∀ b ∈ s.live, i ∉ b.pages
  freePages_eq : s.pmm.freePages = s.pmm.clearPages.card
  cursor_le : s.pmm.lastUsedIndex ≤ s.pmm.pageCount

structure PmmInv (F : Finset ℕ) (s : PmmState) : Prop extends PmmConsistent F s where
  pageCount_le : s.pmm.pageCount ≤ 2 ^ 52
  bounded : F ⊆ Finset.range s.pmm.pageCount
  zero_notMem : 0 ∉ F

lemma PageBlock.pages_mk (page count : ℕ) :
    PageBlock.pages ⟨page * pageSize, count⟩ = Finset.Ico page (page + count) := by
  rw [PageBlock.pages, Nat.mul_div_cancel _ (by decide)]

namespace PmmInv

variable {F : Finset ℕ} {s t : PmmState}

section

variable (h : PmmInv F s)

include h

lemma card_clearPages_lt : s.pmm.clearPages.card < 2 ^ 64 := by
  have hle : s.pmm.clearPages.card ≤ s.pmm.pageCount := by
    rw [Pmm.clearPages]
    exact (Finset.card_filter_le _ _).trans (Finset.card_range _).le
  exact hle.trans_lt (h.pageCount_le.trans_lt (by norm_num))

lemma testbit_zero (hpos : 0 < s.pmm.pageCount) : bitmapTestbit s.pmm.bitmap 0 = true := by
  by_contra hclear
  have hmem : 0 ∈ s.pmm.clearPages := mem_clearPages.mpr ⟨hpos, by simpa using hclear⟩
  exact h.zero_notMem ((h.clear_iff 0).mp hmem).1

lemma alloc {pmm : Pmm} {count ret : ℕ} (hcount : 1 ≤ count)
    (halloc : pmmAlloc count s.pmm = some (pmm, ret)) : PmmInv F ⟨pmm, ⟨ret, count⟩ :: s.live⟩ := by
  obtain ⟨page, hend, hrun, rfl, hbitmap, hfree, hcursor, hpages⟩ :=
    pmmAlloc_spec hcount h.cursor_le h.testbit_zero halloc
  have hclear := clearPages_of_setRange hpages hbitmap
  have hmem : ∀ i ∈ Finset.Ico page (page + count), i ∈ s.pmm.clearPages := by
    intro i hi
    rw [Finset.mem_Ico] at hi
    exact mem_clearPages.mpr ⟨by omega, hrun i hi.1 hi.2⟩
  have hcard : pmm.clearPages.card + count = s.pmm.clearPages.card := by
    have hsub := Finset.card_sdiff_add_card_eq_card (s := Finset.Ico page (page + count)) hmem
    rw [Nat.card_Ico, Nat.add_sub_cancel_left] at hsub
    rw [hclear, hsub]
  have hlt := h.card_clearPages_lt
  refine
    { disjoint := ?_
      subset := ?_
      aligned := ?_
      clear_iff := ?_
      freePages_eq := ?_
      cursor_le := ?_
      pageCount_le := ?_
      bounded := ?_
      zero_notMem := h.zero_notMem }
  · refine List.pairwise_cons.mpr ⟨?_, h.disjoint⟩
    intro b hb
    rw [PageBlock.pages_mk, Finset.disjoint_left]
    intro i hi
    exact ((h.clear_iff i).mp (hmem i hi)).2 b hb
  · intro b hb
    rcases List.mem_cons.mp hb with rfl | hb
    · intro i hi
      rw [PageBlock.pages_mk] at hi
      exact ((h.clear_iff i).mp (hmem i hi)).1
    · exact h.subset b hb
  · intro b hb
    rcases List.mem_cons.mp hb with rfl | hb
    · exact ⟨Nat.dvd_mul_left _ _, hcount⟩
    · exact h.aligned b hb
  · intro i
    rw [hclear, Finset.mem_sdiff, h.clear_iff, List.forall_mem_cons, PageBlock.pages_mk]
    tauto
  · change pmm.freePages = pmm.clearPages.card
    rw [hfree, h.freePages_eq]
    omega
  · exact hcursor.trans_le (hend.trans hpages.ge)
  · exact hpages.trans_le h.pageCount_le
  · exact hpages ▸ h.bounded

lemma end_le {b : PageBlock} (hb : b ∈ s.live) :
    b.ptr / pageSize + b.count ≤ s.pmm.pageCount := by
  have hpos := (h.aligned b hb).2
  have hlast : b.ptr / pageSize + (b.count - 1) ∈ b.pages := by
    rw [PageBlock.pages, Finset.mem_Ico]
    exact ⟨Nat.le_add_right _ _, by omega⟩
  have hrange := Finset.mem_range.mp (h.bounded (h.subset b hb hlast))
  omega

lemma free {b : PageBlock} (hb : b ∈ s.live) :
    PmmInv F ⟨pmmFree b.ptr b.count s.pmm, s.live.erase b⟩ := by
  have hperm := List.perm_cons_erase hb
  obtain ⟨hdisj, hrest⟩ := List.pairwise_cons.mp
    (hperm.pairwise h.disjoint fun {_ _} hbc => Disjoint.symm hbc)
  have hclear : (pmmFree b.ptr b.count s.pmm).clearPages = s.pmm.clearPages ∪ b.pages :=
    clearPages_of_resetRange (t := pmmFree b.ptr b.count s.pmm) rfl rfl (h.end_le hb)
  have hnew : Disjoint s.pmm.clearPages b.pages := by
    rw [Finset.disjoint_left]
    intro i hi
    exact ((h.clear_iff i).mp hi).2 b hb
  have hcard : (pmmFree b.ptr b.count s.pmm).clearPages.card = s.pmm.clearPages.card + b.count := by
    rw [hclear, Finset.card_union_of_disjoint hnew, PageBlock.pages, Nat.card_Ico,
      Nat.add_sub_cancel_left]
  have hinv : PmmConsistent F ⟨pmmFree b.ptr b.count s.pmm, s.live.erase b⟩ := by
    refine ⟨hrest, ?_, ?_, ?_, ?_, h.cursor_le⟩
    · intro c hc
      exact h.subset c (List.mem_of_mem_erase hc)
    · intro c hc
      exact h.aligned c (List.mem_of_mem_erase hc)
    · intro i
      rw [hclear, Finset.mem_union, h.clear_iff]
      constructor
      · rintro (⟨hF, hall⟩ | hi)
        · exact ⟨hF, fun c hc => hall c (List.mem_of_mem_erase hc)⟩
        · exact ⟨h.subset b hb hi, fun c hc => Finset.disjoint_left.mp (hdisj c hc) hi⟩
      · rintro ⟨hF, hall⟩
        by_cases hi : i ∈ b.pages
        · exact .inr hi
        · refine .inl ⟨hF, fun c hc => ?_⟩
          rcases List.mem_cons.mp (hperm.mem_iff.mp hc) with rfl | hc
          · exact hi
          · exact hall c hc
    · change (s.pmm.freePages + b.count) % 2 ^ 64 = (pmmFree b.ptr b.count s.pmm).clearPages.card
      have hle : (pmmFree b.ptr b.count s.pmm).clearPages.card ≤ s.pmm.pageCount :=
        (Finset.card_filter_le _ _).trans (Finset.card_range _).le
      have hpages := h.pageCount_le
      rw [hcard] at hle ⊢
      rw [h.freePages_eq]
      apply Nat.mod_eq_of_lt
      omega
  exact { hinv with
    pageCount_le := h.pageCount_le
    bounded := h.bounded
    zero_notMem := h.zero_notMem }

lemma step {e : PmmEvent} (hstep : pmmStep s e = some t) : PmmInv F t := by
  cases e with
  | alloc count =>
    rw [pmmStep] at hstep
    split_ifs at hstep with hcount
    obtain ⟨⟨pmm, ret⟩, halloc, rfl⟩ := Option.map_eq_some_iff.mp hstep
    exact h.alloc hcount halloc
  | free b =>
    rw [pmmStep] at hstep
    split_ifs at hstep with hb
    exact Option.some.inj hstep ▸ h.free hb

end

lemma of_initial (h : PmmInitial F s) : PmmInv F s where
  disjoint := h.live_eq ▸ List.Pairwise.nil
  subset := by simp [h.live_eq]
  aligned := by simp [h.live_eq]
  clear_iff i := by simp [h.live_eq, h.clearPages_eq]
  freePages_eq := by rw [h.freePages_eq, h.clearPages_eq]
  cursor_le := h.cursor_le
  pageCount_le := h.pageCount_le
  bounded := by
    rw [← h.clearPages_eq]
    exact Finset.filter_subset _ _
  zero_notMem := h.zero_notMem

lemma of_reachable (h : (pmmSystem F).Reachable s) : PmmInv F s :=
  h.invariant (fun _ => of_initial) fun _ _ _ hI hstep => hI.step hstep

end PmmInv

/-- Blocks in use are disjoint runs of usable pages, and the bitmap and the
counter have exactly the other usable pages as free. -/
theorem pmm_consistent {F : Finset ℕ} {s : PmmState} (h : (pmmSystem F).Reachable s) :
    PmmConsistent F s :=
  (PmmInv.of_reachable h).toPmmConsistent

def eightPages : PmmState where
  pmm :=
    { pageCount := 8, bitmap := fun _ => 3#64, freePages := 6, lastUsedIndex := 4
      memory := fun _ => 0 }
  live := []

theorem pmm_consistent_after_wrap :
    ∃ s, (pmmSystem {2, 3, 4, 5, 6, 7}).Reachable s ∧ s.live = [⟨0x2000, 2⟩, ⟨0x4000, 3⟩] ∧
      PmmConsistent {2, 3, 4, 5, 6, 7} s := by
  have hinit : PmmInitial {2, 3, 4, 5, 6, 7} eightPages := by
    constructor <;> decide +kernel
  have hreach : (pmmSystem {2, 3, 4, 5, 6, 7}).Reachable eightPages := .init hinit
  obtain ⟨s, hs, hlive⟩ := hreach.exists_of_run_any [.alloc 3, .alloc 2]
    (fun s => decide (s.live = [⟨0x2000, 2⟩, ⟨0x4000, 3⟩])) (by decide +kernel)
  exact ⟨s, hs, of_decide_eq_true hlive, pmm_consistent hs⟩

end Cottage.Mem
