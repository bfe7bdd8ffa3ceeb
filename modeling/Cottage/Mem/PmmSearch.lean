import Cottage.Mem.PmmInvariant

/-!
# What the page allocator does not find

The two passes of `pmm_alloc` meet at the old position of the cursor: the first
one starts there with no clear page counted yet, and the second one stops
there.  So a run of clear pages is found when it lies on one side of the
cursor, and a run that lies across it is not.
-/

namespace Cottage.Mem

variable {count : ℕ} {s : Pmm}

def OneSided (s : Pmm) (page count : ℕ) : Prop :=
  page + count ≤ s.lastUsedIndex ∨ s.lastUsedIndex ≤ page ∧ page + count ≤ s.pageCount

lemma pmmAlloc_eq_none_iff (hzero : bitmapTestbit s.bitmap 0 = true) (hcount : 0 < count) :
    pmmAlloc count s = none ↔ ∀ page, ClearRun s.bitmap page count → ¬ OneSided s page count := by
  have hsearch : (pmmSearch count s).2 = 0 ↔
      ∀ page, ClearRun s.bitmap page count → ¬ OneSided s page count := by
    rw [pmmSearch]
    rcases innerAlloc_spec s.pageCount s hcount with
      ⟨page, hlo, hend, hrun, heq⟩ | ⟨hfirst, index, _, heq⟩
    · have hne := hrun.ptr_ne_zero hcount hzero
      simp only [heq, if_neg hne]
      exact iff_of_false hne fun hnone => hnone page hrun (.inr ⟨hlo, hend⟩)
    · simp only [heq, if_true]
      rcases innerAlloc_spec s.lastUsedIndex { s with lastUsedIndex := 0 } hcount with
        ⟨page, _, hend, hrun, heq'⟩ | ⟨hsecond, index', _, heq'⟩
      · rw [heq']
        exact iff_of_false (hrun.ptr_ne_zero hcount hzero) fun hnone =>
          hnone page hrun (.inl hend)
      · rw [heq']
        refine iff_of_true rfl fun page hrun hside => ?_
        rcases hside with hend | ⟨hlo, hend⟩
        · exact hsecond page (Nat.zero_le _) hend hrun
        · exact hfirst page hlo hend hrun
  rw [← hsearch, pmmAlloc]
  dsimp only
  split_ifs with hnull
  · exact iff_of_true rfl hnull
  · exact iff_of_false (by simp) hnull

/-- The panic of `pmm_alloc` is due to a lack of clear runs, except when there
are clear runs and all of them lie across the cursor. -/
theorem pmmAlloc_complete_iff (s : Pmm) {count : ℕ} (hzero : bitmapTestbit s.bitmap 0 = true)
    (hcount : 1 ≤ count) :
    (pmmAlloc count s = none →
      ∀ page, page + count ≤ s.pageCount → ¬ ClearRun s.bitmap page count) ↔
    ((∃ page, page + count ≤ s.pageCount ∧ ClearRun s.bitmap page count) →
      ∃ page, ClearRun s.bitmap page count ∧ OneSided s page count) := by
  rw [pmmAlloc_eq_none_iff hzero hcount]
  constructor
  · rintro hcomplete ⟨page, hend, hrun⟩
    by_contra hnone
    refine hcomplete (fun page' hrun' hside => hnone ⟨page', hrun', hside⟩) page hend hrun
  · intro hside hnone page hend hrun
    obtain ⟨page', hrun', hside'⟩ := hside ⟨page, hend, hrun⟩
    exact hnone page' hrun' hside'

def acrossCursor : Pmm where
  pageCount := 4
  bitmap := fun _ => 9#64
  freePages := 2
  lastUsedIndex := 2
  memory := fun _ => 0

theorem pmmAlloc_complete_iff_acrossCursor :
    bitmapTestbit acrossCursor.bitmap 0 = true ∧
      (pmmAlloc 1 acrossCursor = none →
        ∀ page, page + 1 ≤ acrossCursor.pageCount → ¬ ClearRun acrossCursor.bitmap page 1) := by
  refine ⟨by decide, ?_⟩
  rw [pmmAlloc_complete_iff acrossCursor (by decide) le_rfl]
  intro _
  refine ⟨1, ?_, .inl (by decide)⟩
  intro i hlo hhi
  obtain rfl : i = 1 := by omega
  decide

theorem pmmAlloc_misses_run :
    pmmAlloc 2 acrossCursor = none ∧ 1 + 2 ≤ acrossCursor.pageCount ∧
      ClearRun acrossCursor.bitmap 1 2 := by
  refine ⟨by decide, by decide, ?_⟩
  intro i hlo hhi
  obtain rfl | rfl : i = 1 ∨ i = 2 := by omega
  · decide
  · decide

end Cottage.Mem
