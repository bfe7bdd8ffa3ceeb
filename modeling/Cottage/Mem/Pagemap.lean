import Cottage.Mem.PageTableUpdate

/-!
# Pagemaps

A new pagemap shares the higher half with the kernel's and has no words in the
lower one.  The kernel's own pagemap starts with a zeroed page whose higher
half `vmm_init` fills with empty tables; it does not panic when the page
allocator answers with fresh pages.
-/

namespace Cottage.Paging

open ByteMemory Mem TableWalk Function

variable {m m' : Memory} {owned tops : List ℕ} {kernel top : ℕ} {label : Labels}
  {n i virt page : ℕ} {t t' : Tables}

def writeEntries (top : ℕ) (value : Memory → ℕ → ℕ) (indices : List ℕ) (m : Memory) : Memory :=
  indices.foldl (fun m i => write64 m (entryAddr top i) (value m i)) m

namespace WriteEntries

variable {value : Memory → ℕ → ℕ} {indices : List ℕ}

lemma agreeOutside_write_entry (m : Memory) (v : ℕ) (hi : i < 512) :
    AgreeOutside m (write64 m (entryAddr top i) v) (top + higherHalf) pageSize := by
  obtain ⟨hlo, hhi⟩ := entryAddr_bounds top hi
  intro x hx
  apply write64_apply_of_outside
  intro hin
  exact hx ⟨hlo.trans hin.1, hin.2.trans_le hhi⟩

lemma writeEntries_cons (m : Memory) (i : ℕ) (indices : List ℕ) :
    writeEntries top value (i :: indices) m =
      writeEntries top value indices (write64 m (entryAddr top i) (value m i)) := by
  rw [writeEntries, writeEntries, List.foldl_cons]

lemma agreeOutside_writeEntries (hlt : ∀ i ∈ indices, i < 512) (m : Memory) :
    AgreeOutside m (writeEntries top value indices m) (top + higherHalf) pageSize := by
  induction indices generalizing m with
  | nil => exact fun _ _ => rfl
  | cons i indices ih =>
    obtain ⟨hi, hlt⟩ := List.forall_mem_cons.mp hlt
    rw [writeEntries_cons]
    exact AgreeOn.trans (agreeOutside_write_entry m (value m i) hi) (ih hlt _)

lemma word_writeEntries_of_notMem (htop : IsPage top) (hlt : ∀ i ∈ indices, i < 512)
    (hi : i < 512) (hnot : i ∉ indices) :
    word (writeEntries top value indices m) top i = word m top i := by
  induction indices generalizing m with
  | nil => rfl
  | cons j indices ih =>
    obtain ⟨hj, hlt⟩ := List.forall_mem_cons.mp hlt
    rw [List.mem_cons, not_or] at hnot
    obtain ⟨hne, hnot⟩ := hnot
    rw [writeEntries_cons, ih hlt hnot, word_write64_of_ne m _ htop htop hi hj fun h => hne h.2]

lemma word_writeEntries (htop : IsPage top) (hlt : ∀ i ∈ indices, i < 512)
    (hnodup : indices.Nodup) (hvalue : ∀ m i, value m i < 2 ^ 64)
    (houtside : ∀ m m' i, AgreeOutside m m' (top + higherHalf) pageSize → i < 512 →
      value m' i = value m i) (hi : i ∈ indices) :
    word (writeEntries top value indices m) top i = value m i := by
  induction indices generalizing m with
  | nil => cases hi
  | cons j indices ih =>
    obtain ⟨hj, hrest⟩ := List.forall_mem_cons.mp hlt
    obtain ⟨hnot, hnodup'⟩ := List.nodup_cons.mp hnodup
    rcases List.mem_cons.mp hi with rfl | hi'
    · rw [writeEntries_cons, word_writeEntries_of_notMem htop hrest hj hnot,
        word_write64_self m (hvalue m i)]
    · rw [writeEntries_cons, ih hrest hnodup' hi',
        houtside m _ i (agreeOutside_write_entry m (value m j) hj) (hrest i hi')]

end WriteEntries

open WriteEntries

lemma lt_of_mem_lower (hi : i ∈ List.range 256) : i < 512 := by
  have := List.mem_range.mp hi
  omega

lemma lt_of_mem_higher (hi : i ∈ List.range' 256 256) : i < 512 := by
  have := List.mem_range'_1.mp hi
  omega

lemma importHigherHalf_eq (kernel top : ℕ) (m : Memory) :
    importHigherHalf kernel top m =
      writeEntries top (fun m i => word m kernel i) (List.range' 256 256)
        (writeEntries top (fun _ _ => 0) (List.range 256) m) := rfl

lemma agreeOutside_importHigherHalf (kernel top : ℕ) (m : Memory) :
    AgreeOutside m (importHigherHalf kernel top m) (top + higherHalf) pageSize := by
  rw [importHigherHalf_eq]
  exact AgreeOn.trans (agreeOutside_writeEntries (fun _ => lt_of_mem_lower) m)
    (agreeOutside_writeEntries (fun _ => lt_of_mem_higher) _)

lemma word_importHigherHalf_lower (kernel : ℕ) (m : Memory) (htop : IsPage top) (hi : i < 256) :
    word (importHigherHalf kernel top m) top i = 0 := by
  have hnot : i ∉ List.range' 256 256 := by
    intro hmem
    have := List.mem_range'_1.mp hmem
    omega
  have hmem := List.mem_range.mpr hi
  rw [importHigherHalf_eq, word_writeEntries_of_notMem htop (fun _ => lt_of_mem_higher)
    (lt_of_mem_lower hmem) hnot]
  exact word_writeEntries htop (fun _ => lt_of_mem_lower) List.nodup_range
    (fun _ _ => Nat.two_pow_pos 64) (fun _ _ _ _ _ => rfl) hmem

lemma word_importHigherHalf_higher (m : Memory) (htop : IsPage top) (hkernel : IsPage kernel)
    (hne : kernel ≠ top) (hi : 256 ≤ i) (hi' : i < 512) :
    word (importHigherHalf kernel top m) top i = word m kernel i := by
  have hrange : i ∈ List.range' 256 256 := List.mem_range'_1.mpr ⟨hi, by omega⟩
  rw [importHigherHalf_eq,
    word_writeEntries htop (fun _ => lt_of_mem_higher) List.nodup_range' _ _ hrange]
  · apply word_of_agreeOutside hkernel htop hi' hne
    exact agreeOutside_writeEntries (fun _ => lt_of_mem_lower) _
  · exact fun _ _ => read64_lt _ _
  · intro m₁ m₂ j hagree hj
    exact word_of_agreeOutside hkernel htop hj hne hagree

lemma pmmAlloc_cases (hcall : pmmAlloc page t = some (t', n)) (hn : n ≠ 0) :
    n = page ∧ FreshPage page t ∧
      t' = ⟨memset t.memory (page + higherHalf) 0 pageSize, page :: t.owned⟩ := by
  rw [pmmAlloc] at hcall
  split at hcall
  · exact absurd (Prod.mk.inj (Option.some.inj hcall)).2.symm hn
  · split at hcall
    · rename_i hfresh
      cases hcall
      exact ⟨rfl, hfresh, rfl⟩
    · cases hcall

section

variable (hs : Tree m owned kernel tops label) (htop : top ∈ tops)
  (hword : ∀ n l i, label n = some l → i < 512 → word m' n i = word m n i)

include hs htop hword

lemma Tree.walk_congr (virt : ℕ) :
    walk (nextLevel m') top (tablePath virt) = walk (nextLevel m) top (tablePath virt) := by
  apply (hs.marking top).walk_congr (hs.carries_top htop) (tablePath_lt virt)
    (by simp [length_tablePath])
  intro p n j hn _ hj
  rw [nextLevel, nextLevel, hword n _ j hn hj]

lemma Tree.entry_congr : entry m' top virt = entry m top virt := by
  rw [entry, entry, hs.walk_congr htop hword]
  cases hend : walk (nextLevel m) top (tablePath virt) with
  | none => rw [Option.map_none, Option.map_none]
  | some n =>
    have hn := hs.carries_of_walk htop (tablePath_lt virt) (length_tablePath virt).le hend
    rw [Option.map_some, Option.map_some, hword n _ _ hn (pml1Entry_lt virt)]

end

lemma newPagemap_cases (hcall : newPagemap kernel page t = some (t', top))
    (hkernel : IsPage kernel) (howned : kernel ∈ t.owned) :
    FreshPage top t ∧ t'.owned = top :: t.owned ∧
      AgreeOutside t.memory t'.memory (top + higherHalf) pageSize ∧
      (∀ i, i < 256 → word t'.memory top i = 0) ∧
      ∀ i, 256 ≤ i → i < 512 → word t'.memory top i = word t.memory kernel i := by
  obtain ⟨⟨t₁, n⟩, halloc, hrest⟩ := Option.bind_eq_some_iff.mp hcall
  simp only at hrest
  split at hrest
  · cases hrest
  · rename_i hn
    obtain ⟨rfl, rfl⟩ := Prod.mk.inj (Option.some.inj hrest)
    obtain ⟨rfl, hfresh, rfl⟩ := pmmAlloc_cases halloc hn
    have hf := hfresh.isPage
    have hne : kernel ≠ n := by
      rintro rfl
      exact hfresh.2.2.2 howned
    have hzeroed : AgreeOutside t.memory (memset t.memory (n + higherHalf) 0 pageSize)
        (n + higherHalf) pageSize := agreeOutside_memset _ _ _ _
    have hagree := hzeroed.trans (agreeOutside_importHigherHalf kernel n _)
    dsimp only
    refine ⟨hfresh, rfl, hagree, fun i hi => word_importHigherHalf_lower kernel _ hf hi,
      fun i hi hi' => ?_⟩
    rw [word_importHigherHalf_higher _ hf hkernel hne hi hi']
    exact word_of_agreeOutside hkernel hf hi' hne hzeroed

lemma Shape.newPagemap (hs : Shape t.memory t.owned kernel tops label)
    (hcall : newPagemap kernel page t = some (t', top)) :
    top ∉ t.owned ∧ ∃ label', Shape t'.memory t'.owned kernel (top :: tops) label' ∧
      (∀ top' ∈ tops, ∀ virt, entry t'.memory top' virt = entry t.memory top' virt) ∧
      ∀ virt, entry t'.memory top virt =
        if HigherHalf virt then entry t.memory kernel virt else none := by
  have hkernel := hs.top kernel hs.kernel_mem
  obtain ⟨hfresh, howned, hagree, hlower, hhigher⟩ :=
    newPagemap_cases hcall (hs.isPage hkernel) (hs.labelled _ _ hkernel)
  have hf := hfresh.isPage
  have hs' := hs.addPagemap hf hfresh.2.2.2 hagree hlower hhigher
  have hold : ∀ top' ∈ tops, ∀ virt, entry t'.memory top' virt = entry t.memory top' virt := by
    intro top' htop' virt
    apply hs.entry_congr htop'
    intro n' l i hn' hi
    exact word_of_agreeOutside (hs.isPage hn') hf hi (hs.label_ne hfresh.2.2.2 hn') hagree
  rw [howned]
  refine ⟨hfresh.2.2.2, _, hs', hold, ?_⟩
  intro virt
  split
  · rename_i hhalf
    rw [← hold kernel hs.kernel_mem virt, entry, entry, tablePath,
      hs'.toSpace.walk_higher (.head _) hhalf (tableIndex_lt 39 virt)]
  · rename_i hhalf
    rw [HigherHalf, not_le] at hhalf
    rw [entry, tablePath, walk_cons, nextLevel, hlower _ hhalf, target_zero, Option.bind_none,
      Option.map_none]

lemma Shape.keeps_newPagemap (hs : Shape t.memory t.owned kernel tops label)
    (hcall : Paging.newPagemap kernel page t = some (t', top)) :
    ∃ label', Shape t'.memory t'.owned kernel (top :: tops) label' ∧
      Keeps t.memory t'.memory t.owned t'.owned label label' := by
  have hlabel := hs.top kernel hs.kernel_mem
  obtain ⟨hfresh, howned, hagree, hlower, hhigher⟩ :=
    newPagemap_cases hcall (hs.isPage hlabel) (hs.labelled _ _ hlabel)
  have hf := hfresh.isPage
  have hnew := hfresh.2.2.2
  have hword {n i : ℕ} {l : ℕ × List ℕ} (hn : label n = some l) (hi : i < 512) :
      word t'.memory n i = word t.memory n i :=
    word_of_agreeOutside (hs.isPage hn) hf hi (hs.label_ne hnew hn) hagree
  rw [howned]
  refine ⟨_, hs.addPagemap hf hnew hagree hlower hhigher,
    fun n hn => List.mem_cons_of_mem top hn, ?_, ?_, ?_, ?_, ?_⟩
  · intro n l hn
    rw [update_of_ne (hs.label_ne hnew hn), hn]
  · intro n l hn
    by_cases heq : n = top
    · exact .inr (heq ▸ hnew)
    · rw [update_of_ne heq] at hn
      exact .inl hn
  · intro n l i n' hn _ hi hnext
    rw [nextLevel, hword hn hi, ← nextLevel, hnext]
  · intro n hn _ x hx
    apply hagree
    intro hin
    have heq := hx.eq (hs.page n hn) hf hin
    exact hnew (heq ▸ hn)
  · intro hfilled n l i hn hlen hi
    by_cases heq : n = top
    · rw [heq]
      by_cases hhalf : i < 256
      · exact .inl (hlower i hhalf)
      · rw [hhigher i (by omega) hi]
        exact hfilled kernel _ i hlabel (Nat.succ_pos 2) hi
    · rw [update_of_ne heq] at hn
      rw [hword hn hi]
      exact hfilled n l i hn hlen hi

def Blank (m : Memory) (top : ℕ) : Prop :=
  ∀ virt, entry m top virt = none ∨ entry m top virt = some 0

lemma Blank.grows (hblank : Blank m top) (hgrows : Grows [top] top virt m m') : Blank m' top := by
  intro virt'
  rcases hgrows top (.head _) virt' with hsame | ⟨_, hzero, _⟩
  · rw [hsame]
    exact hblank virt'
  · exact .inr hzero

lemma tablePath_top (hi : i < 512) : tablePath (i * 2 ^ 39) = [i, 0, 0] := by
  simp only [tablePath, pml4Entry, pml3Entry, pml2Entry, tableIndex_eq, List.cons.injEq, and_true]
  omega

section

variable (ht : Tree t.memory t.owned top [top] label) (hblank : Blank t.memory top)
  (hfilled : Filled t.memory label)

include ht hblank hfilled

lemma Tree.fillEntry (hi : i < 512) (hcall : getNextLevel top i true page t = some (t', n))
    (hn : n ≠ 0) :
    ∃ label', Tree t'.memory t'.owned top [top] label' ∧ Blank t'.memory top ∧
      Filled t'.memory label' ∧ (nextLevel t'.memory top i).isSome ∧
      ∀ j, j < 512 → (nextLevel t.memory top j).isSome → (nextLevel t'.memory top j).isSome := by
  have htop := ht.top top (.head _)
  rcases getNextLevel_cases hcall with ⟨hzero, _⟩ | ⟨hsome, rfl⟩ | ⟨hnone, hfresh, rfl⟩
  · exact absurd hzero hn
  · exact ⟨label, ht, hblank, hfilled, hsome ▸ rfl, fun _ _ h => h⟩
  · have hf := hfresh.isPage
    have hext := ht.extension htop hi hnone hf hfresh.2.2.2 top
    have hkeeps := ht.keeps_linked htop hi hnone hf hfresh.2.2.2
    refine ⟨_, ht.extend htop hi hf hfresh.2.2.2, ?_, hkeeps.filled hfilled, ?_, ?_⟩
    · exact hblank.grows (ht.grows_linked (ht.carries_top (.head _))
        (tablePath_top hi).symm hnone hf hfresh.2.2.2)
    · rw [hext.entry]
      rfl
    · intro j hj hsome
      by_cases heq : j = i
      · rw [heq, hext.entry]
        rfl
      · rw [ht.nextLevel_linked htop hi hf hfresh.2.2.2 htop hj fun h => heq h.2]
        exact hsome

lemma Tree.fillHigherHalf {pages : ℕ → ℕ} {indices : List ℕ} (hlt : ∀ i ∈ indices, i < 512)
    (hcall : indices.foldlM (fun t i => (getNextLevel top i true (pages i) t).bind fun (t, next) =>
      if next = 0 then none else some t) t = some t') :
    ∃ label', Tree t'.memory t'.owned top [top] label' ∧ Blank t'.memory top ∧
      Filled t'.memory label' ∧ (∀ i ∈ indices, (nextLevel t'.memory top i).isSome) ∧
      ∀ j, j < 512 → (nextLevel t.memory top j).isSome → (nextLevel t'.memory top j).isSome := by
  induction indices generalizing t label with
  | nil =>
    cases hcall
    exact ⟨label, ht, hblank, hfilled, nofun, fun _ _ h => h⟩
  | cons i indices ih =>
    obtain ⟨hi, hrest⟩ := List.forall_mem_cons.mp hlt
    rw [List.foldlM_cons] at hcall
    obtain ⟨t₁, hround, hcall⟩ := Option.bind_eq_some_iff.mp hcall
    obtain ⟨⟨t₂, n⟩, hnext, hround⟩ := Option.bind_eq_some_iff.mp hround
    simp only [Option.ite_none_left_eq_some, Option.some.injEq] at hround
    obtain ⟨hn, rfl⟩ := hround
    obtain ⟨label₁, ht₁, hblank₁, hfilled₁, hsome₁, hkeep₁⟩ :=
      ht.fillEntry hblank hfilled hi hnext hn
    obtain ⟨label', ht', hblank', hfilled', hsome', hkeep'⟩ :=
      ih ht₁ hblank₁ hfilled₁ hrest hcall
    refine ⟨label', ht', hblank', hfilled', ?_, fun j hj h => hkeep' j hj (hkeep₁ j hj h)⟩
    exact List.forall_mem_cons.mpr ⟨hkeep' i hi hsome₁, hsome'⟩

end

def single (page : ℕ) : Labels :=
  update (fun _ => none) page (some (page, []))

lemma eq_of_single {l : ℕ × List ℕ} (hn : single page n = some l) : n = page := by
  by_contra hne
  rw [single, update_of_ne hne] at hn
  cases hn

lemma tree_single (m : Memory) (htop : IsPage top) :
    Tree (memset m (top + higherHalf) 0 pageSize) [top] top [top] (single top) ∧
    Blank (memset m (top + higherHalf) 0 pageSize) top ∧
    Filled (memset m (top + higherHalf) 0 pageSize) (single top) := by
  have hnext (i : ℕ) (hi : i < 512) :
      nextLevel (memset m (top + higherHalf) 0 pageSize) top i = none := by
    rw [nextLevel, word_memset_zero m top hi, target_zero]
  refine ⟨⟨?_, ?_, ?_, .head _, ?_⟩, ?_, ?_⟩
  · simpa using htop
  · intro n l hn
    exact eq_of_single hn ▸ (.head _)
  · intro n hn
    rw [List.mem_singleton.mp hn, single, update_self]
  · intro n o path i n' hn _ hi hstep
    rw [eq_of_single hn, hnext i hi] at hstep
    cases hstep
  · intro virt
    left
    rw [entry, tablePath, walk_cons, hnext (pml4Entry virt) (tableIndex_lt 39 virt),
      Option.bind_none, Option.map_none]
  · intro n l i hn _ hi
    rw [eq_of_single hn]
    exact .inl (word_memset_zero m top hi)

lemma shape_vmmInit {pages : ℕ → ℕ} (hcall : vmmInit page pages ⟨m, []⟩ = some (t, top)) :
    ∃ label, Shape t.memory t.owned top [top] label ∧ Blank t.memory top ∧
      Filled t.memory label := by
  obtain ⟨⟨t₁, n⟩, halloc, hrest⟩ := Option.bind_eq_some_iff.mp hcall
  simp only [Option.ite_none_left_eq_some, Option.map_eq_some_iff, Prod.mk.injEq] at hrest
  obtain ⟨hn, t₂, hfill, rfl, rfl⟩ := hrest
  obtain ⟨rfl, hfresh, rfl⟩ := pmmAlloc_cases halloc hn
  obtain ⟨ht, hblank, hfilled⟩ := tree_single m hfresh.isPage
  obtain ⟨label, ht', hblank', hfilled', hsome, _⟩ :=
    ht.fillHigherHalf hblank hfilled (fun _ => lt_of_mem_higher) hfill
  refine ⟨label, ⟨ht', ?_⟩, hblank', hfilled'⟩
  intro n' hn' i hi hi'
  rw [List.mem_singleton.mp hn']
  exact ⟨rfl, hsome i (List.mem_range'_1.mpr ⟨hi, by omega⟩)⟩

/-! ## Fresh pages are enough -/

lemma getNextLevel_of_zero (hword : word t.memory n i = 0) (hfresh : FreshPage page t) :
    getNextLevel n i true page t = some (⟨linked t.memory n i page, page :: t.owned⟩, page) := by
  have hne : page ≠ 0 := hfresh.2.1.ne'
  have hread : read64 t.memory (entryAddr n i) = 0 := hword
  have halloc : pmmAlloc page t =
      some (⟨memset t.memory (page + higherHalf) 0 pageSize, page :: t.owned⟩, page) := by
    rw [pmmAlloc, if_neg hne, if_pos hfresh]
  simp only [getNextLevel, hread, Nat.zero_and, ne_eq, not_true_eq_false, if_false, halloc,
    Option.map_some, if_neg hne, linked, Bool.true_eq_false]

lemma FreshPage.of_ne {page' : ℕ} (h : FreshPage page t) (hne : page ≠ page') :
    FreshPage page ⟨m, page' :: t.owned⟩ := by
  refine ⟨h.1, h.2.1, h.2.2.1, ?_⟩
  rw [List.mem_cons, not_or]
  exact ⟨hne, h.2.2.2⟩

lemma fillHigherHalf_isSome {pages : ℕ → ℕ} {indices : List ℕ} (htop : IsPage top)
    (howned : top ∈ t.owned) (hlt : ∀ i ∈ indices, i < 512) (hnodup : (indices.map pages).Nodup)
    (hfresh : ∀ i ∈ indices, FreshPage (pages i) t)
    (hempty : ∀ i ∈ indices, word t.memory top i = 0) :
    ∃ t', indices.foldlM (fun t i => (getNextLevel top i true (pages i) t).bind fun (t, next) =>
      if next = 0 then none else some t) t = some t' ∧
        ∀ page ∈ t'.owned, page ∈ t.owned ∨ page ∈ indices.map pages := by
  induction indices generalizing t with
  | nil => exact ⟨t, rfl, fun page hpage => .inl hpage⟩
  | cons i indices ih =>
    obtain ⟨hi, hlt'⟩ := List.forall_mem_cons.mp hlt
    obtain ⟨hfresh₁, hfresh'⟩ := List.forall_mem_cons.mp hfresh
    obtain ⟨hempty₁, hempty'⟩ := List.forall_mem_cons.mp hempty
    obtain ⟨hnot, hnodup'⟩ := List.nodup_cons.mp hnodup
    have hne (j : ℕ) (hj : j ∈ indices) : pages j ≠ pages i := by
      intro heq
      exact hnot (heq ▸ List.mem_map_of_mem hj)
    have htop' : top ≠ pages i := by
      rintro rfl
      exact hfresh₁.2.2.2 howned
    obtain ⟨t', hcall, howned'⟩ := ih
      (t := ⟨linked t.memory top i (pages i), pages i :: t.owned⟩) (.tail _ howned)
      hlt' hnodup' (fun j hj => (hfresh' j hj).of_ne (hne j hj)) (by
        intro j hj
        rw [word_linked_of_ne t.memory htop hfresh₁.isPage htop htop' hi (hlt' j hj)]
        · exact hempty' j hj
        · rintro ⟨_, rfl⟩
          exact hne j hj rfl)
    refine ⟨t', ?_, ?_⟩
    · rw [List.foldlM_cons, getNextLevel_of_zero hempty₁ hfresh₁, Option.bind_some]
      simp only [if_neg hfresh₁.2.1.ne']
      exact hcall
    · intro page hpage
      rcases howned' page hpage with hold | hnew
      · rcases List.mem_cons.mp hold with rfl | hold
        · exact .inr (.head _)
        · exact .inl hold
      · exact .inr (.tail _ hnew)

lemma vmmInit_isSome (m : Memory) (pages : ℕ → ℕ) (hpage : IsPage page)
    (hnodup : (page :: (List.range' 256 256).map pages).Nodup)
    (hpages : ∀ i ∈ List.range' 256 256, IsPage (pages i)) :
    ∃ t, vmmInit page pages ⟨m, []⟩ = some (t, page) ∧
      ∀ n ∈ t.owned, n ∈ page :: (List.range' 256 256).map pages := by
  have hne : page ≠ 0 := hpage.2.1.ne'
  have hfresh : FreshPage page ⟨m, []⟩ := ⟨hpage.1, hpage.2.1, hpage.2.2, List.not_mem_nil⟩
  obtain ⟨hnot, hnodup'⟩ := List.nodup_cons.mp hnodup
  obtain ⟨t, hfill, howned⟩ := fillHigherHalf_isSome
    (t := ⟨memset m (page + higherHalf) 0 pageSize, [page]⟩) hpage (.head _)
    (fun _ => lt_of_mem_higher) hnodup'
    (by
      intro i hi
      obtain ⟨halign, hpos, hle⟩ := hpages i hi
      refine ⟨halign, hpos, hle, ?_⟩
      rw [List.mem_singleton]
      intro heq
      exact hnot (heq ▸ List.mem_map_of_mem hi))
    (fun i hi => word_memset_zero m page (lt_of_mem_higher hi))
  refine ⟨t, ?_, ?_⟩
  · simp only [vmmInit, pmmAlloc, if_neg hne, if_pos hfresh, Option.bind_some]
    rw [fillHigherHalf, hfill, Option.map_some]
  · intro n hn
    rcases howned n hn with hold | hnew
    · exact List.mem_cons.mpr (.inl (List.mem_singleton.mp hold))
    · exact .tail page hnew

lemma newPagemap_of_fresh (kernel : ℕ) (hfresh : FreshPage page t) :
    newPagemap kernel page t = some (⟨importHigherHalf kernel page
      (memset t.memory (page + higherHalf) 0 pageSize), page :: t.owned⟩, page) := by
  have hne : page ≠ 0 := hfresh.2.1.ne'
  simp only [newPagemap, pmmAlloc, if_neg hne, if_pos hfresh, Option.bind_some]

lemma getNextLevel_of_fresh (n i : ℕ) (hfresh : FreshPage page t) :
    ∃ t' next, getNextLevel n i true page t = some (t', next) ∧
      (t'.owned = t.owned ∨ t'.owned = page :: t.owned) := by
  have hne : page ≠ 0 := hfresh.2.1.ne'
  simp only [getNextLevel, pmmAlloc, if_neg hne, if_pos hfresh, Bool.true_eq_false, if_false,
    Option.map_some]
  split_ifs
  · exact ⟨_, _, rfl, .inl rfl⟩
  · exact ⟨_, _, rfl, .inr rfl⟩

lemma descend_isSome (rest : List (ℕ × ℕ)) (n : ℕ) (hnodup : (rest.map Prod.snd).Nodup)
    (hfresh : ∀ x ∈ rest, FreshPage x.2 t) : ∃ r, descend true rest n t = some r := by
  induction rest generalizing n t with
  | nil => exact ⟨_, rfl⟩
  | cons x rest ih =>
    obtain ⟨i, page⟩ := x
    obtain ⟨hfirst, hfresh'⟩ := List.forall_mem_cons.mp hfresh
    obtain ⟨hnot, hnodup'⟩ := List.nodup_cons.mp hnodup
    obtain ⟨t', next, hcall, howned⟩ := getNextLevel_of_fresh n i hfirst
    rw [descend, hcall, Option.bind_some]
    dsimp only
    split_ifs
    · exact ⟨_, rfl⟩
    · refine ih next hnodup' fun x hx => ?_
      obtain ⟨halign, hpos, hle, hnew⟩ := hfresh' x hx
      refine ⟨halign, hpos, hle, ?_⟩
      rcases howned with heq | heq
      · exact heq ▸ hnew
      · rw [heq, List.mem_cons, not_or]
        exact ⟨fun h => hnot (h ▸ List.mem_map_of_mem hx), hnew⟩

end Cottage.Paging
