import Cottage.Mem.PmmInit

/-!
# The page bitmap after `slaballoc_init`

The last thing `pmm_init` does is to call `slaballoc_init`, which takes the
first page for each slab.  The bitmap has a bit for each page unless the number
of pages is a little above a multiple of the bits in a page, as the number of
its bytes is rounded down first.
-/

namespace Cottage.Mem

open ByteMemory

variable {entries : List MemmapEntry} {before : Bitmap} {boot : PmmBoot} {s s' : Pmm}

lemma initSlab_eq_some (h : initSlab s = some s') : ∃ ret, pmmAlloc 1 s = some (s', ret) := by
  obtain ⟨⟨t, ret⟩, halloc, rfl⟩ := Option.map_eq_some_iff.mp h
  exact ⟨ret, halloc⟩

lemma PmmInv.initSlabs {F : Finset ℕ} {rounds : List ℕ} {live : List PageBlock}
    (h : PmmInv F ⟨s, live⟩) (hcall : rounds.foldlM (fun s _ => initSlab s) s = some s') :
    ∃ taken : List PageBlock, taken.length = rounds.length ∧ (∀ b ∈ taken, b.count = 1) ∧
      PmmInv F ⟨s', taken ++ live⟩ ∧ s'.pageCount = s.pageCount ∧
      ∀ i, s.pageCount ≤ i → bitmapTestbit s'.bitmap i = bitmapTestbit s.bitmap i := by
  induction rounds generalizing s live with
  | nil =>
    cases hcall
    exact ⟨[], rfl, nofun, h, rfl, fun _ _ => rfl⟩
  | cons round rounds ih =>
    obtain ⟨s₁, hfirst, hrest⟩ := Option.bind_eq_some_iff.mp hcall
    obtain ⟨ret, halloc⟩ := initSlab_eq_some hfirst
    obtain ⟨page, hend, _, _, hbitmap, _, _, hcount⟩ :=
      pmmAlloc_spec Nat.one_pos h.cursor_le h.testbit_zero halloc
    obtain ⟨taken, hlength, hone, hinv, hcount', hbits⟩ := ih (h.alloc le_rfl halloc) hrest
    refine ⟨taken ++ [⟨ret, 1⟩], by simp [hlength], ?_, ?_, hcount'.trans hcount, ?_⟩
    · intro b hb
      rcases List.mem_append.mp hb with hb | hb
      · exact hone b hb
      · rw [List.mem_singleton.mp hb]
    · rwa [List.append_assoc, List.singleton_append]
    · intro i hi
      have hnot : ¬ (page ≤ i ∧ i < page + 1) := by
        dsimp only at hend
        omega
      rw [hbits i (hcount.le.trans hi), hbitmap, bitmapTestbit_setRange, decide_eq_false hnot,
        Bool.false_or]

lemma PmmInv.isSome_initSlabs {F : Finset ℕ} {rounds : List ℕ} {live : List PageBlock}
    (h : PmmInv F ⟨s, live⟩) (hpos : 0 < s.pageCount)
    (hclear : rounds.length ≤ s.clearPages.card) :
    (rounds.foldlM (fun s _ => initSlab s) s).isSome := by
  induction rounds generalizing s live with
  | nil => rfl
  | cons round rounds ih =>
    rw [List.length_cons] at hclear
    obtain ⟨page, hpage⟩ := Finset.card_pos.mp (by omega : 0 < s.clearPages.card)
    obtain ⟨hlt, hbit⟩ := mem_clearPages.mp hpage
    have hrun : ClearRun s.bitmap page 1 := by
      intro i hlo hhi
      obtain rfl : i = page := by omega
      exact hbit
    have hsome : pmmAlloc 1 s ≠ none := by
      intro hnone
      apply (pmmAlloc_eq_none_iff (h.testbit_zero hpos) Nat.one_pos).mp hnone page hrun
      simp only [OneSided]
      omega
    obtain ⟨⟨s₁, ret⟩, halloc⟩ := Option.ne_none_iff_exists'.mp hsome
    have hinv := h.alloc le_rfl halloc
    obtain ⟨_, _, _, _, _, hfree, _, hcount⟩ :=
      pmmAlloc_spec Nat.one_pos h.cursor_le h.testbit_zero halloc
    have hcard : s.freePages = s.clearPages.card := h.freePages_eq
    have hcard' : s₁.freePages = s₁.clearPages.card := hinv.freePages_eq
    have hbound : s.clearPages.card < 2 ^ 64 := h.card_clearPages_lt
    rw [List.foldlM_cons, initSlab, halloc]
    apply ih hinv
    · exact hpos.trans_eq hcount.symm
    · dsimp only at hfree
      omega

lemma pmmAlloc_of_zero_clear (hcursor : s.lastUsedIndex = 0) (hpos : 0 < s.pageCount)
    (hclear : bitmapTestbit s.bitmap 0 = false) : pmmAlloc 1 s = none := by
  obtain ⟨n, hn⟩ := Nat.exists_eq_add_of_lt hpos
  have hfirst : innerAlloc 1 s.pageCount s = (s.take 0 1, 0) := by
    rw [innerAlloc, hcursor, hn, Nat.zero_add, Nat.sub_zero, innerAllocLoop, hcursor,
      if_pos (Nat.succ_pos n), hclear]
    simp only [Bool.not_false, if_true, Nat.zero_add, Nat.sub_self, Nat.zero_mul, Pmm.take]
  have hsearch : (pmmSearch 1 s).2 = 0 := by
    simp only [pmmSearch, hfirst, if_true]
    simp only [innerAlloc, hcursor, Nat.sub_self, innerAllocLoop]
  rw [pmmAlloc]
  simp only [hsearch, if_true]

/-- The bitmap has a bit for every page, nothing behind it has changed, and the
clear bits are those of usable pages that neither the bitmap nor a slab has. -/
structure BitmapRight (before : Bitmap) (entries : List MemmapEntry) (boot : PmmBoot)
    (slabs : List ℕ) : Prop where
  bits : boot.pmm.pageCount ≤ 8 * bitmapSize entries
  outside : ∀ i, bitmapSize entries / 8 ≤ i → boot.pmm.bitmap i = before i
  clear_iff : ∀ page, page < 8 * bitmapSize entries →
    (bitmapTestbit boot.pmm.bitmap page = false ↔ UsablePage entries page ∧
      ¬ BitmapPage boot.bitmap (bitmapSize entries) page ∧ page ∉ slabs)
  freePages_eq : boot.pmm.freePages = ((Finset.range (8 * bitmapSize entries)).filter
    fun page => bitmapTestbit boot.pmm.bitmap page = false).card

section

variable (h : Populated before entries boot)

include h

lemma Populated.inv (hmap : ValidMemmap entries)
    (hbits : pmmPageCount entries ≤ 8 * bitmapSize entries) (hzero : 0 ∉ boot.pmm.clearPages) :
    PmmInv boot.pmm.clearPages ⟨boot.pmm, []⟩ := by
  apply PmmInv.of_initial
  refine ⟨?_, rfl, hzero, ?_, ?_, rfl⟩
  · exact h.pageCount_eq.trans_le (pmmPageCount_lt entries).le
  · rw [h.clearPages_eq hmap hbits, List.toFinset_card_of_nodup h.carved.nodup_usablePages]
    exact h.freePages_eq
  · exact h.lastUsedIndex_eq.trans_le (Nat.zero_le _)

lemma zero_notMem_of_slaballocInit (hcall : slaballocInit boot.pmm = some s') :
    0 ∉ boot.pmm.clearPages := by
  intro hmem
  obtain ⟨hpos, hclear⟩ := mem_clearPages.mp hmem
  have hnone := pmmAlloc_of_zero_clear h.lastUsedIndex_eq hpos hclear
  have hrange : List.range Malloc.slabCount = 0 :: (List.range 9).map Nat.succ := by decide
  rw [slaballocInit, hrange, List.foldlM_cons, initSlab, hnone] at hcall
  cases hcall

variable (hmap : ValidMemmap entries) (hbits : pmmPageCount entries ≤ 8 * bitmapSize entries)

include hmap hbits

lemma Populated.bitmapRight (hcall : slaballocInit boot.pmm = some s') :
    ∃ slabs : List ℕ, slabs.length = Malloc.slabCount ∧ slabs.Nodup ∧
      (∀ page ∈ slabs, UsablePage boot.entries page) ∧
      BitmapRight before entries { boot with pmm := s' } slabs := by
  have hzero := zero_notMem_of_slaballocInit h hcall
  obtain ⟨taken, hlength, hone, hinv, hcount, hsame⟩ := (h.inv hmap hbits hzero).initSlabs hcall
  rw [List.append_nil] at hinv
  rw [h.pageCount_eq] at hcount hsame
  have hpages {b : PageBlock} (hb : b ∈ taken) (page : ℕ) :
      page ∈ b.pages ↔ b.ptr / pageSize = page := by
    rw [PageBlock.pages, hone b hb, Finset.mem_Ico]
    omega
  have hclear (page : ℕ) : page ∈ s'.clearPages ↔ UsablePage boot.entries page ∧
      page ∉ taken.map fun b => b.ptr / pageSize := by
    have hiff := hinv.clear_iff page
    rw [h.clearPages_eq hmap hbits, List.mem_toFinset, h.carved.mem_usablePages] at hiff
    rw [hiff, List.mem_map]
    refine and_congr_right fun _ => ⟨?_, ?_⟩
    · rintro hnot ⟨b, hb, heq⟩
      exact hnot b hb ((hpages hb page).mpr heq)
    · intro hnot b hb hmem
      exact hnot ⟨b, hb, (hpages hb page).mp hmem⟩
  have hlt {page : ℕ} (husable : UsablePage boot.entries page) : page < pmmPageCount entries :=
    ((h.usable_iff page).mp husable).1.lt_pageCount hmap
  have hbit (page : ℕ) (hpage : page < 8 * bitmapSize entries) :
      bitmapTestbit s'.bitmap page = false ↔ page ∈ s'.clearPages := by
    rw [mem_clearPages, hcount]
    refine ⟨fun hfalse => ⟨?_, hfalse⟩, And.right⟩
    by_contra hge
    rw [hsame page (not_lt.mp hge), h.clear_iff page hpage] at hfalse
    exact hge (hlt hfalse)
  refine ⟨taken.map fun b => b.ptr / pageSize, ?_, ?_, ?_, ?_, ?_, ?_, ?_⟩
  · rw [List.length_map, hlength, List.length_range]
  · rw [List.Nodup, List.pairwise_map]
    refine hinv.disjoint.imp_of_mem fun {b c} hb hc hdisj heq => ?_
    exact Finset.disjoint_left.mp hdisj ((hpages hb _).mpr heq) ((hpages hc _).mpr rfl)
  · intro page hpage
    obtain ⟨b, hb, rfl⟩ := List.mem_map.mp hpage
    have hmem := hinv.subset b hb ((hpages hb _).mpr rfl)
    rwa [h.clearPages_eq hmap hbits, List.mem_toFinset, h.carved.mem_usablePages] at hmem
  · exact hcount.trans_le hbits
  · intro i hi
    rw [← h.word_eq hbits i hi]
    apply BitVec.eq_of_getLsbD_eq
    intro k hk
    have hword : (64 * i + k) / 64 = i ∧ (64 * i + k) % 64 = k := by omega
    have hge : pmmPageCount entries ≤ 64 * i + k := by
      obtain ⟨n, hn⟩ := dvd_bitmapSize entries
      simp only [pageSize] at hn
      omega
    have heq := hsame (64 * i + k) hge
    rwa [bitmapTestbit_eq_getLsbD, bitmapTestbit_eq_getLsbD, hword.1, hword.2] at heq
  · intro page hpage
    rw [hbit page hpage, hclear, h.usable_iff, and_assoc]
  · change s'.freePages = _
    have hfree : s'.freePages = s'.clearPages.card := hinv.freePages_eq
    rw [hfree]
    congr 1
    ext page
    rw [Finset.mem_filter, Finset.mem_range]
    constructor
    · intro hmem
      have hpage := (mem_clearPages.mp hmem).1.trans_le (hcount.trans_le hbits)
      exact ⟨hpage, (hbit page hpage).mpr hmem⟩
    · rintro ⟨hpage, hfalse⟩
      exact (hbit page hpage).mp hfalse

lemma Populated.bitmapRight_nil : BitmapRight before entries boot [] := by
  have hclear (page : ℕ) (hpage : page < 8 * bitmapSize entries) :
      bitmapTestbit boot.pmm.bitmap page = false ↔ page ∈ boot.pmm.clearPages := by
    rw [h.clear_iff page hpage, h.clearPages_eq hmap hbits, List.mem_toFinset,
      h.carved.mem_usablePages]
  refine ⟨h.pageCount_eq.trans_le hbits, h.word_eq hbits, fun page hpage => ?_, ?_⟩
  · rw [h.clear_iff page hpage, h.usable_iff]
    simp
  · rw [h.freePages_eq, ← List.toFinset_card_of_nodup h.carved.nodup_usablePages,
      ← h.clearPages_eq hmap hbits]
    congr 1
    ext page
    rw [Finset.mem_filter, Finset.mem_range]
    constructor
    · intro hmem
      have hpage := (mem_clearPages.mp hmem).1.trans_le (h.pageCount_eq.trans_le hbits)
      exact ⟨hpage, (hclear page hpage).mpr hmem⟩
    · rintro ⟨hpage, hfalse⟩
      exact (hclear page hpage).mp hfalse

lemma Populated.isSome_slaballocInit_iff :
    (slaballocInit boot.pmm).isSome ↔
      0 ∉ boot.pmm.clearPages ∧ Malloc.slabCount ≤ boot.pmm.freePages := by
  have hfree : boot.pmm.freePages = boot.pmm.clearPages.card := by
    rw [h.freePages_eq, h.clearPages_eq hmap hbits,
      List.toFinset_card_of_nodup h.carved.nodup_usablePages]
  constructor
  · intro hsome
    obtain ⟨s', hcall⟩ := Option.isSome_iff_exists.mp hsome
    obtain ⟨slabs, hlength, hnodup, husable, _⟩ := h.bitmapRight hmap hbits hcall
    refine ⟨zero_notMem_of_slaballocInit h hcall, ?_⟩
    have hsub : slabs.toFinset ⊆ boot.pmm.clearPages := by
      intro page hpage
      rw [h.clearPages_eq hmap hbits, List.mem_toFinset, h.carved.mem_usablePages]
      exact husable page (List.mem_toFinset.mp hpage)
    have hcard := Finset.card_le_card hsub
    rwa [List.toFinset_card_of_nodup hnodup, hlength, ← hfree] at hcard
  · rintro ⟨hzero, hcount⟩
    rw [hfree] at hcount
    have hpos : 0 < boot.pmm.pageCount := by
      have hslabs : 0 < Malloc.slabCount := by decide
      obtain ⟨page, hpage⟩ := Finset.card_pos.mp (hslabs.trans_le hcount)
      exact (mem_clearPages.mp hpage).1.pos
    apply (h.inv hmap hbits hzero).isSome_initSlabs hpos
    rwa [List.length_range]

end

/-- The bitmap that `pmm_init` makes, except for numbers of pages that are at
most seven above a multiple of those in a page of bitmap. -/
theorem pmmInit_bitmap (before : Bitmap) (memory : Memory) {entries : List MemmapEntry}
    (hmap : ValidMemmap entries)
    (hroom : ∃ e ∈ entries, e.type = .usable ∧ bitmapSize entries ≤ e.length)
    (hcount : pmmPageCount entries % 32768 = 0 ∨ 8 ≤ pmmPageCount entries % 32768) :
    ∃ populated, pmmPopulate before memory entries = some populated ∧
      BitmapRight before entries populated [] ∧
      ((pmmInit before memory entries).isSome ↔
        0 ∉ populated.pmm.clearPages ∧ Malloc.slabCount ≤ populated.pmm.freePages) ∧
      ∀ boot, pmmInit before memory entries = some boot →
        ∃ slabs : List ℕ, slabs.length = Malloc.slabCount ∧ slabs.Nodup ∧
          (∀ page ∈ slabs, UsablePage entries page ∧
            ¬ BitmapPage boot.bitmap (bitmapSize entries) page) ∧
          BitmapRight before entries boot slabs := by
  have hbits := (pageCount_le_bits_iff entries).mpr hcount
  have hsome : (pmmPopulate before memory entries).isSome := by
    rw [pmmPopulate, Option.isSome_map]
    exact isSome_carveBitmap hroom
  obtain ⟨populated, hpopulate⟩ := Option.isSome_iff_exists.mp hsome
  have h := populated_of_pmmPopulate hmap hpopulate
  refine ⟨populated, hpopulate, h.bitmapRight_nil hmap hbits, ?_, ?_⟩
  · rw [pmmInit, hpopulate, Option.bind_some, Option.isSome_map]
    exact h.isSome_slaballocInit_iff hmap hbits
  · intro boot hboot
    rw [pmmInit, hpopulate, Option.bind_some] at hboot
    obtain ⟨s', hcall, rfl⟩ := Option.map_eq_some_iff.mp hboot
    obtain ⟨slabs, hlength, hnodup, husable, hright⟩ := h.bitmapRight hmap hbits hcall
    exact ⟨slabs, hlength, hnodup, fun page hpage => (h.usable_iff page).mp (husable page hpage),
      hright⟩

def oneEntry (length : ℕ) : List MemmapEntry :=
  [⟨0x1000, length, .usable⟩]

lemma validMemmap_oneEntry {length : ℕ} (hdvd : pageSize ∣ length) (hlt : length < 2 ^ 63) :
    ValidMemmap (oneEntry length) := by
  refine ⟨?_, ?_, List.pairwise_singleton _ _⟩
  · intro e he
    rw [List.mem_singleton.mp he]
    exact ⟨dvd_refl pageSize, hdvd⟩
  · intro e he
    rw [List.mem_singleton.mp he]
    dsimp only
    omega

theorem pmmInit_bitmap_oneEntry :
    ∃ boot slabs, pmmInit (fun _ => 0) (fun _ => 0) (oneEntry 0x20000) = some boot ∧
      slabs.length = 10 ∧ BitmapRight (fun _ => 0) (oneEntry 0x20000) boot slabs := by
  obtain ⟨populated, hpopulate, _, hiff, hright⟩ := pmmInit_bitmap (fun _ => 0) (fun _ => 0)
    (validMemmap_oneEntry (by decide) (by decide) : ValidMemmap (oneEntry 0x20000))
    ⟨_, List.mem_singleton_self _, rfl, by decide⟩ (by decide)
  have hsome : (pmmInit (fun _ => 0) (fun _ => 0) (oneEntry 0x20000)).isSome := by decide +kernel
  obtain ⟨boot, hboot⟩ := Option.isSome_iff_exists.mp hsome
  obtain ⟨slabs, hlength, _, _, hbitmap⟩ := hright boot hboot
  exact ⟨boot, slabs, hboot, hlength, hbitmap⟩

theorem pmmInit_bitmap_fails :
    (ValidMemmap (oneEntry 0x20000) ∧
      (pmmInit (fun _ => 0) (fun _ => 0) (oneEntry 0x20000)).any (fun boot =>
        bitmapTestbit boot.pmm.bitmap 2 && decide (UsablePage (oneEntry 0x20000) 2) &&
          !decide (BitmapPage boot.bitmap (bitmapSize (oneEntry 0x20000)) 2)) = true) ∧
    ValidMemmap (oneEntry 0x8000000) ∧
      (∃ e ∈ oneEntry 0x8000000, e.type = .usable ∧ bitmapSize (oneEntry 0x8000000) ≤ e.length) ∧
      8 * bitmapSize (oneEntry 0x8000000) < pmmPageCount (oneEntry 0x8000000) := by
  refine ⟨⟨validMemmap_oneEntry (by decide) (by decide), by decide +kernel⟩,
    validMemmap_oneEntry (by decide) (by decide), ⟨_, List.mem_singleton_self _, rfl, by decide⟩,
    by decide⟩

end Cottage.Mem
