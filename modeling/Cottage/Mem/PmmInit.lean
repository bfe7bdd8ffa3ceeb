import Cottage.Mem.Heap
import Cottage.Mem.PmmSearch

/-!
# The page bitmap after boot

`pmm_init`: the highest end of a usable or reclaimable entry of the memory map
gives the number of pages, the bitmap is carved from the beginning of the first
usable entry that is large enough, all of it is set, and the bits of the pages
that are left in usable entries are reset and counted.

The call does not return when no entry is large enough, as the bitmap is at the
null pointer then.
-/

namespace Cottage.Mem

open ByteMemory

inductive MemmapType
  | usable
  | bootloaderReclaimable
  | other
  deriving DecidableEq, Repr

/-- `limine_memmap_entry` -/
structure MemmapEntry where
  base : ℕ
  length : ℕ
  type : MemmapType
  deriving DecidableEq, Repr

def highestAddress (entries : List MemmapEntry) : ℕ :=
  entries.foldl (fun highest e =>
    if e.type ≠ .usable ∧ e.type ≠ .bootloaderReclaimable then highest
    else
      let top := (e.base + e.length) % 2 ^ 64
      if top > highest then top else highest) 0

/-- `pmm_page_count` -/
def pmmPageCount (entries : List MemmapEntry) : ℕ :=
  highestAddress entries / pageSize

def bitmapSize (entries : List MemmapEntry) : ℕ :=
  alignUp (pmmPageCount entries / 8) pageSize

/-- The loop that finds room for the bitmap: its physical address, and the
entries without it. -/
def carveBitmap (size : ℕ) : List MemmapEntry → Option (ℕ × List MemmapEntry)
  | [] => none
  | e :: rest =>
    if e.type = .usable ∧ e.length ≥ size then
      some (e.base, { e with base := (e.base + size) % 2 ^ 64, length := e.length - size } :: rest)
    else (carveBitmap size rest).map fun (base, rest) => (base, e :: rest)

/-- The words of the bitmap after `memset`, with what was there before. -/
def filledBitmap (size : ℕ) (before : Bitmap) : Bitmap :=
  fun i => if i < size / 8 then BitVec.allOnes 64 else before i

/-- The page numbers of the inner loop over an entry. -/
def MemmapEntry.pages (e : MemmapEntry) : List ℕ :=
  (List.range ((e.length + (pageSize - 1)) / pageSize)).map fun k =>
    (e.base + k * pageSize) % 2 ^ 64 / pageSize

def freePage (s : Pmm) (page : ℕ) : Pmm :=
  { s with freePages := (s.freePages + 1) % 2 ^ 64, bitmap := bitmapResetbit s.bitmap page }

def populate (entries : List MemmapEntry) (s : Pmm) : Pmm :=
  entries.foldl (fun s e => if e.type ≠ .usable then s else e.pages.foldl freePage s) s

/-- What `init_slab` asks of the page allocator. -/
def initSlab (s : Pmm) : Option Pmm :=
  (pmmAlloc 1 s).map Prod.fst

def slaballocInit (s : Pmm) : Option Pmm :=
  (List.range Malloc.slabCount).foldlM (fun s _ => initSlab s) s

/-- The page allocator, the physical address of its bitmap, and the memory map
as `vmm_init` gets it. -/
structure PmmBoot where
  pmm : Pmm
  bitmap : ℕ
  entries : List MemmapEntry

/-- `pmm_init` up to the call of `slaballoc_init`. -/
def pmmPopulate (before : Bitmap) (memory : Memory) (entries : List MemmapEntry) :
    Option PmmBoot :=
  (carveBitmap (bitmapSize entries) entries).map fun (base, carved) =>
    { pmm := populate carved
        { pageCount := pmmPageCount entries
          bitmap := filledBitmap (bitmapSize entries) before
          freePages := 0
          lastUsedIndex := 0
          memory := memory }
      bitmap := base
      entries := carved }

def pmmInit (before : Bitmap) (memory : Memory) (entries : List MemmapEntry) : Option PmmBoot :=
  (pmmPopulate before memory entries).bind fun boot =>
    (slaballocInit boot.pmm).map fun pmm => { boot with pmm := pmm }

def MemmapEntry.HasPage (e : MemmapEntry) (page : ℕ) : Prop :=
  e.base ≤ page * pageSize ∧ page * pageSize < e.base + e.length

instance (e : MemmapEntry) : DecidablePred e.HasPage :=
  fun _ => inferInstanceAs (Decidable (_ ∧ _))

/-- The entries are page aligned, end at a 64-bit address and do not overlap. -/
structure ValidMemmap (entries : List MemmapEntry) : Prop where
  aligned : ∀ e ∈ entries, pageSize ∣ e.base ∧ pageSize ∣ e.length
  bounded : ∀ e ∈ entries, e.base + e.length < 2 ^ 64
  apart : entries.Pairwise fun e e' => ∀ page, e.HasPage page → ¬ e'.HasPage page

def UsablePage (entries : List MemmapEntry) (page : ℕ) : Prop :=
  ∃ e ∈ entries, e.type = .usable ∧ e.HasPage page

instance (entries : List MemmapEntry) : DecidablePred (UsablePage entries) :=
  fun _ => inferInstanceAs (Decidable (∃ e ∈ _, _))

def BitmapPage (base size page : ℕ) : Prop :=
  base ≤ page * pageSize ∧ page * pageSize < base + size

instance (base size : ℕ) : DecidablePred (BitmapPage base size) :=
  fun _ => inferInstanceAs (Decidable (_ ∧ _))

variable {entries carved : List MemmapEntry} {e : MemmapEntry} {base size page : ℕ}
  {before : Bitmap} {memory : Memory} {boot : PmmBoot} {s s' : Pmm}

lemma foldl_max_spec (entries : List MemmapEntry) (highest : ℕ) :
    let result := entries.foldl (fun highest e =>
      if e.type ≠ .usable ∧ e.type ≠ .bootloaderReclaimable then highest
      else
        let top := (e.base + e.length) % 2 ^ 64
        if top > highest then top else highest) highest
    highest ≤ result ∧ (highest < 2 ^ 64 → result < 2 ^ 64) ∧
      ∀ e ∈ entries, e.type = .usable → (e.base + e.length) % 2 ^ 64 ≤ result := by
  induction entries generalizing highest with
  | nil => exact ⟨le_rfl, id, nofun⟩
  | cons e rest ih =>
    have hmod : (e.base + e.length) % 2 ^ 64 < 2 ^ 64 := Nat.mod_lt _ (by decide)
    dsimp only [List.foldl_cons]
    split_ifs with htype htop
    · obtain ⟨hle, hlt, hall⟩ := ih highest
      refine ⟨hle, hlt, List.forall_mem_cons.mpr ⟨?_, hall⟩⟩
      intro husable
      exact absurd husable htype.1
    · obtain ⟨hle, hlt, hall⟩ := ih ((e.base + e.length) % 2 ^ 64)
      exact ⟨htop.le.trans hle, fun _ => hlt hmod, List.forall_mem_cons.mpr ⟨fun _ => hle, hall⟩⟩
    · obtain ⟨hle, hlt, hall⟩ := ih highest
      refine ⟨hle, hlt, List.forall_mem_cons.mpr ⟨fun _ => ?_, hall⟩⟩
      exact (not_lt.mp htop).trans hle

lemma pmmPageCount_lt (entries : List MemmapEntry) : pmmPageCount entries < 2 ^ 52 := by
  have hlt := (foldl_max_spec entries 0).2.1 (by decide)
  rw [pmmPageCount, pageSize]
  rw [← highestAddress] at hlt
  omega

lemma UsablePage.lt_pageCount (hmap : ValidMemmap entries) (hpage : UsablePage entries page) :
    page < pmmPageCount entries := by
  obtain ⟨e, he, husable, hpage⟩ := hpage
  have hle := (foldl_max_spec entries 0).2.2 e he husable
  rw [← highestAddress, Nat.mod_eq_of_lt (hmap.bounded e he)] at hle
  obtain ⟨⟨b, hb⟩, l, hl⟩ := hmap.aligned e he
  simp only [MemmapEntry.HasPage, pmmPageCount, pageSize] at *
  omega

lemma bitmapSize_eq (entries : List MemmapEntry) :
    bitmapSize entries = (pmmPageCount entries / 8 + 4095) / 4096 * 4096 := by
  have hlt := pmmPageCount_lt entries
  rw [bitmapSize, alignUp, pageSize, Nat.mod_eq_of_lt (by omega)]

/-- The size of the bitmap is rounded down to bytes before it is rounded up to
pages. -/
lemma pageCount_le_bits_iff (entries : List MemmapEntry) :
    pmmPageCount entries ≤ 8 * bitmapSize entries ↔
      pmmPageCount entries % 32768 = 0 ∨ 8 ≤ pmmPageCount entries % 32768 := by
  rw [bitmapSize_eq]
  omega

/-- The entry without its first `size` bytes. -/
def MemmapEntry.behind (e : MemmapEntry) (size : ℕ) : MemmapEntry :=
  { e with base := (e.base + size) % 2 ^ 64, length := e.length - size }

lemma carveBitmap_eq_some (hcarve : carveBitmap size entries = some (base, carved)) :
    ∃ l e r, entries = l ++ e :: r ∧ carved = l ++ e.behind size :: r ∧ e.type = .usable ∧
      size ≤ e.length ∧ base = e.base := by
  induction entries generalizing carved with
  | nil => cases hcarve
  | cons e rest ih =>
    rw [carveBitmap] at hcarve
    split_ifs at hcarve with hfits
    · cases hcarve
      exact ⟨[], e, rest, rfl, rfl, hfits.1, hfits.2, rfl⟩
    · obtain ⟨⟨base', carved'⟩, hrest, heq⟩ := Option.map_eq_some_iff.mp hcarve
      cases heq
      obtain ⟨l, e', r, rfl, rfl, hfound⟩ := ih hrest
      exact ⟨e :: l, e', r, rfl, rfl, hfound⟩

lemma isSome_carveBitmap (h : ∃ e ∈ entries, e.type = .usable ∧ size ≤ e.length) :
    (carveBitmap size entries).isSome := by
  induction entries with
  | nil =>
    obtain ⟨e, he, _⟩ := h
    cases he
  | cons e rest ih =>
    rw [carveBitmap]
    split_ifs with hfits
    · rfl
    · rw [Option.isSome_map]
      apply ih
      obtain ⟨e', he', hfits'⟩ := h
      rcases List.mem_cons.mp he' with rfl | he'
      · exact absurd hfits' hfits
      · exact ⟨e', he', hfits'⟩

lemma hasPage_behind (hlt : e.base + e.length < 2 ^ 64) (hle : size ≤ e.length) :
    (e.behind size).HasPage page ↔ e.HasPage page ∧ ¬ BitmapPage e.base size page := by
  have hmod : (e.base + size) % 2 ^ 64 = e.base + size := Nat.mod_eq_of_lt (by omega)
  simp only [MemmapEntry.HasPage, MemmapEntry.behind, BitmapPage, hmod]
  omega

lemma ValidMemmap.carve (hmap : ValidMemmap entries) (hsize : pageSize ∣ size)
    (hcarve : carveBitmap size entries = some (base, carved)) :
    ValidMemmap carved ∧
      ∀ page, UsablePage carved page ↔ UsablePage entries page ∧ ¬ BitmapPage base size page := by
  obtain ⟨l, e, r, rfl, rfl, husable, hle, rfl⟩ := carveBitmap_eq_some hcarve
  have hmem : e ∈ l ++ e :: r := List.mem_append_right l (.head _)
  have hlt := hmap.bounded e hmem
  have hmod : (e.base + size) % 2 ^ 64 = e.base + size := Nat.mod_eq_of_lt (by omega)
  have hold {e' : MemmapEntry} (he' : e' ∈ l ++ e.behind size :: r) :
      e' = e.behind size ∨ e' ∈ l ++ e :: r := by
    rcases List.mem_append.mp he' with he' | he'
    · exact .inr (List.mem_append_left _ he')
    · rcases List.mem_cons.mp he' with rfl | he'
      · exact .inl rfl
      · exact .inr (List.mem_append_right l (.tail e he'))
  obtain ⟨hleft, hright, hcross⟩ := List.pairwise_append.mp hmap.apart
  obtain ⟨hhead, htail⟩ := List.pairwise_cons.mp hright
  refine ⟨⟨?_, ?_, ?_⟩, fun page => ?_⟩
  · intro e' he'
    rcases hold he' with rfl | he'
    · obtain ⟨hbase, hlength⟩ := hmap.aligned e hmem
      simp only [MemmapEntry.behind, hmod]
      exact ⟨Nat.dvd_add hbase hsize, Nat.dvd_sub hlength hsize⟩
    · exact hmap.aligned e' he'
  · intro e' he'
    rcases hold he' with rfl | he'
    · simp only [MemmapEntry.behind, hmod]
      omega
    · exact hmap.bounded e' he'
  · refine List.pairwise_append.mpr ⟨hleft, List.pairwise_cons.mpr ⟨?_, htail⟩, ?_⟩
    · intro e' he' page hpage
      exact hhead e' he' page ((hasPage_behind hlt hle).mp hpage).1
    · intro e₁ he₁ e₂ he₂ page hpage
      rcases List.mem_cons.mp he₂ with rfl | he₂
      · intro hpage'
        exact hcross e₁ he₁ e (.head _) page hpage ((hasPage_behind hlt hle).mp hpage').1
      · exact hcross e₁ he₁ e₂ (.tail e he₂) page hpage
  · have hapart {e' : MemmapEntry} (he' : e' ∈ l ++ r) (hpage : e'.HasPage page) :
        ¬ BitmapPage e.base size page := by
      rintro ⟨hlo, hhi⟩
      have hin : e.HasPage page := ⟨hlo, by omega⟩
      rcases List.mem_append.mp he' with he' | he'
      · exact hcross e' he' e (.head _) page hpage hin
      · exact hhead e' he' page hin hpage
    constructor
    · rintro ⟨e', he', htype, hpage⟩
      rcases List.mem_append.mp he' with he' | he'
      · exact ⟨⟨e', List.mem_append_left _ he', htype, hpage⟩,
          hapart (List.mem_append_left r he') hpage⟩
      · rcases List.mem_cons.mp he' with rfl | he'
        · obtain ⟨hpage, hnot⟩ := (hasPage_behind hlt hle).mp hpage
          exact ⟨⟨e, hmem, husable, hpage⟩, hnot⟩
        · exact ⟨⟨e', List.mem_append_right l (.tail e he'), htype, hpage⟩,
            hapart (List.mem_append_right l he') hpage⟩
    · rintro ⟨⟨e', he', htype, hpage⟩, hnot⟩
      rcases List.mem_append.mp he' with he' | he'
      · exact ⟨e', List.mem_append_left _ he', htype, hpage⟩
      · rcases List.mem_cons.mp he' with rfl | he'
        · exact ⟨e'.behind size, List.mem_append_right l (.head _), husable,
            (hasPage_behind hlt hle).mpr ⟨hpage, hnot⟩⟩
        · exact ⟨e', List.mem_append_right l (.tail _ he'), htype, hpage⟩

/-! ## Populating it -/

def usablePages (entries : List MemmapEntry) : List ℕ :=
  entries.flatMap fun e => if e.type ≠ .usable then [] else e.pages

lemma populate_eq (entries : List MemmapEntry) (s : Pmm) :
    populate entries s = (usablePages entries).foldl freePage s := by
  rw [usablePages, List.foldl_flatMap, populate]
  congr 1
  funext s e
  split <;> rfl

lemma mem_pages (haligned : pageSize ∣ e.base ∧ pageSize ∣ e.length)
    (hlt : e.base + e.length < 2 ^ 64) : page ∈ e.pages ↔ e.HasPage page := by
  obtain ⟨⟨b, hb⟩, l, hl⟩ := haligned
  simp only [MemmapEntry.pages, MemmapEntry.HasPage, List.mem_map, List.mem_range, pageSize] at *
  constructor
  · rintro ⟨k, hk, rfl⟩
    omega
  · rintro ⟨hlo, hhi⟩
    exact ⟨page - b, by omega, by omega⟩

lemma nodup_pages (hlt : e.base + e.length < 2 ^ 64) : e.pages.Nodup := by
  rw [MemmapEntry.pages]
  apply List.Nodup.map_on _ List.nodup_range
  intro k hk k' hk' heq
  rw [List.mem_range] at hk hk'
  simp only [pageSize] at *
  omega

lemma ValidMemmap.mem_usablePages (hmap : ValidMemmap entries) :
    page ∈ usablePages entries ↔ UsablePage entries page := by
  rw [usablePages, List.mem_flatMap]
  constructor
  · rintro ⟨e, he, hpage⟩
    split_ifs at hpage with htype
    · cases hpage
    · exact ⟨e, he, not_ne_iff.mp htype,
        (mem_pages (hmap.aligned e he) (hmap.bounded e he)).mp hpage⟩
  · rintro ⟨e, he, htype, hpage⟩
    refine ⟨e, he, ?_⟩
    rw [if_neg (not_ne_iff.mpr htype)]
    exact (mem_pages (hmap.aligned e he) (hmap.bounded e he)).mpr hpage

lemma ValidMemmap.nodup_usablePages (hmap : ValidMemmap entries) :
    (usablePages entries).Nodup := by
  rw [usablePages, List.nodup_flatMap]
  constructor
  · intro e he
    split_ifs
    · exact List.nodup_nil
    · exact nodup_pages (hmap.bounded e he)
  · apply hmap.apart.imp_of_mem
    intro e e' he he' hapart page hpage hpage'
    dsimp only at hpage hpage'
    split_ifs at hpage hpage'
    · cases hpage
    · cases hpage
    · cases hpage'
    · exact hapart page ((mem_pages (hmap.aligned e he) (hmap.bounded e he)).mp hpage)
        ((mem_pages (hmap.aligned e' he') (hmap.bounded e' he')).mp hpage')

lemma foldl_freePage_spec (pages : List ℕ) (s : Pmm) :
    (∀ i, bitmapTestbit (pages.foldl freePage s).bitmap i =
      (!decide (i ∈ pages) && bitmapTestbit s.bitmap i)) ∧
    (pages.foldl freePage s).freePages % 2 ^ 64 = (s.freePages + pages.length) % 2 ^ 64 ∧
    (s.freePages < 2 ^ 64 → (pages.foldl freePage s).freePages < 2 ^ 64) ∧
    (pages.foldl freePage s).pageCount = s.pageCount ∧
    (pages.foldl freePage s).lastUsedIndex = s.lastUsedIndex := by
  induction pages generalizing s with
  | nil => exact ⟨fun i => by simp, by simp, id, rfl, rfl⟩
  | cons page pages ih =>
    obtain ⟨hbits, hfree, hlt, hcount, hcursor⟩ := ih (freePage s page)
    rw [List.foldl_cons]
    refine ⟨fun i => ?_, ?_, fun _ => hlt (Nat.mod_lt _ (by decide)), hcount, hcursor⟩
    · rw [hbits, freePage, bitmapTestbit_resetbit]
      by_cases hi : i = page <;> simp [hi]
    · rw [hfree, List.length_cons]
      simp only [freePage]
      omega

lemma foldl_freePage_word {pages : List ℕ} {i : ℕ} (h : ∀ page ∈ pages, page / 64 ≠ i) (s : Pmm) :
    (pages.foldl freePage s).bitmap i = s.bitmap i := by
  induction pages generalizing s with
  | nil => rfl
  | cons page pages ih =>
    obtain ⟨hpage, hpages⟩ := List.forall_mem_cons.mp h
    rw [List.foldl_cons, ih hpages]
    exact Function.update_of_ne hpage.symm _ _

lemma bitmapTestbit_filledBitmap (before : Bitmap) {i : ℕ} (hsize : pageSize ∣ size)
    (hi : i < 8 * size) : bitmapTestbit (filledBitmap size before) i = true := by
  obtain ⟨k, rfl⟩ := hsize
  have hword : i / 64 < pageSize * k / 8 := by
    simp only [pageSize] at *
    omega
  rw [bitmapTestbit_eq_getLsbD, filledBitmap, if_pos hword, BitVec.getLsbD_allOnes]
  exact decide_eq_true (Nat.mod_lt _ (by decide))

/-- The bitmap before `slaballoc_init`. -/
structure Populated (before : Bitmap) (entries : List MemmapEntry) (boot : PmmBoot) : Prop where
  pageCount_eq : boot.pmm.pageCount = pmmPageCount entries
  lastUsedIndex_eq : boot.pmm.lastUsedIndex = 0
  carved : ValidMemmap boot.entries
  usable_iff : ∀ page, UsablePage boot.entries page ↔
    UsablePage entries page ∧ ¬ BitmapPage boot.bitmap (bitmapSize entries) page
  clear_iff : ∀ i, i < 8 * bitmapSize entries →
    (bitmapTestbit boot.pmm.bitmap i = false ↔ UsablePage boot.entries i)
  freePages_eq : boot.pmm.freePages = (usablePages boot.entries).length
  word_eq : pmmPageCount entries ≤ 8 * bitmapSize entries →
    ∀ i, bitmapSize entries / 8 ≤ i → boot.pmm.bitmap i = before i

lemma dvd_bitmapSize (entries : List MemmapEntry) : pageSize ∣ bitmapSize entries :=
  Nat.dvd_mul_left _ _

lemma length_le_of_forall_lt {pages : List ℕ} {n : ℕ} (hnodup : pages.Nodup)
    (hlt : ∀ page ∈ pages, page < n) : pages.length ≤ n := by
  have hsub : pages.toFinset ⊆ Finset.range n := by
    intro page hpage
    exact Finset.mem_range.mpr (hlt page (List.mem_toFinset.mp hpage))
  have hcard := Finset.card_le_card hsub
  rwa [List.toFinset_card_of_nodup hnodup, Finset.card_range] at hcard

lemma populated_of_pmmPopulate (hmap : ValidMemmap entries)
    (hcall : pmmPopulate before memory entries = some boot) : Populated before entries boot := by
  obtain ⟨⟨base, carved⟩, hcarve, rfl⟩ := Option.map_eq_some_iff.mp hcall
  have hsize := dvd_bitmapSize entries
  obtain ⟨hcarved, husable⟩ := hmap.carve hsize hcarve
  have hlt (page : ℕ) (hpage : page ∈ usablePages carved) : page < pmmPageCount entries :=
    ((husable page).mp (hcarved.mem_usablePages.mp hpage)).1.lt_pageCount hmap
  have hcount := pmmPageCount_lt entries
  have hlength := length_le_of_forall_lt hcarved.nodup_usablePages hlt
  constructor
  · dsimp only
    rw [populate_eq, (foldl_freePage_spec _ _).2.2.2.1]
  · dsimp only
    rw [populate_eq, (foldl_freePage_spec _ _).2.2.2.2]
  · exact hcarved
  · exact husable
  · intro i hi
    dsimp only
    rw [populate_eq, (foldl_freePage_spec _ _).1, bitmapTestbit_filledBitmap before hsize hi,
      Bool.and_true, Bool.not_eq_false', decide_eq_true_eq, hcarved.mem_usablePages]
  · obtain ⟨_, hfree, hbound, _⟩ := foldl_freePage_spec (usablePages carved)
      { pageCount := pmmPageCount entries
        bitmap := filledBitmap (bitmapSize entries) before
        freePages := 0
        lastUsedIndex := 0
        memory := memory }
    dsimp only at hfree hbound ⊢
    rw [populate_eq]
    omega
  · intro hbits i hi
    dsimp only
    rw [populate_eq, foldl_freePage_word]
    · exact if_neg (not_lt.mpr hi)
    · intro page hpage
      have hpage := hlt page hpage
      simp only [pageSize] at *
      omega

lemma Populated.clearPages_eq (h : Populated before entries boot) (hmap : ValidMemmap entries)
    (hbits : pmmPageCount entries ≤ 8 * bitmapSize entries) :
    boot.pmm.clearPages = (usablePages boot.entries).toFinset := by
  ext page
  rw [mem_clearPages, h.pageCount_eq, List.mem_toFinset, h.carved.mem_usablePages]
  constructor
  · rintro ⟨hlt, hclear⟩
    exact (h.clear_iff page (hlt.trans_le hbits)).mp hclear
  · intro husable
    have hlt := ((h.usable_iff page).mp husable).1.lt_pageCount hmap
    exact ⟨hlt, (h.clear_iff page (hlt.trans_le hbits)).mpr husable⟩

end Cottage.Mem
