import Cottage.Elf.Load

/-!
# What a file can do to the kernel

`elf_load` trusts the numbers in the file.  A table of program headers or a
segment behind the end of the file makes a read copy almost all of memory; more
bytes in the file than in memory are written behind the frames of the segment;
and a segment without pages, or with more than there are, makes the page
allocator panic.  A segment at an address of the kernel's half replaces the
kernel's own words, as all pagemaps share the tables of that half.
-/

namespace Cottage.Elf

open ByteMemory ByteString Mem Mmap Tmpfs Logged

variable {inp : Input} {target : Target} {size offset loc count : ℕ} {s s' : LoadState}

lemma returns_resourceRead {r : ℕ × List UInt8} :
    Returns Store.Inside (resourceRead inp target size offset loc count) r ↔
      offset + inp.copied loc count ≤ size ∧ inp.SourceMapped loc count ∧
        (inp.copied loc count, inp.bytes loc count) = r := by
  rw [resourceRead, returns_bind]
  constructor
  · rintro ⟨u, hcopy, hrest⟩
    refine ⟨returns_record.mp hcopy _ (.head _), ?_⟩
    split_ifs at hrest with hmapped
    · exact ⟨hmapped, returns_pure.mp hrest⟩
    · exact absurd hrest not_returns_stop
  · rintro ⟨hinside, hmapped, hr⟩
    refine ⟨(), returns_record.mpr (List.forall_mem_singleton.mpr hinside), ?_⟩
    rw [if_pos hmapped]
    exact returns_pure.mpr hr

lemma asInt64_nonneg (h : count ≤ directMapSize) : 0 ≤ asInt64 count := by
  have hlt : count < 2 ^ 63 := h.trans_lt (by decide)
  rw [asInt64, if_pos hlt]
  exact Int.natCast_nonneg count

def NeedsPages {α : Type} (x : Except Halt α) : Prop :=
  ∀ h, x = .error h → h = .noPage

section NeedsPages

variable {α β : Type} {x : Except Halt α} {m m' : Machine}

lemma needsPages_ok (a : α) : NeedsPages (.ok a) := by
  intro h herror
  cases herror

lemma ne_noPage_of_ok {a : α} (h : x = .ok a) : x ≠ .error .noPage := by
  rintro rfl
  cases h

lemma needsPages_answered (x : Option α) : NeedsPages (answered x) := by
  intro h herror
  cases x with
  | none => exact (Except.error.inj herror).symm
  | some a => cases herror

lemma NeedsPages.bind {f : α → Except Halt β} (hx : NeedsPages x) (hf : ∀ a, NeedsPages (f a)) :
    NeedsPages (x.bind f) := by
  cases x with
  | error e => exact fun h herror => hx h (congrArg _ (Except.error.inj herror))
  | ok a => exact hf a

lemma NeedsPages.map {f : α → β} (hx : NeedsPages x) : NeedsPages (x.map f) := by
  cases x with
  | error e => exact fun h herror => hx h (congrArg _ (Except.error.inj herror))
  | ok a => exact needsPages_ok _

lemma needsPages_mapPageIn (top virt phys flags : ℕ) (pages : ℕ → ℕ+) (m : Machine) :
    NeedsPages (mapPageIn top virt phys flags pages m) :=
  (needsPages_answered _).map

lemma needsPages_mapLocals (virt phys flags : ℕ) (pages : ℕ → ℕ → ℕ+) (refs : List ℕ) (i : ℕ)
    (m : Machine) : NeedsPages (mapLocals virt phys flags pages refs i m) := by
  induction refs generalizing i m with
  | nil => exact needsPages_ok _
  | cons ref refs ih =>
    rw [mapLocals]
    split_ifs with hcovers
    · refine (needsPages_mapPageIn _ _ _ _ _ _).bind fun a => ?_
      dsimp only
      split_ifs with hok
      · exact ih _ _
      · exact needsPages_ok _
    · exact ih _ _

lemma needsPages_mmapMapPageInRange (global virt phys prot : ℕ) (pages : ℕ → ℕ → ℕ+)
    (m : Machine) : NeedsPages (mmapMapPageInRange global virt phys prot pages m) := by
  refine (needsPages_mapPageIn _ _ _ _ _ _).bind fun a => ?_
  dsimp only
  split_ifs with hfirst
  · exact needsPages_ok _
  · refine (needsPages_mapPageIn _ _ _ _ _ _).bind fun a => ?_
    split_ifs with hsecond
    · exact needsPages_ok _
    · exact needsPages_mapLocals _ _ _ _ _ _ _

lemma needsPages_mapPages (global base phys prot : ℕ) (pages : ℕ → ℕ → ℕ → ℕ+) (ks : List ℕ)
    (m : Machine) : NeedsPages (mapPages global base phys prot pages ks m) := by
  induction ks generalizing m with
  | nil => exact needsPages_ok _
  | cons k ks ih => exact (needsPages_mmapMapPageInRange _ _ _ _ _ _).bind fun a => ih a.1

lemma needsPages_mmapMapRange (pm virt phys size prot flags : ℕ) (shadow : ℕ+)
    (pages : ℕ → ℕ → ℕ → ℕ+) (m : Machine) :
    NeedsPages (mmapMapRange pm virt phys size prot flags shadow pages m) :=
  (needsPages_answered _).map.bind fun _ => (needsPages_mapPages _ _ _ _ _ _ _).map

end NeedsPages

variable {m : Machine} {len : ℕ}

lemma allocFrames_iff {frames : Option ℕ+}
    (hpossible : allocFrames frames count m ≠ .error .noPage) :
    (∃ r, allocFrames frames count m = .ok r) ↔ frames.isSome ∧ count ≠ 0 := by
  cases frames with
  | none => simp [allocFrames]
  | some page =>
    simp only [allocFrames, Option.elim_some, Option.isSome_some, true_and] at hpossible ⊢
    rw [pmmAllocMany] at hpossible ⊢
    split_ifs with hcount hfresh
    · refine iff_of_false ?_ (not_not.mpr hcount)
      rintro ⟨r, hr⟩
      cases hr
    · exact iff_of_true ⟨_, rfl⟩ hcount
    · rw [if_neg hcount, if_neg hfresh] at hpossible
      exact absurd rfl hpossible

lemma room_of_allocFrames {frames : Option ℕ+} {m' : Machine} {addr : ℕ}
    (hcall : allocFrames frames count m = .ok (m', addr)) : count * pageSize ≤ directMapSize := by
  cases frames with
  | none => cases hcall
  | some page =>
    rw [allocFrames, Option.elim_some, pmmAllocMany] at hcall
    split_ifs at hcall with hcount hfresh
    have hmem : count - 1 ∈ List.range count := List.mem_range.mpr (by omega)
    have hlast := (hfresh _ (List.mem_map.mpr ⟨_, hmem, rfl⟩)).2.2.1
    have hmul : (count - 1) * pageSize + pageSize = count * pageSize := by
      rw [← Nat.succ_mul, Nat.succ_eq_add_one, Nat.sub_add_cancel (Nat.pos_of_ne_zero hcount)]
    omega

lemma mapFrames_iff {tables : Option (ℕ+ × (ℕ → ℕ → ℕ → ℕ+))} {pm virt phys prot : ℕ}
    (hpossible : mapFrames tables pm virt phys size prot m ≠ .error .noPage) :
    (∃ r, mapFrames tables pm virt phys size prot m = .ok r) ↔ tables.isSome := by
  cases tables with
  | none => simp [mapFrames]
  | some answers =>
    refine iff_of_true ?_ rfl
    cases hcall : mapFrames (some answers) pm virt phys size prot m with
    | ok r => exact ⟨r, rfl⟩
    | error h =>
      have hpage : h = .noPage := needsPages_mmapMapRange _ _ _ _ _ _ _ _ _ h hcall
      rw [hcall, hpage] at hpossible
      exact absurd rfl hpossible

lemma ok_of_mapFrames {tables : Option (ℕ+ × (ℕ → ℕ → ℕ → ℕ+))} {pm virt phys prot : ℕ}
    {m' : Machine} {ok : Bool} (hcall : mapFrames tables pm virt phys size prot m = .ok (m', ok)) :
    ok = true := by
  cases tables with
  | none => cases hcall
  | some answers =>
    obtain ⟨_, _, hrest⟩ := bind_eq_ok.mp hcall
    obtain ⟨_, _, heq⟩ := map_eq_ok.mp hrest
    exact (Prod.mk.inj heq).2.symm

lemma mallocPath_iff {found : Bool} (hpossible : mallocPath found len ≠ .error .noPage) :
    mallocPath found len = .ok () ↔ found = true := by
  rw [mallocPath] at hpossible ⊢
  cases found with
  | false => simp
  | true =>
    simp only [Bool.not_true, Bool.false_eq_true, if_false, iff_true] at hpossible ⊢
    split_ifs at hpossible ⊢ with hroom
    · rfl
    · exact absurd rfl hpossible

lemma room_of_mallocPath {found : Bool} (hcall : mallocPath found len = .ok ()) :
    blockRoom len ≤ directMapSize := by
  rw [mallocPath] at hcall
  split_ifs at hcall with hfound hroom
  exact hroom

/-- The room is that of a block that `malloc` returns. -/
theorem blockRoom_of_malloc {h h' : Malloc.Heap} {live : List Malloc.Block} {page ptr : ℕ}
    (hI : Malloc.Inv h live) (hcall : Malloc.malloc len page h = some (h', ptr)) :
    Malloc.usableAt h' ptr = blockRoom len ∧ blockRoom len ≤ directMapSize := by
  rw [Malloc.malloc] at hcall
  cases hslab : Malloc.findSlab ((8 + len) % 2 ^ 64) with
  | some c =>
    rw [hslab] at hcall
    obtain ⟨hc, _⟩ := Malloc.findSlab_some hslab
    obtain ⟨hallocated, hentry⟩ := hI.allocated_slabAlloc hc (Nat.zero_le _) hcall
    obtain ⟨_, _, hoffset, hheader⟩ := hallocated.inv.entry_header hentry
    have hsize : ∀ c < Malloc.slabCount, Malloc.entSize c ≤ directMapSize := by decide
    rw [Malloc.usableAt, if_neg hoffset, hheader, blockRoom, hslab]
    exact ⟨rfl, hsize c hc⟩
  | none =>
    rw [hslab] at hcall
    obtain ⟨h₁, halloc, heq⟩ := Option.map_eq_some_iff.mp hcall
    cases heq
    have hvalid := (Option.ite_none_right_eq_some.mp halloc).1.1
    have hpages : divRoundup len pageSize < 2 ^ 52 := by
      simp only [divRoundup, pageSize]
      omega
    obtain ⟨⟨k, hk⟩, _, hend⟩ := hvalid
    simp only [Nat.mod_eq_of_lt (show divRoundup len pageSize + 1 < 2 ^ 64 by omega)] at hk hend
    have hoffset : pageOffset (page + higherHalf + pageSize) = 0 := by
      rw [pageOffset_eq]
      simp only [pageSize, higherHalf] at *
      omega
    rw [Malloc.usableAt, if_pos hoffset, Nat.add_sub_cancel,
      read64_write64_of_disjoint _ (.inl le_rfl), read64_write64,
      Nat.mod_eq_of_lt (by omega), blockRoom, hslab]
    refine ⟨rfl, ?_⟩
    rw [Nat.succ_mul] at hend
    exact (Nat.le_add_right _ _).trans ((Nat.le_add_left _ _).trans hend)

theorem blockRoom_of_malloc_five :
    ∃ h h' ptr, Malloc.malloc 5 0 h = some (h', ptr) ∧ Malloc.usableAt h' ptr = blockRoom 5 := by
  obtain ⟨h, hinit, hany⟩ := Malloc.exists_initial_of_bootHeap_any
    (fun h => (Malloc.malloc 5 0 h).isSome) (by decide +kernel)
  obtain ⟨⟨h', ptr⟩, hcall⟩ := Option.isSome_iff_exists.mp hany
  exact ⟨h, h', ptr, hcall, (blockRoom_of_malloc (Malloc.inv_of_initial hinit) hcall).1⟩

structure PathFits (inp : Input) (answers : Answers) (ph : ProgramHeader) : Prop where
  found : answers.buffer = true
  fits : inp.copied ph.offset ph.fileSize ≤ blockRoom ph.fileSize
  mapped : inp.SourceMapped ph.offset ph.fileSize

structure SegmentFits (inp : Input) (answers : Answers) (ph : ProgramHeader) : Prop where
  nonempty : ph.pageCount ≠ 0
  frames : answers.frames.isSome
  tables : answers.tables.isSome
  fits : pageOffset ph.vaddr + inp.copied ph.offset ph.fileSize ≤ ph.pageCount * pageSize
  mapped : inp.SourceMapped ph.offset ph.fileSize
  lower : ∀ page ∈ mappedPages (ph.virt inp.base) (ph.pageCount * pageSize),
    ¬ Paging.HigherHalf page

structure EntryFits (inp : Input) (header : Header) (i : ℕ) : Prop where
  table : inp.copied (header.entryOffset i) sizeofProgramHeader ≤ sizeofProgramHeader
  mapped : inp.SourceMapped (header.entryOffset i) sizeofProgramHeader
  interp : (inp.entry header i).type = elfPtypeInterp →
    PathFits inp (inp.answers i) (inp.entry header i)
  load : (inp.entry header i).type = elfPtypeLoad →
    SegmentFits inp (inp.answers i) (inp.entry header i)

variable {ph : ProgramHeader} {answers : Answers} {header : Header} {i : ℕ} {ok : Bool}

lemma pathFits_of_returns (h : Returns Store.Inside (loadInterp inp answers.buffer ph s) (s', ok)) :
    PathFits inp answers ph ∧ ok = true := by
  obtain ⟨u, hmalloc, h⟩ := returns_bind.mp h
  obtain ⟨⟨bytesRead, path⟩, hread, h⟩ := returns_bind.mp h
  have hcall := returns_lift.mp hmalloc
  obtain ⟨hinside, hmapped, hr⟩ := returns_resourceRead.mp hread
  cases hr
  rw [Nat.zero_add] at hinside
  have hfound := (mallocPath_iff (ne_noPage_of_ok hcall)).mp hcall
  have hnonneg := asInt64_nonneg (hinside.trans (room_of_mallocPath hcall))
  dsimp only at h
  rw [if_neg (not_lt.mpr hnonneg)] at h
  exact ⟨⟨hfound, hinside, hmapped⟩, (Prod.mk.inj (returns_pure.mp h)).2.symm⟩

lemma safe_loadInterp (hpossible : (loadInterp inp answers.buffer ph s).result ≠ .error .noPage)
    (h : PathFits inp answers ph) : Safe Store.Inside (loadInterp inp answers.buffer ph s) := by
  obtain ⟨hfound, hfits, hmapped⟩ := h
  have hcall := (mallocPath_iff (ne_error_of_bind hpossible).1).mpr hfound
  have hnonneg := asInt64_nonneg (hfits.trans (room_of_mallocPath hcall))
  refine safe_bind.mpr ⟨(), returns_lift.mpr hcall, safe_bind.mpr ⟨_, returns_resourceRead.mpr
    ⟨by omega, hmapped, rfl⟩, ?_⟩⟩
  dsimp only
  rw [if_neg (not_lt.mpr hnonneg)]
  exact safe_iff_returns.mpr ⟨_, returns_pure.mpr rfl⟩

lemma segmentFits_of_returns (h : Returns Store.Inside (loadSegment inp answers ph s) (s', ok)) :
    SegmentFits inp answers ph ∧ ok = true := by
  obtain ⟨⟨m₁, addr⟩, halloc, h⟩ := returns_bind.mp h
  obtain ⟨⟨m₂, done⟩, hmap, h⟩ := returns_bind.mp h
  have halloc := returns_lift.mp halloc
  have hmap := returns_lift.mp hmap
  obtain rfl := ok_of_mapFrames hmap
  obtain ⟨u, hentries, h⟩ := returns_bind.mp h
  obtain ⟨⟨bytesRead, bytes⟩, hread, h⟩ := returns_bind.mp h
  obtain ⟨hinside, hmapped, hr⟩ := returns_resourceRead.mp hread
  cases hr
  have hframes := (allocFrames_iff (ne_noPage_of_ok halloc)).mp ⟨_, halloc⟩
  have htables := (mapFrames_iff (ne_noPage_of_ok hmap)).mp ⟨_, hmap⟩
  have hnonneg : 0 ≤ asInt64 (inp.copied ph.offset ph.fileSize) :=
    asInt64_nonneg ((Nat.le_add_left _ _).trans (hinside.trans (room_of_allocFrames halloc)))
  have hlower := List.forall_mem_map.mp (returns_record.mp hentries)
  refine ⟨⟨hframes.2, hframes.1, htables, hinside, hmapped, hlower⟩, ?_⟩
  rw [← (Prod.mk.inj (returns_pure.mp h)).2]
  exact decide_eq_true hnonneg

lemma safe_loadSegment (hpossible : (loadSegment inp answers ph s).result ≠ .error .noPage)
    (h : SegmentFits inp answers ph) : Safe Store.Inside (loadSegment inp answers ph s) := by
  obtain ⟨hcount, hframes, htables, hfits, hmapped, hlower⟩ := h
  obtain ⟨hpossible₁, hpossible₂⟩ := ne_error_of_bind hpossible
  obtain ⟨⟨m₁, addr⟩, halloc⟩ := (allocFrames_iff hpossible₁).mpr ⟨hframes, hcount⟩
  obtain ⟨hpossible₃, _⟩ := ne_error_of_bind (hpossible₂ _ halloc)
  obtain ⟨⟨m₂, done⟩, hmap⟩ := (mapFrames_iff hpossible₃).mpr htables
  obtain rfl := ok_of_mapFrames hmap
  refine safe_bind.mpr ⟨_, returns_lift.mpr halloc, safe_bind.mpr ⟨_, returns_lift.mpr hmap,
    safe_bind.mpr ⟨(), returns_record.mpr (List.forall_mem_map.mpr hlower), ?_⟩⟩⟩
  exact safe_bind.mpr ⟨_, returns_resourceRead.mpr ⟨hfits, hmapped, rfl⟩,
    safe_iff_returns.mpr ⟨_, returns_pure.mpr rfl⟩⟩

/-! ## The loop -/

lemma fits_of_returns (h : Returns Store.Inside (loadProgramHeader inp answers ph s) (s', ok)) :
    (ph.type = elfPtypeInterp → PathFits inp answers ph) ∧
      (ph.type = elfPtypeLoad → SegmentFits inp answers ph) ∧ ok = true := by
  rw [loadProgramHeader] at h
  split_ifs at h with hinterp hphdr hload
  · obtain ⟨hfits, hok⟩ := pathFits_of_returns h
    refine ⟨fun _ => hfits, fun hload => ?_, hok⟩
    rw [hinterp] at hload
    exact absurd hload (by decide)
  · refine ⟨fun hinterp' => absurd hinterp' hinterp, fun hload => ?_,
      (Prod.mk.inj (returns_pure.mp h)).2.symm⟩
    rw [hphdr] at hload
    exact absurd hload (by decide)
  · obtain ⟨hfits, hok⟩ := segmentFits_of_returns h
    exact ⟨fun hinterp' => absurd hinterp' hinterp, fun _ => hfits, hok⟩
  · exact ⟨fun hinterp' => absurd hinterp' hinterp, fun hload' => absurd hload' hload,
      (Prod.mk.inj (returns_pure.mp h)).2.symm⟩

lemma safe_loadProgramHeader
    (hpossible : (loadProgramHeader inp answers ph s).result ≠ .error .noPage)
    (hinterp : ph.type = elfPtypeInterp → PathFits inp answers ph)
    (hload : ph.type = elfPtypeLoad → SegmentFits inp answers ph) :
    Safe Store.Inside (loadProgramHeader inp answers ph s) := by
  rw [loadProgramHeader] at hpossible ⊢
  split_ifs at hpossible ⊢ with htype hphdr htype'
  · exact safe_loadInterp hpossible (hinterp htype)
  · exact safe_iff_returns.mpr ⟨_, returns_pure.mpr rfl⟩
  · exact safe_loadSegment hpossible (hload htype')
  · exact safe_iff_returns.mpr ⟨_, returns_pure.mpr rfl⟩

lemma entryFits_of_returns (h : Returns Store.Inside (loadEntry inp header i s) (s', ok)) :
    EntryFits inp header i ∧ ok = true := by
  obtain ⟨⟨_, bytes⟩, hread, hrest⟩ := returns_bind.mp h
  obtain ⟨hinside, hmapped, hr⟩ := returns_resourceRead.mp hread
  cases hr
  rw [Nat.zero_add] at hinside
  obtain ⟨hinterp, hload, hok⟩ := fits_of_returns hrest
  exact ⟨⟨hinside, hmapped, hinterp, hload⟩, hok⟩

lemma safe_loadEntry_iff (hpossible : (loadEntry inp header i s).result ≠ .error .noPage) :
    Safe Store.Inside (loadEntry inp header i s) ↔ EntryFits inp header i := by
  constructor
  · intro h
    obtain ⟨⟨s', ok⟩, h⟩ := safe_iff_returns.mp h
    exact (entryFits_of_returns h).1
  · rintro ⟨hinside, hmapped, hinterp, hload⟩
    have hread : Returns Store.Inside (resourceRead inp .programHeader sizeofProgramHeader 0
        (header.entryOffset i) sizeofProgramHeader) _ :=
      returns_resourceRead.mpr ⟨by omega, hmapped, rfl⟩
    have hpossible' := (ne_error_of_bind hpossible).2 _ hread.1
    exact safe_bind.mpr ⟨_, hread, safe_loadProgramHeader hpossible' hinterp hload⟩

/-- The program headers of a file that is not refused. -/
structure FileFits (inp : Input) : Prop where
  mapped : inp.SourceMapped 0 sizeofHeader
  entries : inp.elfHeader.Supported →
    ∀ i < inp.elfHeader.progHeaderNumEntries, EntryFits inp inp.elfHeader i

lemma copied_header (inp : Input) : inp.copied 0 sizeofHeader ≤ sizeofHeader := by
  unfold Input.copied tmpfsResourceRead sizeofHeader
  dsimp only
  split_ifs with hsize
  · omega
  · exact le_rfl

lemma safe_loadHeader_iff (hpossible : (loadHeader inp header s).result ≠ .error .noPage) :
    Safe Store.Inside (loadHeader inp header s) ↔
      (header.Supported → ∀ i < header.progHeaderNumEntries, EntryFits inp header i) := by
  rw [loadHeader] at hpossible ⊢
  split_ifs at hpossible ⊢ with hsupported
  · have hloop : Safe Store.Inside (loop (loadEntry inp header)
        (List.range header.progHeaderNumEntries)
        { s with info := s.info.map fun _ => newInfo inp header }) ↔
          ∀ i ∈ List.range header.progHeaderNumEntries, EntryFits inp header i := by
      refine safe_loop_iff (e := .noPage) ?_ ?_ hpossible
      · exact fun i _ s hpossible => safe_loadEntry_iff hpossible
      · exact fun i _ s s' ok h => (entryFits_of_returns h).2
    rw [hloop]
    simp only [List.mem_range, hsupported, true_implies]
  · exact iff_of_true (safe_iff_returns.mpr ⟨_, returns_pure.mpr rfl⟩)
      fun h => absurd h hsupported

/-! ## The kernel's half -/

lemma result_resourceRead (hmapped : inp.SourceMapped loc count) :
    (resourceRead inp target size offset loc count).result =
      .ok (inp.copied loc count, inp.bytes loc count) := by
  rw [resourceRead, result_bind_of_ok (a := ()) rfl, if_pos hmapped]
  rfl

lemma result_loadEntry (hmapped : inp.SourceMapped (header.entryOffset i) sizeofProgramHeader) :
    (loadEntry inp header i s).result =
      (loadProgramHeader inp (inp.answers i) (inp.entry header i) s).result := by
  rw [loadEntry, result_bind_of_ok (result_resourceRead hmapped), Input.entry]

lemma result_elfLoad (hmapped : inp.SourceMapped 0 sizeofHeader) :
    (elfLoad inp s).result = (loadHeader inp inp.elfHeader s).result := by
  have hnonneg : ¬ asInt64 (inp.copied 0 sizeofHeader) < 0 :=
    not_lt.mpr (asInt64_nonneg ((copied_header inp).trans (by decide)))
  rw [elfLoad, result_bind_of_ok (result_resourceRead hmapped), Input.elfHeader]
  dsimp only
  rw [if_neg hnonneg]

lemma read_of_result {target : Target} {size offset loc count : ℕ} {r : ℕ × List UInt8}
    (hread : (resourceRead inp target size offset loc count).result = .ok r) :
    inp.SourceMapped loc count ∧ r = (inp.copied loc count, inp.bytes loc count) := by
  rw [resourceRead, result_bind_of_ok (a := ()) rfl] at hread
  split_ifs at hread with hmapped
  · exact ⟨hmapped, (Except.ok.inj hread).symm⟩
  · cases hread

lemma calls_of_loadSegment (hcall : (loadSegment inp answers ph s).result = .ok (s', ok)) :
    ∃ page shadow pages m₁ addr m₂, pmmAllocMany page ph.pageCount s.machine = .ok (m₁, addr) ∧
      mmapMapRange inp.pagemap (ph.virt inp.base) addr (ph.pageCount * pageSize) ph.prot mmapMapAnon
        shadow pages m₁ = .ok (m₂, true) ∧
      s'.machine = Userland.storeMemory m₂ (storeBytes m₂.tables.memory
        (addr + pageOffset ph.vaddr + higherHalf) (inp.bytes ph.offset ph.fileSize)) := by
  rw [loadSegment, result_bind_ok] at hcall
  obtain ⟨⟨m₁, addr⟩, halloc, hcall⟩ := hcall
  obtain ⟨⟨m₂, done⟩, hmap, hcall⟩ := result_bind_ok.mp hcall
  have halloc' : allocFrames answers.frames ph.pageCount s.machine = .ok (m₁, addr) := halloc
  have hmap' : mapFrames answers.tables inp.pagemap (ph.virt inp.base) addr
      (ph.pageCount * pageSize) ph.prot m₁ = .ok (m₂, done) := hmap
  obtain rfl := ok_of_mapFrames hmap'
  rw [result_bind_of_ok (a := ()) rfl] at hcall
  obtain ⟨⟨bytesRead, bytes⟩, hread, hcall⟩ := result_bind_ok.mp hcall
  have hbytes := (Prod.mk.inj (read_of_result hread).2).2
  have hs' := (Prod.mk.inj (Except.ok.inj hcall)).1
  cases hframes : answers.frames with
  | none =>
    rw [hframes] at halloc'
    cases halloc'
  | some page =>
    cases htables : answers.tables with
    | none =>
      rw [htables] at hmap'
      cases hmap'
    | some tables =>
      obtain ⟨shadow, pages⟩ := tables
      rw [hframes] at halloc'
      rw [htables] at hmap'
      exact ⟨page, shadow, pages, m₁, addr, m₂, halloc', hmap', by rw [← hs', hbytes]⟩

lemma machine_of_loadProgramHeader (htype : ph.type ≠ elfPtypeLoad)
    (hcall : (loadProgramHeader inp answers ph s).result = .ok (s', ok)) :
    s'.machine = s.machine := by
  rw [loadProgramHeader] at hcall
  split_ifs at hcall
  · rw [loadInterp, result_bind_ok] at hcall
    obtain ⟨_, _, hcall⟩ := hcall
    obtain ⟨⟨bytesRead, path⟩, _, hcall⟩ := result_bind_ok.mp hcall
    dsimp only at hcall
    split_ifs at hcall
    · rw [← (Prod.mk.inj (Except.ok.inj hcall)).1]
    · rw [← (Prod.mk.inj (Except.ok.inj hcall)).1]
  · rw [← (Prod.mk.inj (Except.ok.inj hcall)).1]
    rfl
  · rw [← (Prod.mk.inj (Except.ok.inj hcall)).1]

/-- The words of the kernel's half, in the kernel's tables and in all pagemaps. -/
def KernelKept (m m' : Machine) : Prop :=
  ∀ top, top = m.kernel ∨ (∃ pm < m.pagemaps.count, top = m.top pm) →
    ∀ virt, Paging.HigherHalf virt →
      Paging.pte m'.tables.memory top virt = Paging.pte m.tables.memory top virt

def InOrder (tops : List ℕ) (start m : Machine) : Prop :=
  (∃ label, World m m.tables.owned tops label) ∧ m.pagemaps.count = start.pagemaps.count ∧
    ∀ top ∈ tops, ∀ virt, Paging.HigherHalf virt →
      Paging.pte m.tables.memory top virt = Paging.pte start.tables.memory top virt

lemma InOrder.loadSegment {tops : List ℕ} {start : Machine} (h : InOrder tops start s.machine)
    (hpm : inp.pagemap < start.pagemaps.count) (hfits : SegmentFits inp answers ph)
    (hcall : (loadSegment inp answers ph s).result = .ok (s', ok)) :
    InOrder tops start s'.machine := by
  obtain ⟨⟨label, hw⟩, hcount, hsame⟩ := h
  obtain ⟨page, shadow, pages, m₁, addr, m₂, halloc, hmap, hs'⟩ := calls_of_loadSegment hcall
  obtain ⟨rfl, _, t₁, rfl, hw₁, _, hunseen₁, hnew⟩ := hw.pmmAllocMany halloc
  obtain ⟨_, t₂, label', rfl, hw₂, hkept, hpages⟩ := hw₁.mmapMapRange_any (hcount ▸ hpm) hmap
  have hregion : FrameRegion { s.machine with tables := t₁ } label page ph.pageCount :=
    fun k hk => (hnew k hk).2.1
  have hagree : AgreeOutside t₂.memory (storeBytes t₂.memory (page + pageOffset ph.vaddr +
      higherHalf) (inp.bytes ph.offset ph.fileSize)) (page + higherHalf)
      (ph.pageCount * pageSize) := by
    intro x hx
    apply agreeOutside_storeBytes
    have hlength : (inp.bytes ph.offset ph.fileSize).length = inp.copied ph.offset ph.fileSize := by
      rw [Input.bytes, List.length_map, List.length_range]
    have := hfits.fits
    omega
  obtain ⟨hw₃, hunseen₃⟩ := hw₂.writeRegion (hregion.of_kept hkept rfl rfl) hagree
  rw [hs']
  refine ⟨⟨label', hw₃⟩, hcount, fun top htop virt hhigher => ?_⟩
  rw [← hsame top htop virt hhigher, ← (hunseen₁ top htop).pte_eq]
  refine ((hunseen₃ top htop).pte_eq virt).trans (hpages.old top htop virt ?_)
  rintro k hk hcovers ⟨hpage, _⟩
  refine hfits.lower _ (List.mem_filter.mpr ⟨List.mem_map_of_mem hk, decide_eq_true hcovers⟩) ?_
  exact (Paging.higherHalf_congr hpage).mpr hhigher

lemma InOrder.loadEntry {tops : List ℕ} {start : Machine} (h : InOrder tops start s.machine)
    (hpm : inp.pagemap < start.pagemaps.count) (hfits : EntryFits inp header i)
    (hcall : (loadEntry inp header i s).result = .ok (s', ok)) :
    InOrder tops start s'.machine := by
  rw [result_loadEntry hfits.mapped] at hcall
  by_cases htype : (inp.entry header i).type = elfPtypeLoad
  · rw [loadProgramHeader, if_neg (by rw [htype]; decide), if_neg (by rw [htype]; decide),
      if_pos htype] at hcall
    exact h.loadSegment hpm (hfits.load htype) hcall
  · rwa [machine_of_loadProgramHeader htype hcall]

lemma kernelKept_of_fits (hs : Mmap.system.Reachable s.machine)
    (hpm : inp.pagemap < s.machine.pagemaps.count) (hfits : FileFits inp)
    (hcall : (elfLoad inp s).result = .ok (s', ok)) : KernelKept s.machine s'.machine := by
  obtain ⟨tops, label, hw⟩ := ordered_of_reachable hs
  have hstart : InOrder tops s.machine s.machine := ⟨⟨label, hw⟩, rfl, fun _ _ _ _ => rfl⟩
  have hend : InOrder tops s.machine s'.machine := by
    rw [result_elfLoad hfits.mapped, loadHeader] at hcall
    split_ifs at hcall with hsupported
    · refine loop_invariant (I := fun s₁ => InOrder tops s.machine s₁.machine) ?_ hstart hcall
      intro i hi s₁ s₂ ok₁ h₁ hround
      exact h₁.loadEntry hpm (hfits.entries hsupported i (List.mem_range.mp hi)) hround
    · rwa [← (Prod.mk.inj (Except.ok.inj hcall)).1]
  rintro top (rfl | ⟨pm, hlt, rfl⟩)
  · exact hend.2.2 _ hw.kernelSpace.kernel_mem
  · exact hend.2.2 _ (hw.top_mem pm hlt)

lemma safe_elfLoad_iff (hpossible : (elfLoad inp s).result ≠ .error .noPage) :
    Safe Store.Inside (elfLoad inp s) ↔ FileFits inp := by
  have hcopied := copied_header inp
  have hnonneg : ¬ asInt64 (inp.copied 0 sizeofHeader) < 0 :=
    not_lt.mpr (asInt64_nonneg (hcopied.trans (by decide)))
  constructor
  · intro h
    obtain ⟨⟨bytesRead, bytes⟩, hread, hrest⟩ := safe_bind.mp h
    obtain ⟨_, hmapped, hr⟩ := returns_resourceRead.mp hread
    cases hr
    have hpossible' := (ne_error_of_bind hpossible).2 _ hread.1
    dsimp only at hrest hpossible'
    rw [if_neg hnonneg] at hrest hpossible'
    exact ⟨hmapped, (safe_loadHeader_iff hpossible').mp hrest⟩
  · rintro ⟨hmapped, hentries⟩
    have hread : Returns Store.Inside (resourceRead inp .header sizeofHeader 0 0 sizeofHeader) _ :=
      returns_resourceRead.mpr ⟨by omega, hmapped, rfl⟩
    have hpossible' := (ne_error_of_bind hpossible).2 _ hread.1
    refine safe_bind.mpr ⟨_, hread, ?_⟩
    dsimp only at hpossible' ⊢
    rw [if_neg hnonneg] at hpossible' ⊢
    exact (safe_loadHeader_iff hpossible').mpr hentries

/-- A call returns, copies only to what it has for it and maps no page of the
kernel's half, if and only if all program headers fit.  It then leaves all words
of that half as they are. -/
theorem elf_load_safe_iff (hpossible : (elfLoad inp s).result ≠ .error .noPage) :
    (Safe Store.Inside (elfLoad inp s) ↔ FileFits inp) ∧
      (FileFits inp → Mmap.system.Reachable s.machine → inp.pagemap < s.machine.pagemaps.count →
        ∃ s' ok, (elfLoad inp s).result = .ok (s', ok) ∧ KernelKept s.machine s'.machine) := by
  have hsafe := safe_elfLoad_iff hpossible
  refine ⟨hsafe, fun hfits hs hpm => ?_⟩
  obtain ⟨⟨s', ok⟩, hcall⟩ := (hsafe.mpr hfits).1
  exact ⟨s', ok, hcall, kernelKept_of_fits hs hpm hfits hcall⟩

/-! ## Files of one segment -/

def littleEndianBytes (n v : ℕ) : List UInt8 :=
  (List.range n).map (byteOf v)

def elfFile (programHeaderOffset : ℕ) (ph : ProgramHeader) : List UInt8 :=
  [0x7F, 0x45, 0x4C, 0x46, 2, 1, 1, 0] ++ littleEndianBytes 8 0 ++ littleEndianBytes 2 2 ++
    littleEndianBytes 2 elfMachineX86_64 ++ littleEndianBytes 4 1 ++
    littleEndianBytes 8 0x400078 ++ littleEndianBytes 8 programHeaderOffset ++
    littleEndianBytes 8 0 ++ littleEndianBytes 4 0 ++ littleEndianBytes 2 64 ++
    littleEndianBytes 2 56 ++ littleEndianBytes 2 1 ++ littleEndianBytes 6 0 ++
    littleEndianBytes 4 ph.type ++ littleEndianBytes 4 ph.flags ++
    littleEndianBytes 8 ph.offset ++ littleEndianBytes 8 ph.vaddr ++
    littleEndianBytes 8 ph.vaddr ++ littleEndianBytes 8 ph.fileSize ++
    littleEndianBytes 8 ph.memSize ++ littleEndianBytes 8 0x1000

def elfInput (file : Tmpfs.State) (frames : ℕ+) (tables : ℕ+ × (ℕ → ℕ → ℕ → ℕ+)) : Input where
  pagemap := 0
  file := file
  base := 0
  mapped := fun _ => true
  header := fun _ => 0
  programHeader := fun _ _ => 0
  answers := fun _ => ⟨true, some frames, some tables⟩

variable {file : Tmpfs.State} {frames : ℕ+} {tables : ℕ+ × (ℕ → ℕ → ℕ → ℕ+)}

lemma sourceMapped_elfInput (loc count : ℕ) :
    (elfInput file frames tables).SourceMapped loc count :=
  fun _ _ => rfl

lemma mem_log_loadEntry :
    .copy .programHeader sizeofProgramHeader 0
      (inp.copied (header.entryOffset i) sizeofProgramHeader) ∈ (loadEntry inp header i s).log :=
  mem_log_bind_left (mem_log_bind_left (.head _))

lemma mem_log_elfLoad {c : Store} (hmapped : inp.SourceMapped 0 sizeofHeader)
    (hc : c ∈ (loadHeader inp inp.elfHeader s).log) : c ∈ (elfLoad inp s).log := by
  have hnonneg : ¬ asInt64 (inp.copied 0 sizeofHeader) < 0 :=
    not_lt.mpr (asInt64_nonneg ((copied_header inp).trans (by decide)))
  rw [elfLoad]
  apply mem_log_bind_right (result_resourceRead hmapped)
  dsimp only
  rwa [if_neg hnonneg]

lemma result_elfLoad_one (hmapped : ∀ loc count, inp.SourceMapped loc count)
    (hsupported : inp.elfHeader.Supported) (hone : inp.elfHeader.progHeaderNumEntries = 1) :
    (elfLoad inp s).result = (loadProgramHeader inp (inp.answers 0) (inp.entry inp.elfHeader 0)
      { s with info := s.info.map fun _ => newInfo inp inp.elfHeader }).result := by
  rw [result_elfLoad (hmapped _ _), loadHeader, if_pos hsupported, hone, List.range_one,
    result_loop_singleton, result_loadEntry (hmapped _ _)]

def onePage : ProgramHeader where
  type := elfPtypeLoad
  flags := 5
  offset := 0
  vaddr := 0x400000
  fileSize := 120
  memSize := 0x1000

def noPages : ProgramHeader :=
  { onePage with fileSize := 0, memSize := 0 }

def exampleHeader (programHeaderOffset : ℕ) : Header where
  ident := [0x7F, 0x45, 0x4C, 0x46, 2, 1, 1, 0]
  machine := elfMachineX86_64
  ptrEntry := 0x400078
  programHeaderOffset := programHeaderOffset
  progHeaderNumEntries := 1

lemma length_littleEndianBytes (n v : ℕ) : (littleEndianBytes n v).length = n := by
  rw [littleEndianBytes, List.length_map, List.length_range]

lemma length_elfFile (offset : ℕ) (ph : ProgramHeader) : (elfFile offset ph).length = 120 := by
  unfold elfFile
  simp only [List.length_append, length_littleEndianBytes]
  rfl

variable {ph : ProgramHeader}

lemma elfHeader_elfFile (hholds : Holds file (elfFile offset ph))
    (hheader : Header.ofMemory (storeBytes (fun _ => 0) 0 ((elfFile offset ph).take sizeofHeader)) =
      exampleHeader offset) : (elfInput file frames tables).elfHeader = exampleHeader offset := by
  have hle : sizeofHeader ≤ (elfFile offset ph).length := by
    rw [length_elfFile]
    decide
  exact (@elfHeader_of_holds (elfInput file frames tables) _ hholds hle).trans hheader

lemma entry_elfFile (hholds : Holds file (elfFile 64 ph))
    (hentry : ProgramHeader.ofMemory (storeBytes (fun _ => 0) 0
      (((elfFile 64 ph).drop 64).take sizeofProgramHeader)) = ph) :
    (elfInput file frames tables).entry (exampleHeader 64) 0 = ph := by
  have hoffset : (exampleHeader 64).entryOffset 0 = 64 := by decide
  have hle : (exampleHeader 64).entryOffset 0 + sizeofProgramHeader ≤ (elfFile 64 ph).length := by
    rw [length_elfFile]
    decide
  rw [@entry_of_holds (elfInput file frames tables) _ hholds _ _ hle, hoffset]
  exact hentry

lemma result_elfLoad_elfFile (hholds : Holds file (elfFile 64 ph))
    (hheader : Header.ofMemory (storeBytes (fun _ => 0) 0 ((elfFile 64 ph).take sizeofHeader)) =
      exampleHeader 64)
    (hentry : ProgramHeader.ofMemory (storeBytes (fun _ => 0) 0
      (((elfFile 64 ph).drop 64).take sizeofProgramHeader)) = ph) (hload : ph.type = elfPtypeLoad) :
    ∃ info, (elfLoad (elfInput file frames tables) s).result =
      (loadSegment (elfInput file frames tables) ⟨true, some frames, some tables⟩ ph
        { s with info := info }).result := by
  have hheader' : (elfInput file frames tables).elfHeader = exampleHeader 64 :=
    elfHeader_elfFile hholds hheader
  have hentry' : (elfInput file frames tables).entry (exampleHeader 64) 0 = ph :=
    entry_elfFile hholds hentry
  have hsupported : (exampleHeader 64).Supported := by decide
  refine ⟨s.info.map fun _ => newInfo (elfInput file frames tables) (exampleHeader 64), ?_⟩
  rw [result_elfLoad_one sourceMapped_elfInput (hheader' ▸ hsupported) (hheader' ▸ rfl), hheader',
    hentry', loadProgramHeader, if_neg (by rw [hload]; decide), if_neg (by rw [hload]; decide),
    if_pos hload]
  rfl

lemma loadSegment_returns {m₁ m₂ : Machine} {addr : ℕ}
    (halloc : allocFrames answers.frames ph.pageCount s.machine = .ok (m₁, addr))
    (hmap : mapFrames answers.tables inp.pagemap (ph.virt inp.base) addr
      (ph.pageCount * pageSize) ph.prot m₁ = .ok (m₂, true))
    (hmapped : inp.SourceMapped ph.offset ph.fileSize)
    (hcopied : inp.copied ph.offset ph.fileSize ≤ directMapSize) :
    ∃ s', (loadSegment inp answers ph s).result = .ok (s', true) := by
  rw [loadSegment, result_lift_bind_of_ok halloc, result_lift_bind_of_ok hmap]
  dsimp only
  rw [result_bind_of_ok (a := ()) rfl, Bool.not_true, if_neg Bool.false_ne_true,
    result_bind_of_ok (result_resourceRead hmapped)]
  rw [decide_eq_true (asInt64_nonneg hcopied)]
  exact ⟨_, rfl⟩

lemma copied_onePage (hholds : Holds file (elfFile 64 onePage)) :
    (elfInput file frames tables).copied onePage.offset onePage.fileSize = 120 :=
  @copied_of_holds (elfInput file frames tables) _ _ _ hholds (by rw [length_elfFile]; decide)

lemma exists_load_one_page :
    ∃ file machine frames tables s', Tmpfs.system.Reachable file ∧
      Holds file (elfFile 64 onePage) ∧ Mmap.system.Reachable machine ∧
      machine.pagemaps.count = 1 ∧
      (elfLoad (elfInput file frames tables) ⟨machine, none⟩).result = .ok (s', true) := by
  have hlength : (elfFile 64 onePage).length ≤ 4096 := by
    rw [length_elfFile]
    decide
  obtain ⟨file, hfile, hholds⟩ := exists_file (elfFile 64 onePage) hlength
  obtain ⟨machine, hmachine, hone, hbelow⟩ := exists_pagemap
  have hlimit : 0x202 + 9 + 2 ≤ directPages := by
    unfold directPages
    decide
  obtain ⟨t₁, halloc, h₁⟩ := pmmAllocMany_returns hbelow (show 0 < 1 by decide) (by omega)
  obtain ⟨m₂, hmap, _⟩ := @mmapMapRange_returns { machine with tables := t₁ } 0x202 0 0x400000
    (pageAt 0x201) 0x1000 5 mmapMapAnon h₁ hlimit
  set frames := pageAt 0x201
  set tables : ℕ+ × (ℕ → ℕ → ℕ → ℕ+) :=
    (pageAt 0x202, fun k c => pagesFrom (0x202 + 1 + 9 * k + 3 * c))
  obtain ⟨info, hresult⟩ := @result_elfLoad_elfFile ⟨machine, none⟩ file frames tables onePage
    hholds (by decide +kernel) (by decide +kernel) rfl
  have hcount : onePage.pageCount = 1 := by decide
  have hprot : onePage.prot = 5 := by decide
  have halloc' : allocFrames (some frames) onePage.pageCount machine =
      .ok ({ machine with tables := t₁ }, (frames : ℕ)) := by
    rw [hcount]
    exact halloc
  have hmap' : mapFrames (some tables) (elfInput file frames tables).pagemap
      (((elfInput file frames tables).base + onePage.vaddr) % 2 ^ 64) frames
      (onePage.pageCount * pageSize) onePage.prot { machine with tables := t₁ } =
        .ok (m₂, true) := by
    have hvirt : ((elfInput file frames tables).base + onePage.vaddr) % 2 ^ 64 = 0x400000 :=
      show (0 + 0x400000) % 2 ^ 64 = 0x400000 by decide
    have hsize : 1 * pageSize = 0x1000 := by decide
    rw [hcount, hprot, hvirt, hsize]
    exact hmap
  obtain ⟨s', hs'⟩ := @loadSegment_returns (elfInput file frames tables) ⟨machine, info⟩
    ⟨true, some frames, some tables⟩ onePage _ _ _ halloc' hmap' (sourceMapped_elfInput _ _)
    (by rw [copied_onePage hholds]; decide)
  exact ⟨file, machine, frames, tables, s', hfile, hholds, hmachine, hone, hresult.trans hs'⟩

theorem elf_load_safe_one_page :
    ∃ file machine frames tables, Tmpfs.system.Reachable file ∧
      Holds file (elfFile 64 onePage) ∧ Mmap.system.Reachable machine ∧
      Safe Store.Inside (elfLoad (elfInput file frames tables) ⟨machine, none⟩) ∧
      ∃ s' ok, (elfLoad (elfInput file frames tables) ⟨machine, none⟩).result = .ok (s', ok) ∧
        KernelKept machine s'.machine := by
  obtain ⟨file, machine, frames, tables, s', hfile, hholds, hmachine, hone, hresult⟩ :=
    exists_load_one_page
  have hheader : (elfInput file frames tables).elfHeader = exampleHeader 64 :=
    elfHeader_elfFile hholds (by decide +kernel)
  have hentry : (elfInput file frames tables).entry (exampleHeader 64) 0 = onePage :=
    entry_elfFile hholds (by decide +kernel)
  have hfits : FileFits (elfInput file frames tables) := by
    refine ⟨sourceMapped_elfInput _ _, fun _ i hi => ?_⟩
    rw [hheader] at hi ⊢
    obtain rfl : i = 0 := Nat.lt_one_iff.mp hi
    refine ⟨?_, sourceMapped_elfInput _ _, fun htype => ?_, fun _ => ?_⟩
    · exact (@copied_of_holds (elfInput file frames tables) _ _ _ hholds
        (by rw [length_elfFile]; decide)).le
    · rw [hentry] at htype
      exact absurd htype (by decide)
    · rw [hentry]
      refine ⟨by decide, rfl, rfl, ?_, sourceMapped_elfInput _ _, ?_⟩
      · rw [copied_onePage hholds]
        decide
      · change ∀ page ∈ mappedPages (onePage.virt 0) (onePage.pageCount * pageSize),
          ¬ Paging.HigherHalf page
        decide +kernel
  obtain ⟨hsafe, hkept⟩ := elf_load_safe_iff (ne_noPage_of_ok hresult)
  exact ⟨file, machine, frames, tables, hfile, hholds, hmachine, hsafe.mpr hfits,
    hkept hfits hmachine (show 0 < machine.pagemaps.count by omega)⟩

/-- A segment without bytes makes the page allocator panic, and a table of
program headers one byte behind the end of the file makes the kernel write over
all of its memory. -/
theorem elf_load_not_safe :
    (∃ file, Tmpfs.system.Reachable file ∧ Holds file (elfFile 64 noPages) ∧
      ∀ frames tables s, (elfLoad (elfInput file frames tables) s).result = .error .panic ∧
        ¬ Safe Store.Inside (elfLoad (elfInput file frames tables) s)) ∧
    ∃ file, Tmpfs.system.Reachable file ∧ Holds file (elfFile 121 onePage) ∧
      ∀ frames tables s,
        .copy .programHeader 56 0 (2 ^ 64 - 1) ∈ (elfLoad (elfInput file frames tables) s).log ∧
          ¬ Safe Store.Inside (elfLoad (elfInput file frames tables) s) := by
  constructor
  · obtain ⟨file, hfile, hholds⟩ := exists_file (elfFile 64 noPages)
      (by rw [length_elfFile]; decide)
    refine ⟨file, hfile, hholds, fun frames tables s => ?_⟩
    have hpanic : (elfLoad (elfInput file frames tables) s).result = .error .panic := by
      obtain ⟨info, hresult⟩ := @result_elfLoad_elfFile s file frames tables noPages hholds
        (by decide +kernel) (by decide +kernel) rfl
      have hcount : noPages.pageCount = 0 := by decide
      have halloc : allocFrames (some frames) noPages.pageCount s.machine = .error .panic := by
        rw [hcount]
        rfl
      rw [hresult]
      exact result_lift_bind_of_error halloc
    refine ⟨hpanic, fun hsafe => ?_⟩
    obtain ⟨⟨r, hr⟩, _⟩ := hsafe
    rw [hpanic] at hr
    cases hr
  · obtain ⟨file, hfile, hholds⟩ := exists_file (elfFile 121 onePage)
      (by rw [length_elfFile]; decide)
    refine ⟨file, hfile, hholds, fun frames tables s => ?_⟩
    have hheader : (elfInput file frames tables).elfHeader = exampleHeader 121 :=
      elfHeader_elfFile hholds (by decide +kernel)
    have hsize : file.file.size = 120 := hholds.size_eq.trans (length_elfFile _ _)
    have hcopied : (elfInput file frames tables).copied 121 sizeofProgramHeader = 2 ^ 64 - 1 := by
      have hsize' : (elfInput file frames tables).file.file.size = 120 := hsize
      rw [Input.copied, actualCount_eq (by omega) (by decide), hsize']
      decide
    have hlog : .copy .programHeader 56 0 (2 ^ 64 - 1) ∈
        (elfLoad (elfInput file frames tables) s).log := by
      have hentry : (exampleHeader 121).entryOffset 0 = 121 := by decide
      have hsupported : (exampleHeader 121).Supported := by decide
      have hcopy (s₁ : LoadState) : .copy .programHeader 56 0 (2 ^ 64 - 1) ∈
          (loadEntry (elfInput file frames tables) (exampleHeader 121) 0 s₁).log := by
        have hentry' := @mem_log_loadEntry (elfInput file frames tables) s₁ (exampleHeader 121) 0
        rwa [hentry, hcopied] at hentry'
      apply mem_log_elfLoad (sourceMapped_elfInput _ _)
      rw [hheader, loadHeader, if_pos hsupported]
      exact mem_log_bind_left (hcopy _)
    refine ⟨hlog, fun hsafe => ?_⟩
    have hinside := hsafe.2 _ hlog
    exact absurd hinside (by decide)

end Cottage.Elf
