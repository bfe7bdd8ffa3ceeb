import Cottage.Elf.LoadSafety
import Cottage.Mem.UserAccess

/-!
# The image of a program

What a program finds in its memory when `elf_load` has returned `true`: the
bytes of its segments as the file has them, zeros behind these, and the access
that the flags of the segment allow.

The invariant of the loop is that all segments up to the current program header
are mapped that way; a new segment has new frames and other pages.
-/

namespace Cottage.Elf

open ByteMemory ByteString Mem Mmap Tmpfs Logged

def fileHeader (content : List UInt8) : Header :=
  .ofMemory fun k => content.getD k 0

def fileEntry (content : List UInt8) (i : ℕ) : ProgramHeader :=
  .ofMemory fun k =>
    content.getD ((fileHeader content).programHeaderOffset + sizeofProgramHeader * i + k) 0

def ProgramHeader.OnPage (base : ℕ) (ph : ProgramHeader) (p : ℕ) : Prop :=
  ph.virt base / pageSize ≤ p ∧ p * pageSize < ph.virt base + ph.memSize

def ProgramHeader.byteAt (content : List UInt8) (ph : ProgramHeader) (k : ℕ) : UInt8 :=
  if k < ph.fileSize then content.getD (ph.offset + k) 0 else 0

structure ProgramHeader.Placed (base : ℕ) (ph : ProgramHeader) : Prop where
  nonempty : 1 ≤ ph.memSize
  size_le : ph.fileSize ≤ ph.memSize
  lower : ph.virt base + ph.memSize ≤ 2 ^ 47

/-- Everything is inside the file, and the segments have pages of their own. -/
structure WellFormed (base : ℕ) (content : List UInt8) : Prop where
  header : sizeofHeader ≤ content.length
  table : (fileHeader content).programHeaderOffset +
    sizeofProgramHeader * (fileHeader content).progHeaderNumEntries ≤ content.length
  bytes : ∀ i < (fileHeader content).progHeaderNumEntries,
    (fileEntry content i).offset + (fileEntry content i).fileSize ≤ content.length
  placed : ∀ i < (fileHeader content).progHeaderNumEntries,
    (fileEntry content i).type = elfPtypeLoad → (fileEntry content i).Placed base
  apart : ∀ i < (fileHeader content).progHeaderNumEntries,
    ∀ j < (fileHeader content).progHeaderNumEntries, i ≠ j →
    (fileEntry content i).type = elfPtypeLoad → (fileEntry content j).type = elfPtypeLoad →
    ∀ p, (fileEntry content i).OnPage base p → ¬ (fileEntry content j).OnPage base p

structure SegmentLoaded (m : Machine) (top base : ℕ) (content : List UInt8) (ph : ProgramHeader) :
    Prop where
  bytes : ∀ k < ph.memSize, userByte m top (ph.virt base + k) = some (ph.byteAt content k)
  user : ∀ k < ph.memSize, UserReadable m.tables.memory top (ph.virt base + k)
  writable : ∀ k < ph.memSize, UserWritable m.tables.memory top (ph.virt base + k) ↔
    ph.flags &&& elfFlagWrite ≠ 0

variable {inp : Input} {content : List UInt8} {base : ℕ} {ph : ProgramHeader} {m : Memory}

lemma Header.ofMemory_congr {m m' : Memory} (h : ∀ k < sizeofHeader, m k = m' k) :
    Header.ofMemory m = Header.ofMemory m' := by
  have hbyte (k : ℕ) (hk : k < 64) : m k = m' k := h k hk
  have hident : (List.range 8).map m = (List.range 8).map m' :=
    List.map_congr_left fun k hk => hbyte k (by have := List.mem_range.mp hk; omega)
  simp only [ofMemory, hident, read16, read64, hbyte, Nat.reduceAdd, Nat.reduceLT]

lemma ProgramHeader.ofMemory_congr {m m' : Memory} (h : ∀ k < sizeofProgramHeader, m k = m' k) :
    ProgramHeader.ofMemory m = ProgramHeader.ofMemory m' := by
  have hbyte (k : ℕ) (hk : k < 56) : m k = m' k := h k hk
  simp only [ofMemory, read32, read16, read64, hbyte, Nat.reduceAdd, Nat.reduceLT]

lemma storeBytes_slice {loc count k : ℕ} (hle : loc + count ≤ content.length) (hk : k < count) :
    storeBytes m 0 ((content.drop loc).take count) k = content.getD (loc + k) 0 := by
  rw [← map_range_getD content hle, storeBytes_apply, List.length_map, List.length_range,
    if_pos (by omega), Nat.sub_zero, List.getD_eq_getElem _ _ (by simpa using hk)]
  simp only [List.getElem_map, List.getElem_range]

lemma WellFormed.elfHeader_eq (h : WellFormed base content) (hholds : Holds inp.file content) :
    inp.elfHeader = fileHeader content := by
  have hle := h.header
  rw [elfHeader_of_holds hholds hle]
  refine Header.ofMemory_congr fun k hk => ?_
  have hbyte := @storeBytes_slice content inp.header 0 sizeofHeader k (by omega) hk
  rwa [List.drop_zero, Nat.zero_add] at hbyte

lemma WellFormed.entry_eq (h : WellFormed base content) (hholds : Holds inp.file content) {i : ℕ}
    (hi : i < (fileHeader content).progHeaderNumEntries) :
    inp.entry (fileHeader content) i = fileEntry content i := by
  have hle := h.table
  have hmul : sizeofProgramHeader * i + sizeofProgramHeader ≤
      sizeofProgramHeader * (fileHeader content).progHeaderNumEntries := by
    rw [← Nat.mul_succ]
    exact Nat.mul_le_mul_left _ hi
  have hsize := hholds.size_eq
  have hcapacity := hholds.size_le
  have hend := storage_add_capacity_le hholds
  have hoffset : (fileHeader content).entryOffset i =
      (fileHeader content).programHeaderOffset + sizeofProgramHeader * i :=
    Nat.mod_eq_of_lt (by simp only [sizeofProgramHeader] at *; omega)
  rw [entry_of_holds hholds (by omega), hoffset]
  exact ProgramHeader.ofMemory_congr fun k hk => storeBytes_slice (by omega) hk

def ProgramHeader.pagesContent (content : List UInt8) (ph : ProgramHeader) (o : ℕ) : UInt8 :=
  if pageOffset ph.vaddr ≤ o then ph.byteAt content (o - pageOffset ph.vaddr) else 0

lemma ProgramHeader.Placed.pages (h : ph.Placed base) (hbase : pageSize ∣ base) :
    ph.virt base % pageSize = pageOffset ph.vaddr ∧
      ph.pageCount = (ph.virt base % pageSize + ph.memSize + 4095) / 4096 := by
  have hlower := h.lower
  have hoffset : ph.virt base % pageSize = pageOffset ph.vaddr := by
    obtain ⟨b, rfl⟩ := hbase
    rw [pageOffset_eq, ProgramHeader.virt]
    simp only [pageSize]
    omega
  refine ⟨hoffset, ?_⟩
  have hlt : pageOffset ph.vaddr < 4096 := by
    rw [pageOffset_eq]
    exact Nat.mod_lt _ (by decide)
  rw [ProgramHeader.pageCount, Nat.mod_eq_of_lt (by omega), divRoundup_eq (by omega), hoffset]

lemma ProgramHeader.Placed.pages_le (h : ph.Placed base) (hbase : pageSize ∣ base) :
    alignDown (ph.virt base) pageSize + ph.pageCount * pageSize ≤ 2 ^ 47 ∧
      pageOffset ph.vaddr + ph.memSize ≤ ph.pageCount * pageSize := by
  obtain ⟨hoffset, hcount⟩ := h.pages hbase
  have hlower := h.lower
  have hsplit := alignDown_add (ph.virt base)
  rw [← hoffset, hcount]
  simp only [pageSize] at *
  omega

lemma pagesApart_of_onPage {ph' : ProgramHeader} (h : ph.Placed base) (h' : ph'.Placed base)
    (hbase : pageSize ∣ base) (hapart : ∀ p, ph.OnPage base p → ¬ ph'.OnPage base p) :
    PagesApart (alignDown (ph.virt base) pageSize) ph.pageCount
      (alignDown (ph'.virt base) pageSize) ph'.pageCount := by
  obtain ⟨_, hcount⟩ := h.pages hbase
  obtain ⟨_, hcount'⟩ := h'.pages hbase
  have hpage := hapart (max (ph.virt base / pageSize) (ph'.virt base / pageSize))
  have hpos := h.nonempty
  have hpos' := h'.nonempty
  simp only [ProgramHeader.OnPage] at hpage
  rw [PagesApart, hcount, hcount', alignDown, alignDown]
  simp only [pageSize] at *
  omega

/-! ## One segment -/

variable {s s' : LoadState} {answers : Answers} {tops : List ℕ} {label : ℕ → Paging.Labels}

lemma storeBytes_segment {phys : ℕ} (hfile : ph.offset + ph.fileSize ≤ content.length)
    (hzero : ∀ o, o < ph.pageCount * pageSize → m (phys + higherHalf + o) = 0) {o : ℕ}
    (ho : o < ph.pageCount * pageSize) :
    storeBytes m (phys + pageOffset ph.vaddr + higherHalf)
      ((content.drop ph.offset).take ph.fileSize) (phys + higherHalf + o) =
        ph.pagesContent content o := by
  have hlength : ((content.drop ph.offset).take ph.fileSize).length = ph.fileSize := by
    rw [List.length_take, List.length_drop]
    omega
  rw [storeBytes_apply, hlength, hzero o ho, ProgramHeader.pagesContent, ProgramHeader.byteAt]
  by_cases hlow : pageOffset ph.vaddr ≤ o
  · rw [if_pos hlow]
    by_cases hk : o - pageOffset ph.vaddr < ph.fileSize
    · have hsub : phys + higherHalf + o - (phys + pageOffset ph.vaddr + higherHalf) =
          o - pageOffset ph.vaddr := by omega
      rw [if_pos (by omega), if_pos hk, hsub, ← map_range_getD content hfile,
        List.getD_eq_getElem _ _ (by simpa using hk)]
      simp only [List.getElem_map, List.getElem_range]
    · rw [if_neg (by omega), if_neg hk]
  · rw [if_neg hlow, if_neg (by omega)]

lemma mapping_of_loadSegment (hw : World s.machine s.machine.tables.owned tops label)
    (hpm : inp.pagemap < s.machine.pagemaps.count) (hbase : pageSize ∣ inp.base)
    (hholds : Holds inp.file content) (hplaced : ph.Placed inp.base)
    (hfile : ph.offset + ph.fileSize ≤ content.length)
    (hcall : (loadSegment inp answers ph s).result = .ok (s', true)) :
    ∃ label', World s'.machine s'.machine.tables.owned tops label' ∧
      s'.machine.pagemaps.count = s.machine.pagemaps.count ∧
      (∀ pm, s'.machine.top pm = s.machine.top pm) ∧
      (∃ phys, Mapping s'.machine label' (s.machine.top inp.pagemap)
        (alignDown (ph.virt inp.base) pageSize) phys ph.pageCount ph.prot
        (ph.pagesContent content)) ∧
      ∀ {virt phys count prot : ℕ} {bytes : ℕ → UInt8}, pageSize ∣ virt →
        virt + count * pageSize ≤ 2 ^ 47 →
        PagesApart (alignDown (ph.virt inp.base) pageSize) ph.pageCount virt count →
        Mapping s.machine label (s.machine.top inp.pagemap) virt phys count prot bytes →
        Mapping s'.machine label' (s.machine.top inp.pagemap) virt phys count prot bytes := by
  obtain ⟨page, shadow, pages, m₁, addr, m₂, halloc, hmap, hs'⟩ := calls_of_loadSegment hcall
  obtain ⟨hlower, hroom⟩ := hplaced.pages_le hbase
  have hsize := hplaced.size_le
  obtain ⟨label', hw', hmapping, _, hcount, htops, hothers⟩ :=
    hw.mapFrames hpm hlower halloc hmap
  have htop := hw.top_mem _ hpm
  rw [bytes_of_holds hholds hfile] at hs'
  set m' := storeBytes m₂.tables.memory (addr + pageOffset ph.vaddr + higherHalf)
    ((content.drop ph.offset).take ph.fileSize) with hm'
  have hagree : AgreeOutside m₂.tables.memory m' (addr + higherHalf) (ph.pageCount * pageSize) := by
    intro x hx
    apply agreeOutside_storeBytes
    rw [List.length_take, List.length_drop]
    omega
  rw [hs']
  refine ⟨label', (hw'.writeRegion hmapping.region hagree).1, hcount, htops, ⟨addr, ?_⟩, ?_⟩
  · obtain ⟨hregion, hbytes, hwords⟩ := hmapping.write hw' htop hagree
    exact ⟨hregion, fun o ho => storeBytes_segment hfile hmapping.bytes ho, hwords⟩
  · intro virt phys count prot bytes hvirt hle hapart hold
    obtain ⟨hold', hframes⟩ := hothers htop hvirt hle (fun _ => hapart) hold
    exact hold'.writeOther hw' htop hmapping.region hframes hagree

/-! ## All segments -/

lemma prot_write (ph : ProgramHeader) :
    ph.prot &&& mmapProtWrite ≠ 0 ↔ ph.flags &&& elfFlagWrite ≠ 0 := by
  rw [ProgramHeader.prot]
  split_ifs with h
  · exact iff_of_true (by decide) h
  · exact iff_of_false (by decide) h

lemma segmentLoaded_of_mapping {machine : Machine} {top phys : ℕ}
    (hw : World machine machine.tables.owned tops label) (htop : top ∈ tops)
    (hbase : pageSize ∣ base) (hplaced : ph.Placed base)
    (hmapping : Mapping machine label top (alignDown (ph.virt base) pageSize) phys ph.pageCount
      ph.prot (ph.pagesContent content)) : SegmentLoaded machine top base content ph := by
  obtain ⟨hoffset, hcount⟩ := hplaced.pages hbase
  obtain ⟨hlower, hroom⟩ := hplaced.pages_le hbase
  have hsplit := alignDown_add (ph.virt base)
  have hdvd : pageSize ∣ alignDown (ph.virt base) pageSize := Nat.dvd_mul_left _ _
  have hpos : 0 < ph.pageCount := by
    have := hplaced.nonempty
    rw [hcount]
    omega
  have haddr (k : ℕ) : ph.virt base + k =
      alignDown (ph.virt base) pageSize + (pageOffset ph.vaddr + k) := by
    rw [← hoffset, ← Nat.add_assoc, hsplit]
  have haccess {k : ℕ} (hk : k < ph.memSize) :
      UserReadable machine.tables.memory top (ph.virt base + k) ∧
        (UserWritable machine.tables.memory top (ph.virt base + k) ↔
          ph.prot &&& mmapProtWrite ≠ 0) := by
    have hpage : (pageOffset ph.vaddr + k) / pageSize < ph.pageCount := by
      rw [Nat.div_lt_iff_lt_mul (by decide)]
      omega
    have hphys : pageSize ∣ phys := by
      have hfirst := hmapping.region.isPage hw hpos
      exact hfirst.1
    have hnumber : Paging.pageNumber (ph.virt base + k) = Paging.pageNumber
        (alignDown (ph.virt base) pageSize + (pageOffset ph.vaddr + k) / pageSize * pageSize) := by
      rw [haddr k]
      obtain ⟨d, hd⟩ := hdvd
      rw [hd]
      simp only [Paging.pageNumber, pageSize]
      omega
    exact hw.access_of_pte htop (Nat.dvd_add hphys (Nat.dvd_mul_left _ _))
      ((Paging.pte_congr hnumber).trans (hmapping.words _ hpage))
  refine ⟨fun k hk => ?_, fun k hk => (haccess hk).1, fun k hk =>
    (haccess hk).2.trans (prot_write ph)⟩
  have ho : pageOffset ph.vaddr + k < ph.pageCount * pageSize := by omega
  rw [haddr k, hmapping.window hw htop hdvd hpos _ ho, hmapping.bytes _ ho,
    ProgramHeader.pagesContent, if_pos (Nat.le_add_right _ _), Nat.add_sub_cancel_left]

def Loaded (inp : Input) (content : List UInt8) (tops : List ℕ) (start : LoadState) (done : List ℕ)
    (s : LoadState) : Prop :=
  ∃ label, World s.machine s.machine.tables.owned tops label ∧
    s.machine.pagemaps.count = start.machine.pagemaps.count ∧
    (∀ pm, s.machine.top pm = start.machine.top pm) ∧
    ∀ i ∈ done, (fileEntry content i).type = elfPtypeLoad → ∃ phys,
      Mapping s.machine label (start.machine.top inp.pagemap)
        (alignDown ((fileEntry content i).virt inp.base) pageSize) phys
        (fileEntry content i).pageCount (fileEntry content i).prot
        ((fileEntry content i).pagesContent content)

lemma Loaded.round {start : LoadState} {done : List ℕ} {i : ℕ}
    (h : Loaded inp content tops start done s) (hwf : WellFormed inp.base content)
    (hholds : Holds inp.file content) (hbase : pageSize ∣ inp.base)
    (hpm : inp.pagemap < start.machine.pagemaps.count)
    (hi : i < (fileHeader content).progHeaderNumEntries)
    (hdone : ∀ j ∈ done, j ≠ i ∧ j < (fileHeader content).progHeaderNumEntries)
    (hcall : (loadProgramHeader inp answers (fileEntry content i) s).result = .ok (s', true)) :
    Loaded inp content tops start (done ++ [i]) s' := by
  obtain ⟨label, hw, hcount, htops, hmappings⟩ := h
  by_cases htype : (fileEntry content i).type = elfPtypeLoad
  · have hplaced := hwf.placed i hi htype
    have hsegment : (loadSegment inp answers (fileEntry content i) s).result = .ok (s', true) := by
      rwa [loadProgramHeader, if_neg (by rw [htype]; decide), if_neg (by rw [htype]; decide),
        if_pos htype] at hcall
    obtain ⟨label', hw', hcount', htops', hnew, hothers⟩ :=
      mapping_of_loadSegment hw (hcount ▸ hpm) hbase hholds hplaced (hwf.bytes i hi) hsegment
    rw [htops] at hnew hothers
    refine ⟨label', hw', hcount'.trans hcount, fun pm => (htops' pm).trans (htops pm), ?_⟩
    intro j hj htype'
    rcases List.mem_append.mp hj with hj | hj
    · obtain ⟨phys, hmapping⟩ := hmappings j hj htype'
      obtain ⟨hne, hlt⟩ := hdone j hj
      have hplaced' := hwf.placed j hlt htype'
      exact ⟨phys, hothers (Nat.dvd_mul_left _ _) (hplaced'.pages_le hbase).1
        (pagesApart_of_onPage hplaced hplaced' hbase
          (hwf.apart i hi j hlt hne.symm htype htype')) hmapping⟩
    · obtain rfl := List.mem_singleton.mp hj
      exact hnew
  · have hsame := machine_of_loadProgramHeader htype hcall
    rw [Loaded, hsame]
    refine ⟨label, hw, hcount, htops, ?_⟩
    intro j hj htype'
    rcases List.mem_append.mp hj with hj | hj
    · exact hmappings j hj htype'
    · obtain rfl := List.mem_singleton.mp hj
      exact absurd htype' htype

/-- When a file has been loaded, the program finds all its segments in memory. -/
theorem user_image_correct (hs : Mmap.system.Reachable s.machine)
    (hpm : inp.pagemap < s.machine.pagemaps.count) (hholds : Holds inp.file content)
    (hbase : pageSize ∣ inp.base) (hwf : WellFormed inp.base content)
    (hcall : (elfLoad inp s).result = .ok (s', true)) :
    ∀ i < (fileHeader content).progHeaderNumEntries, (fileEntry content i).type = elfPtypeLoad →
      SegmentLoaded s'.machine (s'.machine.top inp.pagemap) inp.base content
        (fileEntry content i) := by
  obtain ⟨tops, label, hw⟩ := ordered_of_reachable hs
  have hheader := hwf.elfHeader_eq hholds
  have hloaded : Loaded inp content tops s
      (List.range (fileHeader content).progHeaderNumEntries) s' := by
    have hmapped : inp.SourceMapped 0 sizeofHeader := by
      rw [elfLoad, result_bind_ok] at hcall
      obtain ⟨_, hread, _⟩ := hcall
      exact (read_of_result hread).1
    rw [result_elfLoad hmapped, hheader, loadHeader] at hcall
    split_ifs at hcall with hsupported
    · refine loop_induction (I := Loaded inp content tops s) ?_ ?_ hcall
      · exact ⟨label, hw, rfl, fun _ => rfl, fun _ hj => by cases hj⟩
      · intro done i rest s₁ s₂ hsplit hdone hentry
        have hmem {j : ℕ} (hj : j ∈ done ++ i :: rest) :
            j < (fileHeader content).progHeaderNumEntries :=
          List.mem_range.mp (hsplit ▸ hj)
        have hi := hmem (List.mem_append_right _ (.head _))
        have hmapped' : inp.SourceMapped ((fileHeader content).entryOffset i)
            sizeofProgramHeader := by
          rw [loadEntry, result_bind_ok] at hentry
          obtain ⟨_, hread, _⟩ := hentry
          exact (read_of_result hread).1
        rw [result_loadEntry hmapped', hwf.entry_eq hholds hi] at hentry
        refine hdone.round hwf hholds hbase hpm hi (fun j hj => ⟨?_, ?_⟩) hentry
        · have hnodup : (done ++ i :: rest).Nodup := hsplit ▸ List.nodup_range
          exact fun heq => (List.nodup_append.mp hnodup).2.2 j hj i (.head _) heq
        · exact hmem (List.mem_append_left _ hj)
    · cases hcall
  intro i hi htype
  obtain ⟨label', hw', _, htops, hmappings⟩ := hloaded
  obtain ⟨phys, hmapping⟩ := hmappings i (List.mem_range.mpr hi) htype
  rw [htops]
  exact segmentLoaded_of_mapping hw' (hw.top_mem _ hpm) hbase (hwf.placed i hi htype) hmapping

theorem user_image_one_page :
    ∃ file machine frames tables s', Tmpfs.system.Reachable file ∧ Mmap.system.Reachable machine ∧
      (elfLoad (elfInput file frames tables) ⟨machine, none⟩).result = .ok (s', true) ∧
      SegmentLoaded s'.machine (s'.machine.top 0) 0 (elfFile 64 onePage) onePage := by
  obtain ⟨file, machine, frames, tables, s', hfile, hholds, hmachine, hone, hresult⟩ :=
    exists_load_one_page
  refine ⟨file, machine, frames, tables, s', hfile, hmachine, hresult, ?_⟩
  have hheader : fileHeader (elfFile 64 onePage) = exampleHeader 64 := by decide +kernel
  have hentry : fileEntry (elfFile 64 onePage) 0 = onePage := by
    rw [fileEntry, hheader]
    decide +kernel
  have honly {i : ℕ} (hi : i < (fileHeader (elfFile 64 onePage)).progHeaderNumEntries) :
      i = 0 := by
    exact Nat.lt_one_iff.mp hi
  have hwf : WellFormed 0 (elfFile 64 onePage) := by
    constructor
    · rw [length_elfFile]
      decide
    · rw [hheader, length_elfFile]
      decide
    · intro i hi
      rw [honly hi, hentry, length_elfFile]
      decide
    · intro i hi _
      rw [honly hi, hentry]
      exact ⟨by decide, by decide, by decide⟩
    · intro i hi j hj hne
      exact absurd ((honly hi).trans (honly hj).symm) hne
  have hloaded := @user_image_correct (elfInput file frames tables) _ ⟨machine, none⟩ s' hmachine
    (show 0 < machine.pagemaps.count by omega) hholds (Nat.dvd_zero _) hwf hresult 0
    (by rw [hheader]; decide) (by rw [hentry]; rfl)
  rwa [hentry] at hloaded

end Cottage.Elf
