import Cottage.Mem.MmapReturns

/-!
# What a mapping call covers

`mmap_map_range` takes a region that need not start at a page boundary.  It
rounds the start down, and takes the distance to the start away from the size
instead of adding it, so the range it records may end before the region does.
-/

namespace Cottage.Mmap

open ByteMemory Mem Paging Transition

variable {s s' : Machine} {tops : List ℕ} {label : ℕ → Labels} {ok : Bool}
  {pm virt phys size prot flags : ℕ}

def Ordered (s : Machine) : Prop :=
  ∃ tops label, World s s.tables.owned tops label

lemma Ordered.mmapMapRange {shadow : ℕ+} {pages : ℕ → ℕ → ℕ → ℕ+} (h : Ordered s)
    (hpm : pm < s.pagemaps.count)
    (hcall : mmapMapRange pm virt phys size prot flags shadow pages s = .ok (s', ok)) :
    Ordered s' := by
  obtain ⟨tops, label, hw⟩ := h
  obtain ⟨page, t', label', rfl, hw', _⟩ := hw.mmapMapRange_any hpm hcall
  exact ⟨tops, label', hw'⟩

lemma Ordered.pmmAllocMany {page : ℕ+} {count : ℕ} (h : Ordered s)
    (hcall : pmmAllocMany page count s = .ok (s', phys)) :
    Ordered s' ∧ s'.pagemaps = s.pagemaps := by
  obtain ⟨tops, label, hw⟩ := h
  obtain ⟨_, _, t', rfl, hw', _⟩ := hw.pmmAllocMany hcall
  exact ⟨⟨tops, label, hw'⟩, rfl⟩

lemma Ordered.step {e : Event} (h : Ordered s) (hstep : step s e = some s') : Ordered s' := by
  rw [Mmap.step, Option.ite_none_right_eq_some, toOption_eq_some] at hstep
  obtain ⟨hvalid, hrun⟩ := hstep
  cases e with
  | newPagemap page =>
    obtain ⟨tops, label, hw⟩ := h
    obtain ⟨⟨t', top⟩, hcall, rfl⟩ := map_eq_ok.mp hrun
    obtain ⟨_, label', hw', _⟩ := hw.newPagemap (answered_eq_ok.mp hcall)
    exact ⟨_, label', hw'⟩
  | mapRange pm virt phys size prot flags shadow pages =>
    obtain ⟨⟨s₁, ok⟩, hcall, rfl⟩ := map_eq_ok.mp hrun
    exact h.mmapMapRange hvalid.1 hcall
  | allocRange pm virt count prot flags frames shadow pages =>
    obtain ⟨⟨s₁, phys⟩, halloc, hrun⟩ := bind_eq_ok.mp hrun
    obtain ⟨⟨s₂, ok⟩, hcall, rfl⟩ := map_eq_ok.mp hrun
    obtain ⟨h₁, hcount⟩ := h.pmmAllocMany halloc
    exact h₁.mmapMapRange (hcount ▸ hvalid.1) hcall

lemma ordered_of_reachable (h : system.Reachable s) : Ordered s := by
  apply h.invariant
  · intro s hinit
    exact World.of_initial hinit
  · intro s e s' hs hstep
    exact hs.step hstep

lemma writable_or {n : ℕ} (hn : pageSize ∣ n) (prot : ℕ) :
    (n ||| ptFlags prot) &&& pteFlagWritable ≠ 0 ↔ prot &&& mmapProtWrite ≠ 0 := by
  have hzero : n &&& pteFlagWritable = 0 := by
    obtain ⟨k, rfl⟩ := hn
    apply Nat.eq_of_testBit_eq
    intro i
    rw [Nat.testBit_and, Nat.zero_testBit, pageSize, show (4096 : ℕ) = 2 ^ 12 by rfl,
      Nat.testBit_two_pow_mul, pteFlagWritable, show (0x02 : ℕ) = 2 ^ 1 by rfl,
      Nat.testBit_two_pow]
    by_cases hi : 1 = i
    · rw [← hi]
      rfl
    · simp [hi]
  rw [Nat.and_or_distrib_right, hzero, Nat.zero_or, ptFlags]
  split_ifs with h
  · simp [h, pteFlagPresent, pteFlagUser, pteFlagWritable]
  · simp [h, pteFlagPresent, pteFlagUser, pteFlagWritable]

lemma World.virt2phys_of_present {owned : List ℕ} {top : ℕ} (h : World s owned tops label)
    (htop : top ∈ tops) (hpresent : pte s.tables.memory top virt &&& 1 ≠ 0) :
    virt2phys top virt s = .ok (some (pageBase (pte s.tables.memory top virt))) := by
  rw [h.virt2phys_eq htop, pte]
  rw [pte] at hpresent
  cases hentry : entry s.tables.memory top virt with
  | none =>
    rw [hentry] at hpresent
    exact absurd (Nat.zero_and 1) hpresent
  | some w =>
    rw [hentry] at hpresent
    have hbit : w &&& 1 ≠ 0 := hpresent
    dsimp only
    rw [if_neg hbit, Option.getD_some]

lemma World.virt2phys_congr {owned : List ℕ} {top virt' : ℕ} (h : World s owned tops label)
    (htop : top ∈ tops) (hpage : pageNumber virt = pageNumber virt') :
    virt2phys top virt s = virt2phys top virt' s := by
  obtain ⟨hpath, hindex⟩ := pageNumber_eq_iff.mp hpage
  rw [h.virt2phys_eq htop, h.virt2phys_eq htop, entry, entry, hpath, hindex]

/-- Taking the distance from the page boundary away does not change the number
of pages, and the last page of the address space is not needed. -/
structure Coverable (virt size : ℕ) : Prop where
  offset_lt : virt % pageSize < size
  samePages : (size + virt % pageSize - 1) / pageSize = (size - virt % pageSize - 1) / pageSize
  beforeLast : virt + size ≤ 2 ^ 64 - pageSize

def pageCount (virt size : ℕ) : ℕ :=
  (virt + size - 1) / pageSize - virt / pageSize + 1

lemma alignUp_of_le {n : ℕ} (h : n ≤ 2 ^ 64 - pageSize) :
    alignUp n pageSize = (n + 4095) / 4096 * 4096 := by
  simp only [pageSize] at h
  rw [alignUp, pageSize, Nat.mod_eq_of_lt (by omega)]

lemma alignUp_of_gt {n : ℕ} (h : 2 ^ 64 - pageSize < n) (hlt : n < 2 ^ 64) :
    alignUp n pageSize = 0 := by
  simp only [pageSize] at h
  have hsmall : (n + 4095) % 2 ^ 64 < 4096 := by omega
  rw [alignUp, pageSize, Nat.div_eq_of_lt hsmall, Nat.zero_mul]

/-- What the code takes for the size of the region from the page boundary on. -/
def shrunk (virt size : ℕ) : ℕ :=
  (size + (alignDown virt pageSize + 2 ^ 64 - virt)) % 2 ^ 64

lemma alignDown_add (virt : ℕ) : alignDown virt pageSize + virt % pageSize = virt := by
  rw [alignDown, Nat.mul_comm]
  exact Nat.div_add_mod virt pageSize

lemma shrunk_of_lt (h : virt % pageSize < size) (hsize : size < 2 ^ 64) :
    shrunk virt size = size - virt % pageSize := by
  have hbase := alignDown_add virt
  have hsum : size + (alignDown virt pageSize + 2 ^ 64 - virt) =
      size - virt % pageSize + 2 ^ 64 := by
    omega
  rw [shrunk, hsum, Nat.add_mod_right, Nat.mod_eq_of_lt]
  omega

lemma shrunk_of_ge (h : size ≤ virt % pageSize) :
    shrunk virt size = 0 ∨ 2 ^ 64 - pageSize < shrunk virt size := by
  have hbase := alignDown_add virt
  have hsum : size + (alignDown virt pageSize + 2 ^ 64 - virt) =
      2 ^ 64 - (virt % pageSize - size) := by
    simp only [pageSize] at *
    omega
  simp only [pageSize] at *
  rw [shrunk, pageSize, hsum]
  omega

lemma rangeLength_of_lt (h : virt % pageSize < size) (hsize : size ≤ 2 ^ 64 - pageSize) :
    rangeLength virt size = (size - virt % pageSize + 4095) / 4096 * 4096 := by
  have hshrunk := shrunk_of_lt h (by simp only [pageSize] at hsize; omega)
  rw [rangeLength, ← shrunk, hshrunk, alignUp_of_le ((Nat.sub_le _ _).trans hsize)]

lemma rangeLength_of_ge (h : size ≤ virt % pageSize) : rangeLength virt size = 0 := by
  rw [rangeLength, ← shrunk]
  rcases shrunk_of_ge h with hzero | hlarge
  · rw [hzero]
    rfl
  · exact alignUp_of_gt hlarge (Nat.mod_lt _ (by decide))

lemma covers_iff (hsize : 0 < size) (hend : virt + size ≤ 2 ^ 64) (hlt : size < 2 ^ 64) :
    (∀ a, virt ≤ a → a < virt + size → (newLocal s pm (alignDown virt pageSize)
      (rangeLength virt size) prot flags).Covers a) ↔ Coverable virt size := by
  have hbase := alignDown_add virt
  have hdvd : alignDown virt pageSize % pageSize = 0 := Nat.mul_mod_left _ _
  constructor
  · intro h
    obtain ⟨_, hlast⟩ := h (virt + size - 1) (by omega) (by omega)
    obtain ⟨_, hfirst⟩ := h virt le_rfl (by omega)
    simp only [LocalRange.stop, newLocal] at hlast hfirst
    have hlt' : virt % pageSize < size := by
      by_contra hge
      rw [rangeLength_of_ge (not_lt.mp hge), Nat.add_zero] at hfirst
      have := Nat.mod_le (alignDown virt pageSize) (2 ^ 64)
      omega
    have hsize' : size ≤ 2 ^ 64 - pageSize := by
      by_contra hgt
      have hle : rangeLength virt size ≤ 2 ^ 64 - pageSize := by
        rw [rangeLength, alignUp, pageSize]
        omega
      omega
    rw [rangeLength_of_lt hlt' hsize'] at hlast
    simp only [pageSize] at *
    refine ⟨hlt', ?_, ?_⟩
    · simp only [pageSize]
      omega
    · simp only [pageSize]
      omega
  · intro h a hlo hhi
    have hlt' := h.offset_lt
    have hsame := h.samePages
    have hlast := h.beforeLast
    simp only [LocalRange.Covers, LocalRange.stop, newLocal]
    rw [rangeLength_of_lt hlt' (by omega)]
    simp only [pageSize] at *
    omega

/-! ## The request -/

def Machine.lastRange (s : Machine) (pm : ℕ) : LocalRange :=
  s.locals.get ((s.ranges pm).getLastD 0)

/-- The region is mapped and inside the recorded range, whose pages lead to the
frames from `phys` on with the right protection. -/
structure CoversRequest (s : Machine) (pm virt phys size prot : ℕ) : Prop where
  inside : ∀ a, virt ≤ a → a < virt + size → (s.lastRange pm).Covers a
  mapped : ∀ a, virt ≤ a → a < virt + size → ∃ p, virt2phys (s.top pm) a s = .ok (some p)
  frames : ∀ k, k < (s.lastRange pm).length / pageSize →
    virt2phys (s.top pm) ((s.lastRange pm).base + k * pageSize) s = .ok (some (phys + k * pageSize))
  writable : ∀ k, k < (s.lastRange pm).length / pageSize →
    (pte s.tables.memory (s.top pm) ((s.lastRange pm).base + k * pageSize) &&&
      pteFlagWritable ≠ 0 ↔ prot &&& mmapProtWrite ≠ 0)

lemma Coverable.rangeLength_eq (h : Coverable virt size) (hsize : 0 < size) :
    rangeLength virt size = pageCount virt size * pageSize := by
  have hlt := h.offset_lt
  have hsame := h.samePages
  have hlast := h.beforeLast
  rw [rangeLength_of_lt hlt (by omega), pageCount]
  simp only [pageSize] at *
  omega

lemma lastRange_ranged (s : Machine) (pm base length prot flags page : ℕ) (t' : Tables) :
    Machine.lastRange { ranged s pm base length prot flags page with tables := t' } pm =
      newLocal s pm base length prot flags := by
  have hranges := ranges_ranged_self s pm base length prot flags page
  have hlast : (Machine.ranges { ranged s pm base length prot flags page with tables := t' }
      pm).getLastD 0 = s.locals.count := by
    change ((ranged s pm base length prot flags page).ranges pm).getLastD 0 = _
    rw [hranges]
    simp
  rw [Machine.lastRange, hlast]
  rw [locals_ranged, Records.get_alloc_self]

lemma PagesMapped.pte_eq {m m' : Memory} {top n k : ℕ}
    (h : PagesMapped m m' tops top (newLocal s pm (alignDown virt pageSize)
      (rangeLength virt size) prot flags) (alignDown virt pageSize) phys prot
      (List.range (rangeLength virt size / pageSize)))
    (hlength : rangeLength virt size = n * pageSize)
    (hstop : alignDown virt pageSize + n * pageSize < 2 ^ 64) (hn : n ≤ 2 ^ 36)
    (hend : phys + n * pageSize ≤ 2 ^ 64) (hk : k < n) :
    pte m' top (alignDown virt pageSize + k * pageSize) = phys + k * pageSize ||| ptFlags prot := by
  have hpages : rangeLength virt size / pageSize = n := by
    rw [hlength, Nat.mul_div_cancel _ (by decide)]
  have hlt {j : ℕ} (hj : j < n) : j * pageSize < n * pageSize :=
    Nat.mul_lt_mul_of_pos_right hj (by decide)
  have haddr {j : ℕ} (hj : j < n) :
      rangePage (alignDown virt pageSize) j = alignDown virt pageSize + j * pageSize :=
    Nat.mod_eq_of_lt ((Nat.add_lt_add_left (hlt hj) _).trans hstop)
  have hframe : phys + k * pageSize < 2 ^ 64 := (Nat.add_lt_add_left (hlt hk) _).trans_le hend
  have hnew := h.new k (List.mem_range.mpr (hpages.symm ▸ hk))
  rw [haddr hk, Nat.mod_eq_of_lt hframe] at hnew
  refine hnew ?_ fun j hj hpage => ?_
  · refine ⟨Nat.le_add_right _ _, ?_⟩
    simp only [LocalRange.stop, newLocal, hlength, Nat.mod_eq_of_lt hstop]
    exact Nat.add_lt_add_left (hlt hk) _
  · have hj' : j < n := hpages ▸ List.mem_range.mp hj
    rw [haddr hj'] at hpage
    simp only [pageNumber, pageSize] at *
    omega

lemma Coverable.bounds (h : Coverable virt size) (hsize : 0 < size) (hphys : pageSize ∣ phys)
    (hend : phys + size ≤ 2 ^ 64) :
    alignDown virt pageSize + pageCount virt size * pageSize < 2 ^ 64 ∧
      phys + pageCount virt size * pageSize ≤ 2 ^ 64 := by
  have hbase := alignDown_add virt
  have hlast := h.beforeLast
  have hsame := h.samePages
  simp only [pageCount, pageSize] at *
  omega

/-- The mapping covers the request exactly if the region is coverable and spans
at most `2 ^ 36` pages. -/
theorem covers_request_iff {shadow : ℕ+} {pages : ℕ → ℕ → ℕ → ℕ+} (hs : system.Reachable s)
    (hpm : pm < s.pagemaps.count) (hphys : pageSize ∣ phys) (hsize : 0 < size)
    (hlt : size < 2 ^ 64) (hvirt : virt + size ≤ 2 ^ 64) (hend : phys + size ≤ 2 ^ 64)
    (hcall : mmapMapRange pm virt phys size prot flags shadow pages s = .ok (s', ok)) :
    CoversRequest s' pm virt phys size prot ↔
      Coverable virt size ∧ pageCount virt size ≤ 2 ^ 36 := by
  obtain ⟨tops, label, hw⟩ := ordered_of_reachable hs
  obtain ⟨page, t', label', rfl, hw', _, hmapped⟩ := hw.mmapMapRange_any hpm hcall
  have hlast := lastRange_ranged s pm (alignDown virt pageSize) (rangeLength virt size) prot
    (flags ||| mmapMapAnon) page t'
  have htop := top_ranged s pm (alignDown virt pageSize) (rangeLength virt size) prot
    (flags ||| mmapMapAnon) page pm
  generalize hs' : ({ ranged s pm (alignDown virt pageSize) (rangeLength virt size) prot
    (flags ||| mmapMapAnon) page with tables := t' } : Machine) = s' at hw' hlast
  have htop' : s'.top pm = s.top pm := by
    rw [← hs', ← htop]
    rfl
  have htables : s'.tables = t' := by
    rw [← hs']
  have htops : s.top pm ∈ tops := hw.top_mem pm hpm
  have hinside := @covers_iff s pm virt size prot (flags ||| mmapMapAnon) hsize hvirt hlt
  have hbase := alignDown_add virt
  constructor
  · rintro ⟨hcovers, _, hframes, _⟩
    rw [hlast] at hcovers hframes
    have hcoverable := hinside.mp hcovers
    refine ⟨hcoverable, ?_⟩
    by_contra hgt
    have hlength : rangeLength virt size / pageSize = pageCount virt size := by
      rw [hcoverable.rangeLength_eq hsize, Nat.mul_div_cancel _ (by decide)]
    have hfirst := hframes 0 (by simp only [newLocal, hlength]; omega)
    have hagain := hframes (2 ^ 36) (by simp only [newLocal, hlength]; omega)
    have halias : pageNumber (alignDown virt pageSize + 0 * pageSize) =
        pageNumber (alignDown virt pageSize + 2 ^ 36 * pageSize) := by
      simp only [pageNumber, pageSize]
      omega
    rw [htop'] at hfirst hagain
    have heq := hfirst.symm.trans ((hw'.virt2phys_congr htops halias).trans hagain)
    have heq' := Option.some.inj (Except.ok.inj heq)
    simp only [pageSize] at heq'
    omega
  · rintro ⟨hcoverable, hcount⟩
    have hlength : rangeLength virt size / pageSize = pageCount virt size := by
      rw [hcoverable.rangeLength_eq hsize, Nat.mul_div_cancel _ (by decide)]
    obtain ⟨hstop, hframes⟩ := hcoverable.bounds hsize hphys hend
    have hword {k : ℕ} (hk : k < pageCount virt size) :=
      hmapped.pte_eq (hcoverable.rangeLength_eq hsize) hstop hcount hframes hk
    have hframe {k : ℕ} (hk : k < pageCount virt size) :
        virt2phys (s'.top pm) (alignDown virt pageSize + k * pageSize) s' =
          .ok (some (phys + k * pageSize)) := by
      have hphys' : phys + k * pageSize < 2 ^ 64 :=
        (Nat.add_lt_add_left (Nat.mul_lt_mul_of_pos_right hk (by decide)) _).trans_le hframes
      have hpte := hword hk
      rw [← htables] at hpte
      rw [htop', hw'.virt2phys_of_present htops, hpte, pageBase_or_of_dvd _ hphys']
      · exact (ptFlags_lt prot).trans (by decide)
      · exact Nat.dvd_add hphys (Nat.dvd_mul_left _ _)
      · rw [hpte]
        exact or_ptFlags_present _ _
    refine ⟨?_, fun a hlo hhi => ?_, ?_, ?_⟩
    · rw [hlast]
      exact hinside.mpr hcoverable
    · have hpage : pageNumber a =
          pageNumber (alignDown virt pageSize + (a / pageSize - virt / pageSize) * pageSize) := by
        simp only [pageNumber, pageSize] at *
        omega
      have hk : a / pageSize - virt / pageSize < pageCount virt size := by
        simp only [pageCount, pageSize] at *
        omega
      rw [htop', hw'.virt2phys_congr htops hpage, ← htop']
      exact ⟨_, hframe hk⟩
    · rw [hlast]
      intro k hk
      exact hframe (hlength ▸ hk)
    · rw [hlast]
      intro k hk
      rw [htop', htables]
      simp only [newLocal]
      rw [hword (hlength ▸ hk)]
      exact writable_or (Nat.dvd_add hphys (Nat.dvd_mul_left _ _)) prot

theorem covers_request_short :
    ∃ s s' shadow pages, system.Reachable s ∧ 0 < s.pagemaps.count ∧
      mmapMapRange 0 0x400010 0x5000 0x40 3 0 shadow pages s = .ok (s', true) ∧
      CoversRequest s' 0 0x400010 0x5000 0x40 3 := by
  obtain ⟨s, hs, hcount, hbelow⟩ := exists_pagemap
  have hpm : 0 < s.pagemaps.count := hcount ▸ Nat.one_pos
  have hlength : rangeLength 0x400010 0x40 = 0x1000 := by decide
  have hlimit : 0x201 + 9 * (rangeLength 0x400010 0x40 / pageSize) + 2 ≤ directPages := by
    rw [hlength]
    unfold directPages
    decide
  obtain ⟨s', hcall, _⟩ := mmapMapRange_returns 0 0x400010 0x5000 0x40 3 0 hbelow hlimit
  refine ⟨s, s', _, _, hs, hpm, hcall, ?_⟩
  apply (covers_request_iff hs hpm (by decide) (by decide) (by decide) (by decide) (by decide)
    hcall).mpr
  exact ⟨⟨by decide, by decide, by decide⟩, by decide⟩

theorem unaligned_page_not_covered :
    ∃ s s' shadow pages, system.Reachable s ∧ 0 < s.pagemaps.count ∧
      mmapMapRange 0 0x400800 0x5000 0x1000 3 0 shadow pages s = .ok (s', true) ∧
      ¬ CoversRequest s' 0 0x400800 0x5000 0x1000 3 := by
  obtain ⟨s, hs, hcount, hbelow⟩ := exists_pagemap
  have hpm : 0 < s.pagemaps.count := hcount ▸ Nat.one_pos
  have hlength : rangeLength 0x400800 0x1000 = 0x1000 := by decide
  have hlimit : 0x201 + 9 * (rangeLength 0x400800 0x1000 / pageSize) + 2 ≤ directPages := by
    rw [hlength]
    unfold directPages
    decide
  obtain ⟨s', hcall, _⟩ := mmapMapRange_returns 0 0x400800 0x5000 0x1000 3 0 hbelow hlimit
  obtain ⟨tops, label, hw⟩ := ordered_of_reachable hs
  obtain ⟨page, t', _, rfl, _⟩ := hw.mmapMapRange_any hpm hcall
  refine ⟨s, _, _, _, hs, hpm, hcall, fun h => ?_⟩
  have hinside := h.inside
  rw [lastRange_ranged] at hinside
  have hsame := ((covers_iff (by decide) (by decide) (by decide)).mp hinside).samePages
  cases hsame

end Cottage.Mmap
