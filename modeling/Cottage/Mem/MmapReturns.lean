import Mathlib.Data.PNat.Basic
import Cottage.Mem.MmapRanges

/-!
# Mapping calls return

The only reason for which a call that maps a range does not return is an answer
of the page allocator that it cannot give.  Where the pages from some number on
are free, answers may be taken from there one after the other, and the call
returns.  So every region can be mapped in the machine after boot.
-/

namespace Cottage.Mmap

open ByteMemory Mem Paging Transition

variable {s : Machine} {t : Tables} {lo hi k n i top virt phys flags prot : ℕ}

@[irreducible] def directPages : ℕ :=
  2 ^ 35

@[irreducible] def pageAt (k : ℕ) : ℕ+ :=
  0x1000 * k.succPNat

def pagesFrom (lo level : ℕ) : ℕ+ :=
  pageAt (lo + (3 - level))

def Below (lo : ℕ) (t : Tables) : Prop :=
  ∀ n ∈ t.owned, n < pageAt lo

lemma coe_pageAt (k : ℕ) : (pageAt k : ℕ) = pageSize * (k + 1) := by
  unfold pageAt
  exact PNat.mul_coe 0x1000 k.succPNat

lemma pageAt_lt (h : k < n) : (pageAt k : ℕ) < pageAt n := by
  simp only [coe_pageAt, pageSize]
  omega

lemma Below.mono (h : Below lo t) (hle : lo ≤ hi) : Below hi t := by
  intro n hn
  have hlt := h n hn
  simp only [coe_pageAt, pageSize] at hlt ⊢
  omega

lemma Below.freshPage (h : Below lo t) (hle : lo ≤ k) (hk : k + 2 ≤ directPages) :
    FreshPage (pageAt k) t := by
  refine ⟨⟨k + 1, coe_pageAt k⟩, (pageAt k).pos, ?_, fun hmem => ?_⟩
  · unfold directPages at hk
    simp only [coe_pageAt, pageSize, directMapSize]
    omega
  · exact lt_irrefl _ (h.mono hle _ hmem)

lemma Below.cons {m : Memory} (h : Below lo t) (hle : lo ≤ k) :
    Below (k + 1) ⟨m, pageAt k :: t.owned⟩ := by
  intro n hn
  rcases List.mem_cons.mp hn with rfl | hn
  · exact pageAt_lt (Nat.lt_succ_self k)
  · exact h.mono (hle.trans (Nat.le_succ k)) n hn

lemma getNextLevel_returns (n i : ℕ) (h : Below lo t) (hlo : lo + 2 ≤ directPages) :
    ∃ t' next, getNextLevel n i true (pageAt lo) t = some (t', next) ∧ Below (lo + 1) t' := by
  have hfresh := h.freshPage le_rfl hlo
  have hne : (pageAt lo : ℕ) ≠ 0 := (pageAt lo).ne_zero
  by_cases hpresent : read64 t.memory (entryAddr n i) &&& 0x01 ≠ 0
  · exact ⟨t, _, if_pos hpresent, h.mono (Nat.le_succ lo)⟩
  · refine ⟨⟨write64 (memset t.memory (pageAt lo + higherHalf) 0 pageSize) (entryAddr n i)
      (pageAt lo ||| 0b111), pageAt lo :: t.owned⟩, pageAt lo, ?_, h.cons le_rfl⟩
    simp only [getNextLevel, if_neg hpresent, Bool.true_eq_false, if_false, Paging.pmmAlloc,
      if_neg hne, if_pos hfresh, Option.map_some]

lemma descend_returns {indices : List ℕ} (n : ℕ) (h : Below lo t)
    (hlo : lo + indices.length + 1 ≤ directPages) :
    ∃ t' n', descend true (indices.zip ((List.range' lo indices.length).map fun k => pageAt k)) n
      t = some (t', n') ∧ Below (lo + indices.length) t' := by
  induction indices generalizing lo n t with
  | nil => exact ⟨t, n, rfl, h⟩
  | cons i indices ih =>
    simp only [List.length_cons, List.range'_succ, List.map_cons, List.zip_cons_cons] at hlo ⊢
    have hlength : lo + (indices.length + 1) = lo + 1 + indices.length := by omega
    rw [hlength] at hlo ⊢
    obtain ⟨t₁, next, hcall, h₁⟩ := getNextLevel_returns n i h (by omega)
    by_cases hnext : next = 0
    · refine ⟨t₁, 0, ?_, h₁.mono (Nat.le_add_right _ _)⟩
      simp only [descend, hcall, Option.bind_some, if_pos hnext]
    · obtain ⟨t', n', hcall', h'⟩ := ih next h₁ hlo
      refine ⟨t', n', ?_, h'⟩
      simp only [descend, hcall, Option.bind_some, if_neg hnext, hcall']

lemma mapPage_returns (top virt phys flags : ℕ) (h : Below lo t) (hlo : lo + 4 ≤ directPages) :
    ∃ t' ok, mapPage top virt phys flags (fun level => pagesFrom lo level) t = some (t', ok) ∧
      Below (lo + 3) t' := by
  obtain ⟨t₁, n, hpml1, h₁⟩ : ∃ t' n, pml1 top virt true (fun level => pagesFrom lo level) t =
      some (t', n) ∧ Below (lo + 3) t' := by
    have hwalk := @descend_returns t lo [pml4Entry virt, pml3Entry virt, pml2Entry virt] top h (by
        omega)
    simpa only [pml1, pagesFrom, List.length_cons, List.length_nil, List.range'_succ,
      List.range'_zero, List.map_cons, List.map_nil, List.zip_cons_cons, List.zip_nil_right,
      Nat.add_assoc, Nat.reduceAdd, Nat.reduceSub, Nat.add_zero] using hwalk
  by_cases hn : n = 0
  · refine ⟨t₁, false, ?_, h₁⟩
    simp only [mapPage, hpml1, Option.map_some, if_pos hn]
  · refine ⟨⟨write64 t₁.memory (entryAddr n (pml1Entry virt)) (phys ||| flags), t₁.owned⟩, true,
      ?_, fun n hn => h₁ n hn⟩
    simp only [mapPage, hpml1, Option.map_some, if_neg hn]

lemma mapPageIn_returns (top virt phys flags : ℕ) (h : Below lo s.tables)
    (hlo : lo + 4 ≤ directPages) :
    ∃ t' ok, mapPageIn top virt phys flags (pagesFrom lo) s = .ok ({ s with tables := t' }, ok) ∧
      Below (lo + 3) t' := by
  obtain ⟨t', ok, hcall, h'⟩ := mapPage_returns top virt phys flags h hlo
  refine ⟨t', ok, ?_, h'⟩
  rw [mapPageIn, hcall]
  rfl

lemma mapLocals_returns {refs : List ℕ} (h : Below (lo + 3 * i) s.tables)
    (hlo : lo + 3 * (i + refs.length) + 1 ≤ directPages) :
    ∃ t' ok, mapLocals virt phys flags (fun i => pagesFrom (lo + 3 * i)) refs i s =
      .ok ({ s with tables := t' }, ok) ∧ Below (lo + 3 * (i + refs.length)) t' := by
  induction refs generalizing s i with
  | nil => exact ⟨s.tables, true, rfl, h.mono (by simp)⟩
  | cons ref rest ih =>
    have hlength : i + (ref :: rest).length = i + 1 + rest.length := by
      rw [List.length_cons]
      omega
    rw [hlength] at hlo ⊢
    have hpages : lo + 3 * i + 4 ≤ directPages := by omega
    have hnext : lo + 3 * i + 3 ≤ lo + 3 * (i + 1) := by omega
    have hlast : lo + 3 * (i + 1) ≤ lo + 3 * (i + 1 + rest.length) := by omega
    by_cases hcovers : (s.locals.get ref).Covers virt
    · obtain ⟨t₁, ok₁, hcall₁, h₁⟩ := mapPageIn_returns (s.top (s.locals.get ref).pagemap)
        virt phys flags h hpages
      cases ok₁ with
      | false =>
        refine ⟨t₁, false, ?_, h₁.mono (hnext.trans hlast)⟩
        rw [mapLocals, if_neg (not_not.mpr hcovers), hcall₁]
        rfl
      | true =>
        obtain ⟨t', ok, hcall, h'⟩ := ih (s := { s with tables := t₁ }) (h₁.mono hnext) hlo
        refine ⟨t', ok, ?_, h'⟩
        rw [mapLocals, if_neg (not_not.mpr hcovers), hcall₁]
        exact hcall
    · obtain ⟨t', ok, hcall, h'⟩ := ih (h.mono (Nat.le_add_right _ 3 |>.trans hnext)) hlo
      refine ⟨t', ok, ?_, h'⟩
      rw [mapLocals, if_pos hcovers]
      exact hcall

lemma mmapMapPageInRange_returns {g : ℕ} (virt phys prot : ℕ) (h : Below lo s.tables)
    (hlocals : (s.globals.get g).locals.length = 1) (hlo : lo + 10 ≤ directPages) :
    ∃ t' ok, mmapMapPageInRange g virt phys prot (fun c => pagesFrom (lo + 3 * c)) s =
      .ok ({ s with tables := t' }, ok) ∧ Below (lo + 9) t' := by
  have hlo₁ : lo + 3 * 0 + 4 ≤ directPages := by omega
  have hlo₂ : lo + 3 * 1 + 4 ≤ directPages := by omega
  have hlo₃ : lo + 6 + 3 * (0 + (s.globals.get g).locals.length) + 1 ≤ directPages := by omega
  have hle₁ : lo + 3 * 0 + 3 ≤ lo + 3 * 1 := by omega
  have hle₁' : lo + 3 * 0 + 3 ≤ lo + 9 := by omega
  have hle₂' : lo + 3 * 1 + 3 ≤ lo + 9 := by omega
  have hle₂ : lo + 3 * 1 + 3 ≤ lo + 6 + 3 * 0 := by omega
  have hle₃ : lo + 6 + 3 * (0 + (s.globals.get g).locals.length) ≤ lo + 9 := by omega
  obtain ⟨t₁, ok₁, hcall₁, h₁⟩ := mapPageIn_returns (s.globals.get g).shadowPagemap virt phys
    (ptFlags prot) (h.mono (Nat.le_add_right lo (3 * 0))) hlo₁
  cases ok₁ with
  | false => exact ⟨t₁, false, bind_eq_ok.mpr ⟨_, hcall₁, rfl⟩, h₁.mono hle₁'⟩
  | true =>
    obtain ⟨t₂, ok₂, hcall₂, h₂⟩ := @mapPageIn_returns { s with tables := t₁ } _
      (s.globals.get g).shadowPagemap virt phys (ptFlags prot) (h₁.mono hle₁) hlo₂
    cases ok₂ with
    | false =>
      exact ⟨t₂, false, bind_eq_ok.mpr ⟨_, hcall₁, bind_eq_ok.mpr ⟨_, hcall₂, rfl⟩⟩, h₂.mono hle₂'⟩
    | true =>
      obtain ⟨t', ok, hcall, h'⟩ := @mapLocals_returns { s with tables := t₂ } (lo + 6) 0
        virt phys (ptFlags prot) (s.globals.get g).locals (h₂.mono hle₂) hlo₃
      have hpages : (fun i => pagesFrom (lo + 3 * (i + 2))) = fun i =>
          pagesFrom (lo + 6 + 3 * i) := by
        funext i
        have hindex : lo + 3 * (i + 2) = lo + 6 + 3 * i := by omega
        rw [hindex]
      rw [← hpages] at hcall
      exact ⟨t', ok, bind_eq_ok.mpr ⟨_, hcall₁, bind_eq_ok.mpr ⟨_, hcall₂, hcall⟩⟩, h'.mono hle₃⟩

lemma mapPages_returns {g base start count : ℕ} (h : Below (lo + 9 * start) s.tables)
    (hlocals : (s.globals.get g).locals.length = 1)
    (hlo : lo + 9 * (start + count) + 1 ≤ directPages) :
    ∃ t', mapPages g base phys prot (fun k c => pagesFrom (lo + 9 * k + 3 * c))
      (List.range' start count) s = .ok { s with tables := t' } ∧
        Below (lo + 9 * (start + count)) t' := by
  induction count generalizing s start with
  | zero => exact ⟨s.tables, rfl, h⟩
  | succ count ih =>
    have hcount : start + (count + 1) = start + 1 + count := by omega
    rw [hcount] at hlo ⊢
    have hpages : lo + 9 * start + 10 ≤ directPages := by omega
    have hnext : lo + 9 * start + 9 ≤ lo + 9 * (start + 1) := by omega
    obtain ⟨t₁, ok₁, hcall₁, h₁⟩ := mmapMapPageInRange_returns
      ((base + start * pageSize) % 2 ^ 64) ((phys + start * pageSize) % 2 ^ 64) prot h hlocals
      hpages
    obtain ⟨t', hcall, h'⟩ := ih (s := { s with tables := t₁ }) (h₁.mono hnext) hlocals hlo
    refine ⟨t', ?_, h'⟩
    rw [List.range'_succ, mapPages, hcall₁]
    exact hcall

lemma mmapMapRange_returns (pm virt phys size prot flags : ℕ) (h : Below lo s.tables)
    (hlo : lo + 9 * (rangeLength virt size / pageSize) + 2 ≤ directPages) :
    ∃ s', mmapMapRange pm virt phys size prot flags (pageAt lo)
      (fun k c => pagesFrom (lo + 1 + 9 * k + 3 * c)) s = .ok (s', true) ∧
        Below (lo + 1 + 9 * (rangeLength virt size / pageSize)) s'.tables := by
  have hfresh := h.freshPage le_rfl (show lo + 2 ≤ directPages by omega)
  have hne : (pageAt lo : ℕ) ≠ 0 := (pageAt lo).ne_zero
  set t₁ : Tables :=
    ⟨memset s.tables.memory (pageAt lo + higherHalf) 0 pageSize, pageAt lo :: s.tables.owned⟩
  have hpage : pmmAllocIn (pageAt lo) s = .ok ({ s with tables := t₁ }, (pageAt lo : ℕ)) := by
    have halloc : Paging.pmmAlloc (pageAt lo) s.tables = some (t₁, (pageAt lo : ℕ)) := by
      rw [Paging.pmmAlloc, if_neg hne, if_pos hfresh]
    exact map_eq_ok.mpr ⟨_, answered_eq_ok.mpr halloc, rfl⟩
  set base := alignDown virt pageSize
  set L := rangeLength virt size
  obtain ⟨t', hcall, h'⟩ := @mapPages_returns
    { ranged s pm base L prot (flags ||| mmapMapAnon) (pageAt lo) with tables := t₁ }
    (lo + 1) phys prot s.globals.count base 0 (L / pageSize) (h.cons le_rfl)
    (by
      rw [globals_ranged, Records.get_alloc_self, newGlobal]
      rfl)
    (by omega)
  rw [← List.range_eq_range'] at hcall
  refine ⟨{ ranged s pm base L prot (flags ||| mmapMapAnon) (pageAt lo) with tables := t' }, ?_, ?_⟩
  · refine bind_eq_ok.mpr ⟨_, hpage, map_eq_ok.mpr ⟨_, ?_, rfl⟩⟩
    rw [← rangeLength]
    exact hcall
  · simpa only [Nat.zero_add] using h'

lemma pmmAllocMany_returns {count : ℕ} (h : Below lo s.tables) (hcount : 0 < count)
    (hlo : lo + count + 1 ≤ directPages) :
    ∃ t', pmmAllocMany (pageAt lo) count s = .ok ({ s with tables := t' }, (pageAt lo : ℕ)) ∧
      Below (lo + count) t' := by
  have hpage (k : ℕ) : (pageAt lo : ℕ) + k * pageSize = pageAt (lo + k) := by
    simp only [coe_pageAt, pageSize]
    omega
  have hfresh : ∀ n ∈ (List.range count).map fun k => (pageAt lo : ℕ) + k * pageSize,
      FreshPage n s.tables := by
    intro n hn
    obtain ⟨k, hk, rfl⟩ := List.mem_map.mp hn
    rw [hpage]
    have hk' := List.mem_range.mp hk
    exact h.freshPage (Nat.le_add_right lo k) (by omega)
  refine ⟨⟨memset s.tables.memory (pageAt lo + higherHalf) 0 (count * pageSize),
    (List.range count).map (fun k => (pageAt lo : ℕ) + k * pageSize) ++ s.tables.owned⟩, ?_, ?_⟩
  · rw [Mmap.pmmAllocMany, if_neg hcount.ne', if_pos hfresh]
  · intro n hn
    rcases List.mem_append.mp hn with hn | hn
    · obtain ⟨k, hk, rfl⟩ := List.mem_map.mp hn
      rw [hpage]
      exact pageAt_lt (Nat.add_lt_add_left (List.mem_range.mp hk) lo)
    · exact h.mono (Nat.le_add_right lo count) n hn

/-! ## After boot -/

lemma exists_pagemap : ∃ s, system.Reachable s ∧ s.pagemaps.count = 1 ∧ Below 0x201 s.tables := by
  obtain ⟨t, hboot, hbelow⟩ := exists_booted
  have h : Below 0x1FF t := by
    intro n hn
    have hlt := hbelow n hn
    simp only [coe_pageAt, pageSize]
    omega
  have hlimit : 0x200 + 2 ≤ directPages := by
    unfold directPages
    decide
  have hnew := newPagemap_of_fresh 0x1000 (h.freshPage (Nat.le_succ _) hlimit)
  set s₀ : Machine := ⟨t, 0x1000, ⟨0, fun _ => ⟨0, []⟩⟩, ⟨0, fun _ => ⟨0, 0, 0, 0, 0, 0, 0⟩⟩,
    ⟨0, fun _ => ⟨0, [], none, 0, 0, 0⟩⟩, fun _ => 0, [], 0⟩
  have hinit : system.Reachable s₀ := .init ⟨⟨_, hboot, rfl, rfl⟩, rfl, rfl, rfl, rfl⟩
  have hstep : system.step s₀ (.newPagemap (pageAt 0x200)) = some (s₀.addPagemap
      ⟨importHigherHalf 0x1000 (pageAt 0x200)
        (memset t.memory (pageAt 0x200 + higherHalf) 0 pageSize), pageAt 0x200 :: t.owned⟩
      (pageAt 0x200)) := by
    have hsystem : system.step = step := rfl
    have hvalid : (Event.newPagemap (pageAt 0x200)).Valid s₀ := trivial
    rw [hsystem, step, if_pos hvalid, runEvent]
    exact congrArg (fun x => ((answered x).map fun x => s₀.addPagemap x.1 x.2).toOption) hnew
  exact ⟨_, hinit.step trivial hstep, rfl, h.cons (Nat.le_succ _)⟩

end Cottage.Mmap
