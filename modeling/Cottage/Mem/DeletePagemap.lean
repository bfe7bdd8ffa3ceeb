import Cottage.Mem.MmapRanges
import Mathlib.Data.List.Pairwise
import Mathlib.Data.List.Perm.Basic

/-!
# Deleting a pagemap

`delete_pagemap` goes through the ranges of a pagemap by index and calls
`munmap` for each.  `munmap` takes the range out of the list that the index
runs over: the next range moves to the index that was just dealt with, and the
loop goes on behind it.  Every other range is left out.

What is proved first is about spaces in which `munmap` does what it should: it
takes its range out of the list and the pages of the range out of the space.
The `munmap` of the source takes the last entry out of the list instead.
-/

namespace Cottage.Teardown

structure Region where
  base : ℕ
  length : ℕ
  deriving DecidableEq, Repr

def Region.Mem (r : Region) (x : ℕ) : Prop :=
  r.base ≤ x ∧ x < r.base + r.length

instance (r : Region) (x : ℕ) : Decidable (r.Mem x) :=
  inferInstanceAs (Decidable (_ ∧ _))

def Region.Apart (r r' : Region) : Prop :=
  ∀ x, r.Mem x → ¬ r'.Mem x

lemma Region.Apart.symm {r r' : Region} (h : r.Apart r') : r'.Apart r :=
  fun x hx' hx => h x hx hx'

variable {σ : Type}

/-- The ranges of a pagemap in the order of the list, the addresses that are
present, and `munmap`, which is without a result when it does not return. -/
structure AddressSpace (σ : Type) where
  ranges : σ → List Region
  Present : σ → ℕ → Prop
  munmap : (base length : ℕ) → σ → Option (σ × Bool)

/-- What `delete_pagemap` leaves and returns, and the ranges it has called
`munmap` for. -/
structure Outcome (σ : Type) where
  space : σ
  rv : Bool
  called : List Region

variable (A : AddressSpace σ)

/-- The loop of `delete_pagemap`; `mmap_range_count` is read in each round. -/
def deleteLoop : ℕ → ℕ → σ → Option (Outcome σ)
  | 0, _, _ => none
  | fuel + 1, i, s =>
    match (A.ranges s)[i]? with
    | none => some ⟨s, true, []⟩
    | some r =>
      (A.munmap r.base r.length s).bind fun (s, ok) =>
        if ok then
          (deleteLoop fuel (i + 1) s).map fun o => { o with called := r :: o.called }
        else some ⟨s, false, [r]⟩

/-- The number of ranges at entry is enough fuel as long as there are not more of
them later. -/
def deletePagemap (s : σ) : Option (Outcome σ) :=
  deleteLoop A ((A.ranges s).length + 1) 0 s

/-- In a space with disjoint ranges `munmap` of one of them takes this range out
of the list and its pages out of the space. -/
def AddressSpace.Removes : Prop :=
  ∀ s r, (A.ranges s).Pairwise Region.Apart → r ∈ A.ranges s →
    ∃ s', A.munmap r.base r.length s = some (s', true) ∧ A.ranges s' = (A.ranges s).erase r ∧
      ∀ x, A.Present s' x ↔ A.Present s x ∧ ¬ r.Mem x

/-- `delete_pagemap` returns and has called `munmap` for all ranges; if it returns
true, then there are no ranges, and no page of the old ones is present. -/
def DeletesAll (s : σ) : Prop :=
  ∃ o, deletePagemap A s = some o ∧ (∀ r ∈ A.ranges s, r ∈ o.called) ∧
    (o.rv = true → A.ranges o.space = [] ∧ ∀ r ∈ A.ranges s, ∀ x, r.Mem x → ¬ A.Present o.space x)

variable {A} {s s' : σ}

lemma pairwise_erase {ranges : List Region} (r : Region) (h : ranges.Pairwise Region.Apart) :
    (ranges.erase r).Pairwise Region.Apart :=
  h.sublist List.erase_sublist

lemma deleteLoop_of_getElem? (hA : A.Removes) (hapart : (A.ranges s).Pairwise Region.Apart)
    {i : ℕ} {r : Region} (hr : (A.ranges s)[i]? = some r) (fuel : ℕ) :
    ∃ s', A.ranges s' = (A.ranges s).erase r ∧ (∀ x, A.Present s' x ↔ A.Present s x ∧ ¬ r.Mem x) ∧
      deleteLoop A (fuel + 1) i s =
        (deleteLoop A fuel (i + 1) s').map fun o => { o with called := r :: o.called } := by
  obtain ⟨s', hmunmap, hranges, hpresent⟩ := hA s r hapart (List.mem_of_getElem? hr)
  refine ⟨s', hranges, hpresent, ?_⟩
  simp only [deleteLoop, hr, hmunmap, Option.bind_some, if_true]

lemma deleteLoop_length (hA : A.Removes) (fuel i : ℕ)
    (hapart : (A.ranges s).Pairwise Region.Apart) (hfuel : (A.ranges s).length - i < fuel) :
    ∃ o, deleteLoop A fuel i s = some o ∧ o.rv = true ∧
      (A.ranges o.space).length = (A.ranges s).length - ((A.ranges s).length - i + 1) / 2 := by
  induction fuel generalizing i s with
  | zero => cases hfuel
  | succ fuel ih =>
    cases hr : (A.ranges s)[i]? with
    | none =>
      have hle := List.getElem?_eq_none_iff.mp hr
      refine ⟨⟨s, true, []⟩, ?_, rfl, ?_⟩
      · simp only [deleteLoop, hr]
      · dsimp only
        omega
    | some r =>
      obtain ⟨hlt, _⟩ := List.getElem?_eq_some_iff.mp hr
      obtain ⟨s', hranges, _, hloop⟩ := deleteLoop_of_getElem? hA hapart hr fuel
      have hlength : (A.ranges s').length = (A.ranges s).length - 1 := by
        rw [hranges, List.length_erase_of_mem (List.mem_of_getElem? hr)]
      obtain ⟨o, ho, hrv, hleft⟩ :=
        ih (i := i + 1) (hranges ▸ pairwise_erase r hapart) (by omega)
      refine ⟨{ o with called := r :: o.called }, ?_, hrv, ?_⟩
      · rw [hloop, ho, Option.map_some]
      · dsimp only
        omega

lemma deletePagemap_leaves_half (hA : A.Removes) (hapart : (A.ranges s).Pairwise Region.Apart) :
    ∃ o, deletePagemap A s = some o ∧ o.rv = true ∧
      (A.ranges o.space).length = (A.ranges s).length / 2 := by
  obtain ⟨o, ho, hrv, hleft⟩ := deleteLoop_length hA ((A.ranges s).length + 1) 0 hapart (by omega)
  exact ⟨o, ho, hrv, by omega⟩

lemma deletesAll_nil (hnil : A.ranges s = []) : DeletesAll A s := by
  refine ⟨⟨s, true, []⟩, ?_, ?_, fun _ => ⟨hnil, ?_⟩⟩
  · simp only [deletePagemap, deleteLoop, hnil, List.getElem?_nil]
  · rw [hnil]
    exact nofun
  · rw [hnil]
    exact nofun

lemma deletesAll_singleton (hA : A.Removes) {r : Region} (hone : A.ranges s = [r]) :
    DeletesAll A s := by
  have hapart : (A.ranges s).Pairwise Region.Apart := by
    rw [hone]
    exact List.pairwise_singleton _ _
  have hr : (A.ranges s)[0]? = some r := by rw [hone, List.getElem?_cons_zero]
  obtain ⟨s', hranges, hpresent, hloop⟩ :=
    deleteLoop_of_getElem? hA hapart hr (A.ranges s).length
  have hnil : A.ranges s' = [] := by rw [hranges, hone, List.erase_cons_head]
  refine ⟨⟨s', true, [r]⟩, ?_, ?_, fun _ => ⟨hnil, ?_⟩⟩
  · rw [deletePagemap, hloop, hone, List.length_singleton]
    simp only [deleteLoop, hnil, List.getElem?_nil, Option.map_some]
  · rw [hone]
    exact fun r hr => hr
  · rw [hone]
    rintro _ hmem x hx
    rw [List.mem_singleton] at hmem
    rw [hpresent, ← hmem]
    exact fun h => h.2 hx

/-- Deleting a pagemap deletes all of it if and only if it has at most one
range. -/
theorem deletesAll_iff {A : AddressSpace σ} (hA : A.Removes) {s : σ}
    (hapart : (A.ranges s).Pairwise Region.Apart) :
    DeletesAll A s ↔ (A.ranges s).length ≤ 1 := by
  constructor
  · rintro ⟨o, ho, _, hall⟩
    obtain ⟨o', ho', hrv, hleft⟩ := deletePagemap_leaves_half hA hapart
    cases ho.symm.trans ho'
    have hnil := (hall hrv).1
    rw [hnil, List.length_nil] at hleft
    omega
  · intro hle
    cases hranges : A.ranges s with
    | nil => exact deletesAll_nil hranges
    | cons r rest =>
      rw [hranges, List.length_cons] at hle
      have hrest : rest = [] := List.eq_nil_of_length_eq_zero (by omega)
      exact deletesAll_singleton hA (hrest ▸ hranges)

/-! ## A space in which exactly the ranges are present -/

/-- `munmap` of a whole range of the list. -/
def ideal : AddressSpace (List Region) where
  ranges := id
  Present ranges x := ∃ r ∈ ranges, r.Mem x
  munmap base length ranges :=
    if ⟨base, length⟩ ∈ ranges then some (ranges.erase ⟨base, length⟩, true)
    else some (ranges, false)

lemma ideal_removes : ideal.Removes := by
  intro ranges r hapart hr
  refine ⟨ranges.erase r, if_pos hr, rfl, fun x => ⟨?_, ?_⟩⟩
  · rintro ⟨r', hr', hx⟩
    have hperm := List.perm_cons_erase (l := ranges) (a := r) hr
    have hcons : (r :: ranges.erase r).Pairwise Region.Apart :=
      hperm.pairwise hapart fun h => h.symm
    exact ⟨⟨r', List.mem_of_mem_erase hr', hx⟩,
      fun hrx => (List.pairwise_cons.mp hcons).1 r' hr' x hrx hx⟩
  · rintro ⟨⟨r', hr', hx⟩, hnot⟩
    have hne : r' ≠ r := by
      rintro rfl
      exact hnot hx
    exact ⟨r', (List.mem_erase_of_ne hne).mpr hr', hx⟩

theorem deletesAll_iff_oneRange :
    ideal.Removes ∧ DeletesAll ideal [⟨0x1000, 0x2000⟩] :=
  ⟨ideal_removes, (deletesAll_iff ideal_removes (List.pairwise_singleton _ _)).mpr le_rfl⟩

theorem second_range_left :
    ideal.Removes ∧ Region.Apart ⟨0x1000, 0x1000⟩ ⟨0x5000, 0x1000⟩ ∧
      ∃ o, deletePagemap ideal [⟨0x1000, 0x1000⟩, ⟨0x5000, 0x1000⟩] = some o ∧ o.rv = true ∧
        o.called = [⟨0x1000, 0x1000⟩] ∧ o.space = [⟨0x5000, 0x1000⟩] ∧
        ideal.Present o.space 0x5000 := by
  refine ⟨ideal_removes, ?_, ⟨[⟨0x5000, 0x1000⟩], true, [⟨0x1000, 0x1000⟩]⟩, rfl, rfl, rfl, rfl,
    ⟨_, List.mem_singleton_self _, by decide⟩⟩
  intro x hx hx'
  simp only [Region.Mem] at hx hx'
  omega

end Cottage.Teardown

namespace Cottage.Mmap

open ByteMemory Mem Paging Teardown

/-- The pagemap `pm` of the machine as an address space. -/
def space (pm : ℕ) : AddressSpace Machine where
  ranges s := (s.ranges pm).map fun ref => ⟨(s.locals.get ref).base, (s.locals.get ref).length⟩
  Present s x := Present s pm (alignDown x pageSize)
  munmap base length s := (munmap pm base length s).toOption

/-- `delete_pagemap` of the machine. -/
def deletePagemap (pm : ℕ) (s : Machine) : Option (Outcome Machine) :=
  Teardown.deletePagemap (space pm) s

/-! ## Whole ranges -/

variable {s s' : Machine} {pm ref top : ℕ} {pages : List ℕ} {ok : Bool}

/-- What neither the tables nor the page allocator are part of. -/
def Machine.records (s : Machine) :
    Records PagemapRecord × Records LocalRange × Records GlobalRange :=
  (s.pagemaps, s.locals, s.globals)

lemma records_unmapPageIn {virt : ℕ} (h : unmapPageIn top virt s = .ok (s', ok)) :
    s'.records = s.records := by
  obtain ⟨_, _, heq⟩ := map_eq_ok.mp h
  cases heq
  rfl

lemma records_unmapPages (h : unmapPages top pages s = .ok s') : s'.records = s.records := by
  induction pages generalizing s with
  | nil =>
    cases h
    rfl
  | cons j pages ih =>
    obtain ⟨_, hpage, hrest⟩ := bind_eq_ok.mp h
    exact (ih hrest).trans (records_unmapPageIn hpage)

lemma records_freeFrames {shadow : ℕ} (h : freeFrames top shadow pages s = .ok (s', ok)) :
    s'.records = s.records := by
  induction pages generalizing s with
  | nil =>
    cases h
    rfl
  | cons j pages ih =>
    obtain ⟨phys, _, hrest⟩ := bind_eq_ok.mp h
    cases phys with
    | none => exact ih hrest
    | some phys =>
      obtain ⟨⟨s₁, unmapped⟩, hpage, hrest⟩ := bind_eq_ok.mp hrest
      refine Eq.trans ?_ (records_unmapPageIn hpage)
      cases unmapped with
      | false =>
        cases hrest
        rfl
      | true => exact ih (s := pmmFree phys s₁) hrest

lemma snipEndLoop_eq {stop fuel i : ℕ} (hle : i ≤ stop) (hdvd : pageSize ∣ stop - i)
    (hfuel : stop ≤ i + fuel) : snipEndLoop stop stop fuel i = stop := by
  induction fuel generalizing i with
  | zero => exact le_antisymm hle hfuel
  | succ fuel ih =>
    rw [snipEndLoop]
    split_ifs with hlt
    · have hpage := Nat.le_of_dvd (Nat.sub_pos_of_lt hlt.1) hdvd
      simp only [pageSize] at hdvd hpage ih ⊢
      exact ih (by omega) (by omega) (by omega)
    · omega

lemma munmapLoop_of_le {stop regionEnd i : ℕ} (h : stop ≤ i) (fuel : ℕ) :
    munmapLoop pm stop regionEnd fuel i s = .ok (s, true) := by
  cases fuel with
  | zero => rfl
  | succ fuel => exact if_neg (Nat.not_lt.mpr h)

/-- A range of whole pages that no other record describes. -/
structure Whole (s : Machine) (ref : ℕ) : Prop where
  dvd : pageSize ∣ (s.locals.get ref).length
  lt : (s.locals.get ref).base + (s.locals.get ref).length < 2 ^ 64
  alone : (s.globals.get (s.locals.get ref).global).locals.length = 1

lemma records_finishSnip {r : LocalRange} (hr : s.locals.get ref = r)
    (halone : (s.globals.get r.global).locals.length = 1)
    (hcall : finishSnip pm ref r.base (r.base + r.length) s = .ok (s', ok)) :
    s'.records = (s.setRanges pm (s.ranges pm).dropLast).records := by
  rw [finishSnip] at hcall
  simp only [hr, Nat.add_sub_cancel_left, if_true, halone] at hcall
  split_ifs at hcall with hanon
  · exact records_freeFrames hcall
  · cases hcall
    rfl

/-- `munmap` of a whole range takes the last entry out of the list, whichever
range that is. -/
lemma records_munmap (hwhole : Whole s ref)
    (hfound : addr2range pm (s.locals.get ref).base s = some ref)
    (hcall : munmap pm (s.locals.get ref).base (s.locals.get ref).length s = .ok (s', true)) :
    s'.records = (s.setRanges pm (s.ranges pm).dropLast).records := by
  obtain ⟨hdvd, hlt, halone⟩ := hwhole
  generalize hr : s.locals.get ref = r at *
  have hpos : r.length ≠ 0 := by
    intro hzero
    rw [munmap, if_pos hzero] at hcall
    cases hcall
  have hpage := Nat.le_of_dvd (Nat.pos_of_ne_zero hpos) hdvd
  have hlength : alignUp r.length pageSize = r.length := by
    simp only [alignUp, pageSize] at hdvd ⊢
    omega
  have hend : snipEnd (r.base + r.length) (r.base + r.length) r.base = r.base + r.length := by
    refine snipEndLoop_eq (by omega) ?_ (by omega)
    rw [Nat.add_sub_add_left]
    exact Nat.dvd_sub hdvd dvd_rfl
  obtain ⟨fuel, hfuel⟩ := Nat.exists_eq_succ_of_ne_zero hpos
  rw [munmap, if_neg hpos] at hcall
  simp only [hlength, Nat.mod_eq_of_lt hlt, Nat.add_sub_cancel_left] at hcall
  nth_rewrite 3 [hfuel] at hcall
  rw [munmapLoop, if_pos (by omega), hfound] at hcall
  simp only [hr, LocalRange.stop, Nat.mod_eq_of_lt hlt, hend] at hcall
  obtain ⟨⟨s₁, done⟩, hsnip, hrest⟩ := bind_eq_ok.mp hcall
  cases done with
  | false => cases hrest
  | true =>
    simp only [if_true, munmapLoop_of_le (Nat.le_succ _)] at hrest
    cases hrest
    rw [snip, hr] at hsnip
    simp only [lt_irrefl, false_and, if_false] at hsnip
    obtain ⟨s₂, hpages, hfinish⟩ := bind_eq_ok.mp hsnip
    have hsame := records_unmapPages hpages
    simp only [Machine.records, Prod.mk.injEq] at hsame
    obtain ⟨hpagemaps, hlocals, hglobals⟩ := hsame
    rw [records_finishSnip (hlocals ▸ hr) (hglobals ▸ halone) hfinish]
    simp only [Machine.records, Machine.setRanges, Machine.ranges, hpagemaps, hlocals, hglobals]

/-! ## The ranges of a pagemap -/

structure Tidy (s : Machine) (pm : ℕ) : Prop where
  whole : ∀ ref ∈ s.ranges pm, Whole s ref
  apart : ((space pm).ranges s).Pairwise Region.Apart

lemma Whole.covers_iff (h : Whole s ref) (x : ℕ) : (s.locals.get ref).Covers x ↔
    Region.Mem ⟨(s.locals.get ref).base, (s.locals.get ref).length⟩ x := by
  rw [LocalRange.Covers, LocalRange.stop, Nat.mod_eq_of_lt h.lt, Region.Mem]

lemma Tidy.addr2range (h : Tidy s pm) (href : ref ∈ s.ranges pm)
    (hpos : 0 < (s.locals.get ref).length) :
    addr2range pm (s.locals.get ref).base s = some ref := by
  obtain ⟨before, rest, hlist⟩ := List.append_of_mem href
  have hbase : Region.Mem ⟨(s.locals.get ref).base, (s.locals.get ref).length⟩
      (s.locals.get ref).base := ⟨le_rfl, Nat.lt_add_of_pos_right hpos⟩
  refine List.find?_eq_some_iff_append.mpr
    ⟨decide_eq_true (((h.whole ref href).covers_iff _).mpr hbase), before, rest, hlist, ?_⟩
  intro ref' href'
  have hmem : ref' ∈ s.ranges pm := hlist ▸ List.mem_append_left _ href'
  have hapart := List.pairwise_map.mp h.apart
  rw [hlist, List.pairwise_append] at hapart
  simp only [(h.whole ref' hmem).covers_iff, Bool.not_eq_true', decide_eq_false_iff_not]
  exact fun hx => hapart.2.2 ref' href' ref (.head _) _ hx hbase

lemma Tidy.munmap (h : Tidy s pm) (href : ref ∈ s.ranges pm)
    (hcall : munmap pm (s.locals.get ref).base (s.locals.get ref).length s = .ok (s', true)) :
    Tidy s' pm ∧ (space pm).ranges s' = ((space pm).ranges s).dropLast := by
  have hpos : 0 < (s.locals.get ref).length := by
    apply Nat.pos_of_ne_zero
    intro hzero
    rw [Mmap.munmap, if_pos hzero] at hcall
    cases hcall
  have hrecords := records_munmap (h.whole ref href) (h.addr2range href hpos) hcall
  simp only [Machine.records, Prod.mk.injEq] at hrecords
  obtain ⟨hpagemaps, hlocals, hglobals⟩ := hrecords
  have hranges : s'.ranges pm = (s.ranges pm).dropLast := by
    rw [Machine.ranges, hpagemaps]
    exact ranges_setRanges_self s pm _
  have hspace : (space pm).ranges s' = ((space pm).ranges s).dropLast := by
    simp only [space, hranges, hlocals, Machine.setRanges, List.map_dropLast]
  refine ⟨⟨fun ref' href' => ?_, ?_⟩, hspace⟩
  · rw [hranges] at href'
    obtain ⟨hdvd, hlt, halone⟩ := h.whole ref' ((List.dropLast_sublist _).subset href')
    constructor
    · rwa [hlocals]
    · rwa [hlocals]
    · rwa [hlocals, hglobals]
  · rw [hspace]
    exact h.apart.sublist (List.dropLast_sublist _)

lemma Tidy.deleteLoop (h : Tidy s pm) {ranges : List Region}
    (hranges : (space pm).ranges s = ranges) {fuel i : ℕ} {o : Outcome Machine}
    (hloop : deleteLoop (space pm) fuel i s = some o) (hrv : o.rv = true) :
    o.called = (ranges.drop i).take ((ranges.length - i + 1) / 2) ∧
      (space pm).ranges o.space = ranges.take (ranges.length - (ranges.length - i + 1) / 2) := by
  induction fuel generalizing i s o ranges with
  | zero => cases hloop
  | succ fuel ih =>
    rw [Teardown.deleteLoop, hranges] at hloop
    cases hr : ranges[i]? with
    | none =>
      have hle := List.getElem?_eq_none_iff.mp hr
      rw [hr] at hloop
      cases hloop
      constructor
      · rw [List.drop_of_length_le hle, List.take_nil]
      · rw [hranges, List.take_of_length_le (by omega)]
    | some r =>
      obtain ⟨hi, hir⟩ := List.getElem?_eq_some_iff.mp hr
      rw [hr] at hloop
      rw [← hranges] at hr
      obtain ⟨ref, href, rfl⟩ := Option.map_eq_some_iff.mp (List.getElem?_map.symm.trans hr)
      obtain ⟨⟨s₁, ok⟩, hcall, hrest⟩ := Option.bind_eq_some_iff.mp hloop
      cases ok with
      | false =>
        cases hrest
        cases hrv
      | true =>
        obtain ⟨o', ho', rfl⟩ := Option.map_eq_some_iff.mp hrest
        obtain ⟨htidy, hspace⟩ := h.munmap (List.mem_of_getElem? href) (toOption_eq_some.mp hcall)
        obtain ⟨hcalled, hleft⟩ := ih htidy hspace ho' hrv
        rw [hranges, List.length_dropLast, List.dropLast_eq_take] at hcalled hleft
        rw [List.drop_take, List.take_take] at hcalled
        rw [List.take_take] at hleft
        have hcount : (ranges.length - i + 1) / 2 = min
            ((ranges.length - 1 - (i + 1) + 1) / 2) (ranges.length - 1 - (i + 1)) + 1 := by
          omega
        constructor
        · rw [List.drop_eq_getElem_cons hi, hir, hcount, List.take_succ_cons, hcalled]
        · rw [hleft]
          congr 1
          omega

/-- When `delete_pagemap` returns true, it has called `munmap` for the first half
of the ranges, and its list has lost the last half. -/
theorem delete_pagemap_halves (h : Tidy s pm) {o : Outcome Machine}
    (hcall : deletePagemap pm s = some o) (hrv : o.rv = true) :
    o.called = ((space pm).ranges s).take ((((space pm).ranges s).length + 1) / 2) ∧
      (space pm).ranges o.space =
        ((space pm).ranges s).take (((space pm).ranges s).length / 2) := by
  obtain ⟨hcalled, hleft⟩ := h.deleteLoop rfl hcall hrv
  refine ⟨hcalled, hleft.trans ?_⟩
  congr 1
  omega

/-- The tables of the pagemap and of its shadows refer to themselves. -/
def twoRanges : Machine where
  tables :=
    ⟨write64 (write64 (fun _ => 0) (entryAddr 0x1000 0) 0x1007) (entryAddr 0x2000 0) 0x2007, []⟩
  kernel := 0x1000
  pagemaps := ⟨1, fun _ => ⟨0x1000, [0, 1]⟩⟩
  locals := ⟨2, fun ref => ⟨0, ref, 0x1000 + ref * 0x4000, 0x1000, 0, 3, mmapMapAnon⟩⟩
  globals := ⟨2, fun ref => ⟨0x2000, [ref], none, 0x1000 + ref * 0x4000, 0x1000, 0⟩⟩
  refcount := fun _ => 0
  freed := []
  errno := 0

lemma ranges_twoRanges :
    (space 0).ranges twoRanges = [⟨0x1000, 0x1000⟩, ⟨0x5000, 0x1000⟩] := by
  decide +kernel

lemma tidy_twoRanges : Tidy twoRanges 0 := by
  refine ⟨fun ref href => ⟨dvd_rfl, ?_, rfl⟩, ?_⟩
  · rcases List.mem_pair.mp href with rfl | rfl <;> decide
  · rw [ranges_twoRanges]
    refine List.pairwise_pair.mpr fun x hx hx' => ?_
    simp only [Region.Mem] at hx hx'
    omega

theorem delete_pagemap_halves_two :
    ∃ o, deletePagemap 0 twoRanges = some o ∧ o.rv = true ∧ o.called = [⟨0x1000, 0x1000⟩] ∧
      (space 0).ranges o.space = [⟨0x1000, 0x1000⟩] := by
  have hany : (deletePagemap 0 twoRanges).any Outcome.rv = true := by decide +kernel
  obtain ⟨o, ho, hrv⟩ := (Option.any_eq_true _ _).mp hany
  have hhalves := delete_pagemap_halves tidy_twoRanges ho hrv
  exact ⟨o, ho, hrv, hhalves⟩

end Cottage.Mmap
