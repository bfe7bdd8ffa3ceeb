import Cottage.Foundations.Loop
import Cottage.Mem.Mmap
import Cottage.Mem.TableSupply
import Cottage.Mem.Translation

/-!
# Mapping memory for the ACPI interpreter

`laihost_map` takes the first place in the kernel's pagemap, from the beginning
of the higher half on, where as many bytes as it is asked for lie on pages that
are not present.  It maps the physical memory there, one page after the other,
and returns the address of the first page.  An address inside a page is thus
not reached: the bytes are reached exactly from page addresses on, where there
is a place for them, and where there are pages for the tables that are missing.
-/

namespace Cottage.Laihost

open ByteMemory Loop Mem Paging Transition
open Mmap (pteFlagPresent pteFlagWritable)

/-- `pte != NULL && (*pte & PTE_FLAG_PRESENT)`, for what `virt2pte` returns. -/
def present (top virt : ℕ) (t : Tables) : Bool :=
  (entryAt top virt t).any fun e => e &&& pteFlagPresent ≠ 0

inductive Search
  | outer (i : ℕ)
  | inner (i j : ℕ)

/-- One test of a loop condition and what follows.  The outer loop leaves the
address unset when it ends by its condition. -/
def searchRound (busy : ℕ → Bool) (count : ℕ) : Search → Search ⊕ Option ℕ
  | .outer i => if i < 2 ^ 64 - 1 then .inl (.inner i 0) else .inr none
  | .inner i j =>
    if j < count then
      if busy ((i + j + higherHalf) % 2 ^ 64) = true then
        .inl (.outer ((i + pageSize) % 2 ^ 64))
      else .inl (.inner i ((j + pageSize) % 2 ^ 64))
    else .inr (some ((i + higherHalf) % 2 ^ 64))

structure Mapping where
  i : ℕ
  tables : Tables

def mapRound (top virtAddr address count : ℕ) (pages : List ℕ → ℕ+) (x : Mapping) :
    Mapping ⊕ Option Tables :=
  if x.i < count then
    let virt := (virtAddr + x.i) % 2 ^ 64
    (mapPage top virt ((address + x.i) % 2 ^ 64) (pteFlagPresent ||| pteFlagWritable)
      (fun level => tablePages pages virt level) x.tables).elim (.inr none) fun (t, _) =>
        .inl ⟨(x.i + pageSize) % 2 ^ 64, t⟩
  else .inr (some x.tables)

/-- The tables after the call and the address it returns. -/
def laihostMap (fuel kernel address count : ℕ) (pages : List ℕ → ℕ+) (t : Tables) :
    Option (Tables × ℕ) :=
  (run (searchRound (fun virt => present kernel virt t) count) fuel (.outer 0)).join.bind
    fun virtAddr =>
      (run (mapRound kernel virtAddr address count pages) fuel ⟨0, t⟩).join.map fun t =>
        (t, virtAddr)

/-- The physical address that a pagemap gives for a virtual one. -/
def translate (top virt : ℕ) (t : Tables) : Option ℕ :=
  (entryAt top virt t).bind fun e =>
    if e &&& pteFlagPresent ≠ 0 then some (pageBase e + pageOffset virt) else none

/-- The call returns an address from which on all bytes are reached, and pages
that were present keep their words. -/
def Maps (s : State) (address count : ℕ) (pages : List ℕ → ℕ+) : Prop :=
  ∃ fuel t virtAddr, laihostMap fuel s.kernel address count pages s.tables = some (t, virtAddr) ∧
    (∀ k < count, translate s.kernel ((virtAddr + k) % 2 ^ 64) t = some ((address + k) % 2 ^ 64)) ∧
    ∀ top ∈ s.pagemaps, ∀ virt, present top virt s.tables = true →
      entryAt top virt t = entryAt top virt s.tables

variable {busy : ℕ → Bool} {fuel count address virtAddr i v : ℕ} {pages : List ℕ → ℕ+}
  {t t' : Tables} {s : State}

lemma exists_laihostMap {kernel : ℕ} :
    (∃ fuel, laihostMap fuel kernel address count pages t = some (t', v)) ↔
      Ends (searchRound (fun virt => present kernel virt t) count) (.outer 0) (some v) ∧
        Ends (mapRound kernel v address count pages) ⟨0, t⟩ (some t') := by
  constructor
  · rintro ⟨fuel, hcall⟩
    obtain ⟨virtAddr, hsearch, hrest⟩ := Option.bind_eq_some_iff.mp hcall
    obtain ⟨t₁, hmap, heq⟩ := Option.map_eq_some_iff.mp hrest
    cases heq
    exact ⟨ends_of_run (Option.join_eq_some_iff.mp hsearch),
      ends_of_run (Option.join_eq_some_iff.mp hmap)⟩
  · rintro ⟨hsearch, hmap⟩
    obtain ⟨fuel₁, hsearch⟩ := ends_iff_run.mp hsearch
    obtain ⟨fuel₂, hmap⟩ := ends_iff_run.mp hmap
    refine ⟨max fuel₁ fuel₂, ?_⟩
    rw [laihostMap, run_mono (le_max_left _ _) hsearch, Option.join_some, Option.bind_some,
      run_mono (le_max_right _ _) hmap, Option.join_some, Option.map_some]

variable {x y : Search} {r : Option ℕ}

lemma searchRound_inl (h : searchRound busy count x = .inl y) :
    (∃ i, x = .outer i ∧ i < 2 ^ 64 - 1 ∧ y = .inner i 0) ∨
      (∃ i j, x = .inner i j ∧ j < count ∧ busy ((i + j + higherHalf) % 2 ^ 64) = true ∧
        y = .outer ((i + pageSize) % 2 ^ 64)) ∨
      ∃ i j, x = .inner i j ∧ j < count ∧ busy ((i + j + higherHalf) % 2 ^ 64) = false ∧
        y = .inner i ((j + pageSize) % 2 ^ 64) := by
  cases x with
  | outer i =>
    rw [searchRound] at h
    split at h
    · rename_i hi
      exact .inl ⟨i, rfl, hi, (Sum.inl.inj h).symm⟩
    · cases h
  | inner i j =>
    rw [searchRound] at h
    split at h
    · rename_i hj
      split at h
      · rename_i hbusy
        exact .inr (.inl ⟨i, j, rfl, hj, hbusy, (Sum.inl.inj h).symm⟩)
      · rename_i hfree
        exact .inr (.inr ⟨i, j, rfl, hj, Bool.eq_false_iff.mpr hfree, (Sum.inl.inj h).symm⟩)
    · cases h

lemma searchRound_inr (h : searchRound busy count x = .inr r) :
    (∃ i, x = .outer i ∧ 2 ^ 64 - 1 ≤ i ∧ r = none) ∨
      ∃ i j, x = .inner i j ∧ count ≤ j ∧ r = some ((i + higherHalf) % 2 ^ 64) := by
  cases x with
  | outer i =>
    rw [searchRound] at h
    split at h
    · cases h
    · rename_i hi
      exact .inl ⟨i, rfl, Nat.not_lt.mp hi, (Sum.inr.inj h).symm⟩
  | inner i j =>
    rw [searchRound] at h
    split at h
    · split at h <;> cases h
    · rename_i hj
      exact .inr ⟨i, j, rfl, Nat.not_lt.mp hj, (Sum.inr.inj h).symm⟩

/-! ## What the search finds -/

def Gap (busy : ℕ → Bool) (count i : ℕ) : Prop :=
  ∀ j < count, pageSize ∣ j → busy ((i + j + higherHalf) % 2 ^ 64) = false

lemma not_gap_of_busy {j : ℕ} (hj : j < count) (haligned : pageSize ∣ j)
    (hbusy : busy ((i + j + higherHalf) % 2 ^ 64) = true) : ¬ Gap busy count i :=
  fun hgap => absurd (hbusy.symm.trans (hgap j hj haligned)) (by decide)

structure NoGapBefore (busy : ℕ → Bool) (count i : ℕ) : Prop where
  aligned : pageSize ∣ i
  lt : i < 2 ^ 64
  none : ∀ i' < i, pageSize ∣ i' → ¬ Gap busy count i'

structure FirstGap (busy : ℕ → Bool) (count i : ℕ) : Prop
    extends NoGapBefore busy count i where
  gap : Gap busy count i

lemma FirstGap.unique {i' : ℕ} (h : FirstGap busy count i) (h' : FirstGap busy count i') :
    i = i' := by
  rcases Nat.lt_trichotomy i i' with hlt | heq | hlt
  · exact absurd h.gap (h'.none i hlt h.aligned)
  · exact heq
  · exact absurd h'.gap (h.none i' hlt h'.aligned)

lemma noGapBefore_zero : NoGapBefore busy count 0 :=
  ⟨Nat.dvd_zero _, Nat.two_pow_pos 64, fun _ h => absurd h (Nat.not_lt_zero _)⟩

lemma lt_of_lt_add_pageSize {a b : ℕ} (ha : pageSize ∣ a) (hb : pageSize ∣ b)
    (h : a < b + pageSize) : a ≤ b := by
  obtain ⟨k, rfl⟩ := ha
  obtain ⟨l, rfl⟩ := hb
  simp only [pageSize] at *
  omega

lemma mod_add_pageSize {a : ℕ} (ha : pageSize ∣ a) (hlt : a < 2 ^ 64) :
    (a + pageSize) % 2 ^ 64 = a + pageSize ∧ a + pageSize < 2 ^ 64 ∨
      (a + pageSize) % 2 ^ 64 = 0 := by
  obtain ⟨k, rfl⟩ := ha
  simp only [pageSize] at *
  omega

lemma NoGapBefore.next (h : NoGapBefore busy count i) (hbusy : ¬ Gap busy count i) :
    NoGapBefore busy count ((i + pageSize) % 2 ^ 64) := by
  rcases mod_add_pageSize h.aligned h.lt with ⟨heq, hlt⟩ | heq
  · rw [heq]
    refine ⟨Nat.dvd_add h.aligned (Nat.dvd_refl _), hlt, fun i' hi' haligned => ?_⟩
    rcases (lt_of_lt_add_pageSize haligned h.aligned hi').lt_or_eq with hlt' | rfl
    · exact h.none i' hlt' haligned
    · exact hbusy
  · rw [heq]
    exact noGapBefore_zero

def Searching (busy : ℕ → Bool) (count : ℕ) : Search → Prop
  | .outer i => NoGapBefore busy count i
  | .inner i j => NoGapBefore busy count i ∧ Gap busy j i ∧ pageSize ∣ j ∧ j < 2 ^ 64

lemma Gap.next {j : ℕ} (h : Gap busy j i) (haligned : pageSize ∣ j) (hlt : j < 2 ^ 64)
    (hfree : busy ((i + j + higherHalf) % 2 ^ 64) = false) :
    Gap busy ((j + pageSize) % 2 ^ 64) i ∧ pageSize ∣ (j + pageSize) % 2 ^ 64 := by
  rcases mod_add_pageSize haligned hlt with ⟨heq, _⟩ | heq
  · rw [heq]
    refine ⟨fun j' hj' haligned' => ?_, Nat.dvd_add haligned (Nat.dvd_refl _)⟩
    rcases (lt_of_lt_add_pageSize haligned' haligned hj').lt_or_eq with hlt' | rfl
    · exact h j' hlt' haligned'
    · exact hfree
  · rw [heq]
    exact ⟨fun j' hj' => absurd hj' (Nat.not_lt_zero _), Nat.dvd_zero _⟩

lemma Searching.next (h : Searching busy count x) (hround : searchRound busy count x = .inl y) :
    Searching busy count y := by
  rcases searchRound_inl hround with ⟨i, rfl, _, rfl⟩ | ⟨i, j, rfl, hj, hbusy, rfl⟩ |
    ⟨i, j, rfl, hj, hfree, rfl⟩
  · exact ⟨h, fun j hj => absurd hj (Nat.not_lt_zero _), Nat.dvd_zero _, Nat.two_pow_pos 64⟩
  · obtain ⟨hbefore, _, haligned, _⟩ := h
    exact hbefore.next (not_gap_of_busy hj haligned hbusy)
  · obtain ⟨hbefore, hgap, haligned, hlt⟩ := h
    obtain ⟨hgap', haligned'⟩ := hgap.next haligned hlt hfree
    exact ⟨hbefore, hgap', haligned', Nat.mod_lt _ (Nat.two_pow_pos 64)⟩

lemma Searching.done (h : Searching busy count x) (hround : searchRound busy count x = .inr r) :
    ∃ i, FirstGap busy count i ∧ r = some ((i + higherHalf) % 2 ^ 64) := by
  rcases searchRound_inr hround with ⟨i, rfl, hend, rfl⟩ | ⟨i, j, rfl, hj, rfl⟩
  · obtain ⟨⟨a, rfl⟩, hlt, _⟩ := h
    simp only [pageSize] at *
    omega
  · obtain ⟨hbefore, hgap, _, _⟩ := h
    exact ⟨i, ⟨hbefore, fun j' hj' => hgap j' (hj'.trans_le hj)⟩, rfl⟩

lemma search_finds (h : Ends (searchRound busy count) (.outer 0) r) :
    ∃ i, FirstGap busy count i ∧ r = some ((i + higherHalf) % 2 ^ 64) := by
  apply h.invariant (I := Searching busy count)
    (Q := fun r => ∃ i, FirstGap busy count i ∧ r = some ((i + higherHalf) % 2 ^ 64))
  · exact noGapBefore_zero
  · exact fun _ _ hx hround => hx.next hround
  · exact fun _ _ hx hround => hx.done hround

/-- A number that gets smaller on the way to the offset `i₀`. -/
def searchVariant (i₀ : ℕ) : Search → ℕ
  | .outer i => (i₀ + pageSize - i) * 2 ^ 50
  | .inner i j => (i₀ + pageSize - i) * 2 ^ 50 - 1 - j

lemma Searching.variant_lt {i₀ : ℕ} (hcount : count ≤ 2 ^ 48) (hfirst : FirstGap busy count i₀)
    (h : Searching busy count x) (hround : searchRound busy count x = .inl y) :
    searchVariant i₀ y < searchVariant i₀ x := by
  have hle {i : ℕ} (hbefore : NoGapBefore busy count i) : i ≤ i₀ :=
    Nat.not_lt.mp fun hlt => hbefore.none i₀ hlt hfirst.aligned hfirst.gap
  rcases searchRound_inl hround with ⟨i, rfl, _, rfl⟩ | ⟨i, j, rfl, hj, hbusy, rfl⟩ |
    ⟨i, j, rfl, hj, _, rfl⟩
  · have := hle h
    simp only [searchVariant, pageSize]
    omega
  · obtain ⟨hbefore, _, haligned, _⟩ := h
    have hne : i ≠ i₀ := by
      rintro rfl
      exact not_gap_of_busy hj haligned hbusy hfirst.gap
    have := hle hbefore
    have hlt := hfirst.lt
    obtain ⟨a, rfl⟩ := hbefore.aligned
    obtain ⟨b, rfl⟩ := hfirst.aligned
    simp only [searchVariant, pageSize] at *
    omega
  · have := hle h.1
    simp only [searchVariant, pageSize] at *
    omega

lemma search_ends (hcount : count ≤ 2 ^ 48) (hfirst : FirstGap busy count i) :
    Ends (searchRound busy count) (.outer 0) (some ((i + higherHalf) % 2 ^ 64)) := by
  have hstart : Searching busy count (.outer 0) := noGapBefore_zero
  obtain ⟨r, hr⟩ := exists_ends (searchVariant i) hstart fun x y hx hround =>
    ⟨hx.next hround, hx.variant_lt hcount hfirst hround⟩
  obtain ⟨i', hfirst', rfl⟩ := search_finds hr
  rwa [hfirst.unique hfirst']

end Cottage.Laihost
