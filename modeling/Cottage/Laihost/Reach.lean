import Cottage.Laihost.Map

/-!
# What `laihost_map` reaches

The loop that maps the pages asks for the tables that are missing on the way to
the region and stores one word for each of its pages.  Pages of a region of at
most `2 ^ 48` bytes have words of their own, and none of these was present, so
all words are there at the end and no other page is lost.
-/

namespace Cottage.Laihost

open ByteMemory Loop Mem Paging Transition
open Mmap (pteFlagPresent pteFlagWritable)

variable {top virt count address virtAddr i v : ℕ} {m : Memory} {pages : List ℕ → ℕ+}
  {t : Tables} {s : State} {x y : Mapping}

lemma top_ne_zero (hreach : Paging.system.Reachable s) (htop : top ∈ s.pagemaps) : top ≠ 0 :=
  (inv_of_reachable hreach).top_ne_zero htop

lemma kernel_mem (hreach : Paging.system.Reachable s) : s.kernel ∈ s.pagemaps := by
  obtain ⟨label, hshape, _⟩ := filled_of_reachable hreach
  exact hshape.kernel_mem

lemma entry_of_pte (h : pte m top virt &&& pteFlagPresent ≠ 0) :
    entry m top virt = some (pte m top virt) := by
  rw [pte] at *
  cases hentry : entry m top virt with
  | none =>
    rw [hentry, Option.getD_none, Nat.zero_and] at h
    exact absurd rfl h
  | some e => rw [Option.getD_some]

lemma present_iff (htop : top ≠ 0) :
    present top virt t = true ↔ pte t.memory top virt &&& pteFlagPresent ≠ 0 := by
  rw [present, entryAt_eq virt t htop, pte]
  cases entry t.memory top virt with
  | none => simp
  | some e => simp

lemma translate_eq_some (htop : top ≠ 0) {phys : ℕ} :
    translate top virt t = some phys ↔ pte t.memory top virt &&& pteFlagPresent ≠ 0 ∧
      pageBase (pte t.memory top virt) + pageOffset virt = phys := by
  rw [translate, entryAt_eq virt t htop, pte]
  cases entry t.memory top virt with
  | none => simp
  | some e => simp

lemma pte_lt (m : Memory) (top virt : ℕ) : pte m top virt < 2 ^ 64 := by
  rw [pte, entry]
  cases TableWalk.walk (nextLevel m) top (tablePath virt) with
  | none =>
    rw [Option.map_none, Option.getD_none]
    exact Nat.two_pow_pos 64
  | some n =>
    rw [Option.map_some, Option.getD_some]
    exact read64_lt _ _

lemma pageSize_dvd_pageBase {e : ℕ} (h : e < 2 ^ 64) : pageSize ∣ pageBase e := by
  rw [pageBase_eq h]
  exact Nat.dvd_mul_left _ _

def region (virtAddr count : ℕ) : Set ℕ :=
  {virt | ∃ j < count, pageSize ∣ j ∧ virt = (virtAddr + j) % 2 ^ 64}

/-- The call of `map_page` in a round. -/
def mapCall (top virtAddr address : ℕ) (pages : List ℕ → ℕ+) (x : Mapping) :
    Option (Tables × Bool) :=
  mapPage top ((virtAddr + x.i) % 2 ^ 64) ((address + x.i) % 2 ^ 64)
    (pteFlagPresent ||| pteFlagWritable)
    (fun level => tablePages pages ((virtAddr + x.i) % 2 ^ 64) level) x.tables

lemma mapRound_eq (top virtAddr address count : ℕ) (pages : List ℕ → ℕ+) (x : Mapping) :
    mapRound top virtAddr address count pages x =
      if x.i < count then
        (mapCall top virtAddr address pages x).elim (.inr none) fun (t, _) =>
          .inl ⟨(x.i + pageSize) % 2 ^ 64, t⟩
      else .inr (some x.tables) := rfl

lemma mapRound_inl (h : mapRound top virtAddr address count pages x = .inl y) :
    x.i < count ∧ y.i = (x.i + pageSize) % 2 ^ 64 ∧
      ∃ ok, mapCall top virtAddr address pages x = some (y.tables, ok) := by
  rw [mapRound_eq] at h
  split at h
  · rename_i hi
    cases hcall : mapCall top virtAddr address pages x with
    | none =>
      rw [hcall] at h
      cases h
    | some result =>
      rw [hcall] at h
      obtain rfl := Sum.inl.inj h
      exact ⟨hi, rfl, result.2, rfl⟩
  · cases h

lemma mapRound_inr {r : Option Tables} (h : mapRound top virtAddr address count pages x = .inr r) :
    (x.i < count ∧ mapCall top virtAddr address pages x = none ∧ r = none) ∨
      count ≤ x.i ∧ r = some x.tables := by
  rw [mapRound_eq] at h
  split at h
  · rename_i hi
    cases hcall : mapCall top virtAddr address pages x with
    | none =>
      rw [hcall] at h
      exact .inl ⟨hi, rfl, (Sum.inr.inj h).symm⟩
    | some result =>
      rw [hcall] at h
      cases h
  · rename_i hi
    exact .inr ⟨Nat.not_lt.mp hi, (Sum.inr.inj h).symm⟩

def Supplied (s : State) (virtAddr count : ℕ) (pages : List ℕ → ℕ+) (t : Tables) : Prop :=
  Supplies pages (missing t.memory s.kernel (region virtAddr count)) t

structure Mapped (s : State) (virtAddr count : ℕ) (pages : List ℕ → ℕ+) (x : Mapping) : Prop where
  aligned : pageSize ∣ x.i
  lt : x.i < 2 ^ 64
  tables : ∃ label, Space x.tables.memory x.tables.owned s.kernel s.pagemaps label ∧
    Filled x.tables.memory label
  supplied : Supplied s virtAddr count pages x.tables ↔ Supplied s virtAddr count pages s.tables

lemma Mapped.start (hreach : Paging.system.Reachable s) (virtAddr count : ℕ)
    (pages : List ℕ → ℕ+) : Mapped s virtAddr count pages ⟨0, s.tables⟩ := by
  obtain ⟨label, hshape, hfilled⟩ := filled_of_reachable hreach
  exact ⟨Nat.dvd_zero _, Nat.two_pow_pos 64, ⟨label, hshape.toSpace, hfilled⟩, Iff.rfl⟩

lemma mem_region (haligned : pageSize ∣ x.i) (hi : x.i < count) :
    (virtAddr + x.i) % 2 ^ 64 ∈ region virtAddr count :=
  ⟨x.i, hi, haligned, rfl⟩

lemma word_lt (address i : ℕ) :
    (address + i) % 2 ^ 64 ||| (pteFlagPresent ||| pteFlagWritable) < 2 ^ 64 := by
  apply Nat.or_lt_two_pow (Nat.mod_lt _ (Nat.two_pow_pos 64))
  decide

lemma Mapped.next (h : Mapped s virtAddr count pages x)
    (hround : mapRound s.kernel virtAddr address count pages x = .inl y) :
    Mapped s virtAddr count pages y ∧ ∀ top ∈ s.pagemaps, ∀ virt, pte y.tables.memory top virt =
      if Touches s.kernel ((virtAddr + x.i) % 2 ^ 64) top virt then
        (address + x.i) % 2 ^ 64 ||| (pteFlagPresent ||| pteFlagWritable)
      else pte x.tables.memory top virt := by
  obtain ⟨hi, hnext, ok, hcall⟩ := mapRound_inl hround
  obtain ⟨label, hspace, hfilled⟩ := h.tables
  obtain ⟨_, label', hspace', hkeeps, hwords, _⟩ :=
    hspace.mapPage hfilled hspace.kernel_mem (word_lt address x.i) hcall
  have hsupplied := (hspace.mapPage_supplies hfilled hspace.kernel_mem
    (mem_region h.aligned hi)).1 _ _ hcall
  refine ⟨⟨?_, ?_, ⟨label', hspace', hkeeps.filled hfilled⟩, hsupplied.trans h.supplied⟩, hwords⟩
  · rw [hnext]
    rcases mod_add_pageSize h.aligned h.lt with ⟨heq, _⟩ | heq
    · rw [heq]
      exact Nat.dvd_add h.aligned (Nat.dvd_refl _)
    · rw [heq]
      exact Nat.dvd_zero _
  · rw [hnext]
    exact Nat.mod_lt _ (Nat.two_pow_pos 64)

lemma Mapped.not_supplied (h : Mapped s virtAddr count pages x) (hi : x.i < count)
    (hcall : mapCall s.kernel virtAddr address pages x = none) :
    ¬ Supplied s virtAddr count pages s.tables := by
  obtain ⟨label, hspace, hfilled⟩ := h.tables
  rw [← h.supplied]
  exact (hspace.mapPage_supplies hfilled hspace.kernel_mem (mem_region h.aligned hi)).2 hcall

lemma supplied_of_ends (hreach : Paging.system.Reachable s)
    (h : Ends (mapRound s.kernel virtAddr address count pages) ⟨0, s.tables⟩ (some t)) :
    Supplied s virtAddr count pages t ↔ Supplied s virtAddr count pages s.tables := by
  have hall : ∀ t', some t = some t' →
      (Supplied s virtAddr count pages t' ↔ Supplied s virtAddr count pages s.tables) := by
    apply h.invariant (I := Mapped s virtAddr count pages)
      (Q := fun r => ∀ t', r = some t' →
        (Supplied s virtAddr count pages t' ↔ Supplied s virtAddr count pages s.tables))
    · exact .start hreach virtAddr count pages
    · exact fun _ _ hx hround => (hx.next hround).1
    · rintro x _ hx hround t' rfl
      rcases mapRound_inr hround with ⟨_, _, hnone⟩ | ⟨_, hsome⟩
      · cases hnone
      · cases hsome
        exact hx.supplied
  exact hall t rfl

structure Written (s : State) (virtAddr address count : ℕ) (pages : List ℕ → ℕ+) (x : Mapping) :
    Prop extends Mapped s virtAddr count pages x where
  le : x.i < count + pageSize
  words : ∀ j < x.i, pageSize ∣ j → pte x.tables.memory s.kernel ((virtAddr + j) % 2 ^ 64) =
    (address + j) % 2 ^ 64 ||| (pteFlagPresent ||| pteFlagWritable)
  kept : ∀ top ∈ s.pagemaps, ∀ virt,
    (∀ j < x.i, pageSize ∣ j → ¬ Touches s.kernel ((virtAddr + j) % 2 ^ 64) top virt) →
      pte x.tables.memory top virt = pte s.tables.memory top virt

lemma pageNumber_ne {j : ℕ} (hcount : count ≤ 2 ^ 48) (hvirt : pageSize ∣ virtAddr)
    (hj : pageSize ∣ j) (hi : pageSize ∣ i) (hlt : j < i) (hi' : i < count) :
    pageNumber ((virtAddr + i) % 2 ^ 64) ≠ pageNumber ((virtAddr + j) % 2 ^ 64) := by
  obtain ⟨a, rfl⟩ := hvirt
  obtain ⟨b, rfl⟩ := hj
  obtain ⟨c, rfl⟩ := hi
  simp only [pageNumber, pageSize] at *
  omega

lemma Written.next (h : Written s virtAddr address count pages x) (hcount : count ≤ 2 ^ 48)
    (hvirt : pageSize ∣ virtAddr)
    (hround : mapRound s.kernel virtAddr address count pages x = .inl y) :
    Written s virtAddr address count pages y ∧ y.i = x.i + pageSize := by
  obtain ⟨hmapped, hpte⟩ := h.toMapped.next hround
  obtain ⟨hi, hnext, _⟩ := mapRound_inl hround
  obtain ⟨label, hspace, _⟩ := h.tables
  have hy : y.i = x.i + pageSize := by
    rw [hnext, Nat.mod_eq_of_lt]
    simp only [pageSize]
    omega
  refine ⟨⟨hmapped, by omega, fun j hj haligned => ?_, fun top htop virt hout => ?_⟩, hy⟩
  · rw [hpte s.kernel hspace.kernel_mem]
    rw [hy] at hj
    rcases (lt_of_lt_add_pageSize haligned h.aligned hj).lt_or_eq with hlt | rfl
    · rw [if_neg fun htouch => pageNumber_ne hcount hvirt haligned h.aligned hlt hi htouch.1]
      exact h.words j hlt haligned
    · rw [if_pos ⟨rfl, .inl rfl⟩]
  · rw [hy] at hout
    rw [hpte top htop, if_neg (hout x.i (by simp only [pageSize]; omega) h.aligned)]
    exact h.kept top htop virt fun j hj => hout j (by omega)

lemma map_ends (hreach : Paging.system.Reachable s) (hcount : count ≤ 2 ^ 48)
    (hvirt : pageSize ∣ virtAddr) (hsupplied : Supplied s virtAddr count pages s.tables) :
    ∃ x, Ends (mapRound s.kernel virtAddr address count pages) ⟨0, s.tables⟩ (some x.tables) ∧
      count ≤ x.i ∧ Written s virtAddr address count pages x := by
  have hstart : Written s virtAddr address count pages ⟨0, s.tables⟩ :=
    ⟨.start hreach virtAddr count pages, by simp only [pageSize]; omega,
      fun j hj => absurd hj (Nat.not_lt_zero j), fun _ _ _ _ => rfl⟩
  obtain ⟨r, hr⟩ := exists_ends (fun x : Mapping => count + pageSize - x.i) hstart (by
    intro x y hx hround
    obtain ⟨hwritten, hi⟩ := hx.next hcount hvirt hround
    have := hwritten.le
    have := (mapRound_inl hround).1
    refine ⟨hwritten, ?_⟩
    simp only [pageSize] at *
    omega)
  have hend : ∃ x : Mapping, r = some x.tables ∧ count ≤ x.i ∧
      Written s virtAddr address count pages x := by
    apply hr.invariant (I := Written s virtAddr address count pages) (Q := fun r =>
      ∃ x : Mapping, r = some x.tables ∧ count ≤ x.i ∧ Written s virtAddr address count pages x)
    · exact hstart
    · exact fun _ _ hx hround => (hx.next hcount hvirt hround).1
    · intro x r hx hround
      rcases mapRound_inr hround with ⟨hi, hcall, _⟩ | ⟨hi, hr⟩
      · exact absurd hsupplied (hx.not_supplied hi hcall)
      · exact ⟨x, hr, hi, hx⟩
  obtain ⟨x, rfl, hx⟩ := hend
  exact ⟨x, hr, hx⟩

/-! ## The condition -/

lemma pageSize_dvd_mod {a : ℕ} (h : pageSize ∣ a) : pageSize ∣ a % 2 ^ 64 :=
  (Nat.dvd_mod_iff (by decide)).mpr h

lemma pageSize_dvd_virtAddr (h : pageSize ∣ i) : pageSize ∣ (i + higherHalf) % 2 ^ 64 := by
  apply pageSize_dvd_mod (Nat.dvd_add h _)
  unfold higherHalf
  decide

lemma or_and_pteFlagPresent (a : ℕ) :
    (a ||| (pteFlagPresent ||| pteFlagWritable)) &&& pteFlagPresent ≠ 0 := by
  have hflags : (pteFlagPresent ||| pteFlagWritable) &&& pteFlagPresent = 1 := by decide
  rw [Nat.and_or_distrib_right, hflags]
  exact (Nat.lt_of_lt_of_le Nat.one_pos Nat.right_le_or).ne'

lemma Written.pte_eq (h : Written s virtAddr address count pages x) (hi : count ≤ x.i)
    (hvirt : pageSize ∣ virtAddr) {k : ℕ} (hk : k < count) :
    pte x.tables.memory s.kernel ((virtAddr + k) % 2 ^ 64) =
      (address + k / pageSize * pageSize) % 2 ^ 64 ||| (pteFlagPresent ||| pteFlagWritable) := by
  have hle : k / pageSize * pageSize ≤ k := Nat.div_mul_le_self k pageSize
  rw [← h.words (k / pageSize * pageSize) (by omega) (Nat.dvd_mul_left _ _)]
  apply pte_congr
  obtain ⟨a, rfl⟩ := hvirt
  simp only [pageNumber, pageSize]
  omega

lemma Written.translate_eq (h : Written s virtAddr address count pages x) (hi : count ≤ x.i)
    (hkernel : s.kernel ≠ 0) (hvirt : pageSize ∣ virtAddr) (haddress : pageSize ∣ address) {k : ℕ}
    (hk : k < count) :
    translate s.kernel ((virtAddr + k) % 2 ^ 64) x.tables = some ((address + k) % 2 ^ 64) := by
  rw [translate_eq_some hkernel, h.pte_eq hi hvirt hk, pageOffset_eq]
  refine ⟨or_and_pteFlagPresent _, ?_⟩
  rw [pageBase_or_of_dvd (pageSize_dvd_mod (Nat.dvd_add haddress (Nat.dvd_mul_left _ _)))
    (Nat.mod_lt _ (Nat.two_pow_pos 64)) (by decide)]
  obtain ⟨a, rfl⟩ := hvirt
  obtain ⟨b, rfl⟩ := haddress
  simp only [pageSize]
  omega

lemma pte_of_touches {owned tops : List ℕ} {kernel top' virt' : ℕ} {label : Labels}
    (hs : Space m owned kernel tops label) (htop : top ∈ tops) (htop' : top' ∈ tops)
    (htouch : Touches top virt top' virt') : pte m top' virt' = pte m top virt := by
  rw [pte, pte, entry, entry, hs.walk_of_touches htop htop' htouch,
    (pageNumber_eq_iff.mp htouch.1).2]

lemma Written.entryAt_eq (hreach : Paging.system.Reachable s)
    (hgap : Gap (fun virt => present s.kernel virt s.tables) count i)
    (h : Written s ((i + higherHalf) % 2 ^ 64) address count pages x) (htop : top ∈ s.pagemaps)
    (hpresent : present top virt s.tables = true) :
    entryAt top virt x.tables = entryAt top virt s.tables := by
  obtain ⟨label, hshape, _⟩ := filled_of_reachable hreach
  have hne := top_ne_zero hreach htop
  rw [present_iff hne] at hpresent
  have hsame : pte x.tables.memory top virt = pte s.tables.memory top virt := by
    apply h.kept top htop virt
    intro j hj haligned htouch
    have hle := lt_of_lt_add_pageSize (Nat.dvd_add haligned (Nat.dvd_refl _)) h.aligned
      (by simp only [pageSize]; omega)
    have hfree := hgap j (by have := h.le; omega) haligned
    rw [pte_of_touches hshape.toSpace hshape.kernel_mem htop htouch,
      ← present_iff (top_ne_zero hreach hshape.kernel_mem)] at hpresent
    rw [Nat.mod_add_mod, Nat.add_right_comm] at hpresent
    cases hpresent.symm.trans hfree
  rw [Paging.entryAt_eq virt _ hne, Paging.entryAt_eq virt _ hne, entry_of_pte hpresent,
    entry_of_pte (hsame ▸ hpresent), hsame]

lemma aligned_of_translate (htop : top ≠ 0) (hvirt : pageSize ∣ v) (haddress : address < 2 ^ 64)
    (h : translate top ((v + 0) % 2 ^ 64) t = some ((address + 0) % 2 ^ 64)) :
    pageSize ∣ address := by
  rw [Nat.add_zero, Nat.add_zero, Nat.mod_eq_of_lt haddress, translate_eq_some htop,
    pageOffset_eq, Nat.mod_eq_zero_of_dvd (pageSize_dvd_mod hvirt)] at h
  rw [← h.2, Nat.add_zero]
  exact pageSize_dvd_pageBase (pte_lt t.memory top (v % 2 ^ 64))

lemma le_of_translate (htop : top ≠ 0) (haddress : address < 2 ^ 64) (hpos : 1 ≤ count)
    (h : ∀ k < count, translate top ((v + k) % 2 ^ 64) t = some ((address + k) % 2 ^ 64)) :
    count ≤ 2 ^ 48 := by
  by_contra hlt
  obtain ⟨_, hfirst⟩ := (translate_eq_some htop).mp (h 0 hpos)
  obtain ⟨_, hlast⟩ := (translate_eq_some htop).mp (h (2 ^ 48) (Nat.not_le.mp hlt))
  have hpage : pageNumber ((v + 2 ^ 48) % 2 ^ 64) = pageNumber ((v + 0) % 2 ^ 64) := by
    simp only [pageNumber, pageSize]
    omega
  rw [pte_congr hpage] at hlast
  simp only [pageOffset_eq, pageSize] at hfirst hlast
  omega

lemma supplied_of_translate (hkernel : s.kernel ≠ 0)
    (h : ∀ k < count, translate s.kernel ((v + k) % 2 ^ 64) t = some ((address + k) % 2 ^ 64)) :
    Supplied s v count pages t := by
  have hempty : missing t.memory s.kernel (region v count) = ∅ := by
    apply missing_eq_empty
    rintro _ ⟨j, hj, _, rfl⟩
    obtain ⟨hpresent, _⟩ := (translate_eq_some hkernel).mp (h j hj)
    rw [entry_of_pte hpresent]
    rfl
  rw [Supplied, hempty]
  exact ⟨fun _ hpath => absurd hpath (Set.notMem_empty _), Set.injOn_empty _⟩

/-- `laihost_map` does what it is for exactly at page addresses, for at most
`2 ^ 48` bytes, when the kernel's pagemap has a gap for them and there are pages
for the tables that are missing on the way to the first gap. -/
theorem laihost_map_iff (hreach : Paging.system.Reachable s) (haddress : address < 2 ^ 64)
    (hpos : 1 ≤ count) (pages : List ℕ → ℕ+) :
    Maps s address count pages ↔ pageSize ∣ address ∧ count ≤ 2 ^ 48 ∧
      ∃ i, FirstGap (fun virt => present s.kernel virt s.tables) count i ∧
        Supplies pages (missing s.tables.memory s.kernel
          (region ((i + higherHalf) % 2 ^ 64) count)) s.tables := by
  have hkernel := top_ne_zero hreach (kernel_mem hreach)
  constructor
  · rintro ⟨fuel, t, v, hcall, htranslate, _⟩
    obtain ⟨hsearch, hmap⟩ := exists_laihostMap.mp ⟨fuel, hcall⟩
    obtain ⟨i, hfirst, hv⟩ := search_finds hsearch
    cases hv
    have hvirt := pageSize_dvd_virtAddr hfirst.aligned
    exact ⟨aligned_of_translate hkernel hvirt haddress (htranslate 0 hpos),
      le_of_translate hkernel haddress hpos htranslate, i, hfirst,
      (supplied_of_ends hreach hmap).mp (supplied_of_translate hkernel htranslate)⟩
  · rintro ⟨haligned, hcount, i, hfirst, hsupplied⟩
    have hvirt := pageSize_dvd_virtAddr hfirst.aligned
    obtain ⟨x, hmap, hi, hwritten⟩ := @map_ends _ address _ _ _ hreach hcount hvirt hsupplied
    obtain ⟨fuel, hcall⟩ := exists_laihostMap.mpr ⟨search_ends hcount hfirst, hmap⟩
    refine ⟨fuel, x.tables, _, hcall, fun k hk => ?_, fun top htop virt hpresent => ?_⟩
    · exact hwritten.translate_eq hi hkernel hvirt haligned hk
    · exact hwritten.entryAt_eq hreach hfirst.gap htop hpresent

/-! ## After boot -/

def sparePages (path : List ℕ) : ℕ+ :=
  ((0x200 + path.length) * 0x1000 - 1).succPNat

lemma coe_sparePages (path : List ℕ) :
    (sparePages path : ℕ) = (0x200 + path.length) * 0x1000 := by
  rw [sparePages, Nat.succPNat_coe]
  omega

lemma exists_gap : ∃ s, Paging.system.Reachable s ∧ ∀ count ≤ pageSize,
    FirstGap (fun virt => present s.kernel virt s.tables) count 0 ∧
      Supplied s ((0 + higherHalf) % 2 ^ 64) count sparePages s.tables := by
  obtain ⟨t, hreach, hbelow⟩ := exists_booted
  refine ⟨_, hreach, fun count hcount => ⟨⟨noGapBefore_zero, fun j _ _ => ?_⟩, ?_, ?_⟩⟩
  · have hblank := (translation_law hreach (.head _)).blank
      ((0 + j + higherHalf) % 2 ^ 64) rfl
    rw [present]
    rcases hblank with hnone | hzero
    · rw [hnone]
      rfl
    · rw [hzero]
      rfl
  · intro path hpath
    have hlen := length_le_of_missing hpath
    rw [coe_sparePages]
    exact freshPage_of_forall_lt hbelow (by omega) (by omega) (by omega)
  · rintro path ⟨_, _, ⟨j, hj, haligned, rfl⟩, hpart⟩ path'
      ⟨_, _, ⟨j', hj', haligned', rfl⟩, hpart'⟩ heq
    obtain rfl : j = 0 := Nat.eq_zero_of_dvd_of_lt haligned (hj.trans_le hcount)
    obtain rfl : j' = 0 := Nat.eq_zero_of_dvd_of_lt haligned' (hj'.trans_le hcount)
    have hlen : path.length = path'.length := by
      have := congrArg PNat.val heq
      simp only [coe_sparePages] at this
      omega
    rw [List.prefix_iff_eq_take.mp hpart, List.prefix_iff_eq_take.mp hpart', hlen]

theorem laihost_map_reaches_page : ∃ s, Paging.system.Reachable s ∧
    Maps s 0x5000 0x1000 sparePages := by
  obtain ⟨s, hreach, hgap⟩ := exists_gap
  refine ⟨s, hreach, ?_⟩
  rw [laihost_map_iff hreach (by decide) (by decide)]
  exact ⟨by decide, by decide, 0, hgap 0x1000 le_rfl⟩

theorem laihost_map_misses_byte : ∃ s fuel t virtAddr, Paging.system.Reachable s ∧
    laihostMap fuel s.kernel 0x1234 1 sparePages s.tables = some (t, virtAddr) ∧
      translate s.kernel virtAddr t = some 0x1000 := by
  obtain ⟨s, hreach, hgap⟩ := exists_gap
  obtain ⟨hfirst, hsupplied⟩ := hgap 1 (by decide)
  have hvirt := pageSize_dvd_virtAddr hfirst.aligned
  obtain ⟨x, hmap, hi, hwritten⟩ := @map_ends 1 0x1234 _ _ _ hreach (by decide) hvirt hsupplied
  obtain ⟨fuel, hcall⟩ := exists_laihostMap.mpr ⟨search_ends (by decide) hfirst, hmap⟩
  refine ⟨s, fuel, x.tables, _, hreach, hcall, ?_⟩
  have hpte := hwritten.pte_eq hi hvirt Nat.one_pos
  rw [Nat.add_zero, Nat.mod_mod] at hpte
  rw [translate_eq_some (top_ne_zero hreach (kernel_mem hreach)), hpte, pageOffset_eq,
    Nat.mod_eq_zero_of_dvd hvirt]
  decide

end Cottage.Laihost
