import Cottage.Mem.Pagemap
import Mathlib.Data.List.Nodup

/-!
# Translation in all pagemaps

Runs of calls on pages and of `new_pagemap`, with any number of pagemaps.  The
words found in the tables are these, no table is reached through two entries,
the higher half is the same in all pagemaps, and a call in the lower half of
one pagemap is not seen in another.
-/

namespace Cottage.Paging

open ByteMemory Mem TableWalk Transition

variable {s s' : State} {top top' virt : ℕ} {log : List Record}

def lastStored : List Record → ℕ → ℕ → Option ℕ
  | [], _, _ => none
  | r :: log, top, virt =>
    if r.ok = true ∧ Touches r.top r.virt top virt then
      some (r.call.stored ((lastStored log top virt).getD 0))
    else lastStored log top virt

lemma lastStored_higher (hhigher : HigherHalf virt) :
    lastStored log top virt = lastStored log top' virt := by
  induction log with
  | nil => rfl
  | cons r log ih =>
    have htouch : Touches r.top r.virt top virt ↔ Touches r.top r.virt top' virt :=
      and_congr_right fun _ => iff_of_true (.inr hhigher) (.inr hhigher)
    simp only [lastStored, htouch, ih]

lemma lastStored_new (hlower : ¬ HigherHalf virt) (hnew : ∀ r ∈ log, r.top ≠ top) :
    lastStored log top virt = none := by
  induction log with
  | nil => rfl
  | cons r log ih =>
    obtain ⟨hr, hlog⟩ := List.forall_mem_cons.mp hnew
    rw [lastStored, if_neg, ih hlog]
    rintro ⟨_, _, hsame | hhigher⟩
    · exact hr hsame
    · exact hlower hhigher

/-- What is found is what was stored; where nothing was, there is no word or
a zero. -/
def Agrees (found stored : Option ℕ) : Prop :=
  (∀ x, stored = some x → found = some x) ∧ (stored = none → found = none ∨ found = some 0)

lemma Agrees.grow {found found' stored : Option ℕ} (h : Agrees found stored)
    (hgrow : found' = found ∨ found = none ∧ found' = some 0) : Agrees found' stored := by
  rcases hgrow with rfl | ⟨hnone, hzero⟩
  · exact h
  · refine ⟨fun x hx => ?_, fun _ => .inr hzero⟩
    rw [hnone] at h
    cases h.1 x hx

lemma Agrees.getD_eq {old : ℕ} {stored : Option ℕ} (h : Agrees (some old) stored) :
    stored.getD 0 = old := by
  cases stored with
  | none =>
    rcases h.2 rfl with hnone | hzero
    · cases hnone
    · exact (Option.some.inj hzero).symm
  | some x => exact (Option.some.inj (h.1 x rfl)).symm

structure Inv (s : State) : Prop where
  shape : ∃ label, Shape s.tables.memory s.tables.owned s.kernel s.pagemaps label
  law : ∀ top ∈ s.pagemaps, ∀ virt,
    Agrees (entry s.tables.memory top virt) (lastStored s.log top virt)
  recorded : ∀ r ∈ s.log, r.top ∈ s.pagemaps

lemma Inv.step_newPagemap {page : ℕ} (hI : Inv s)
    (hstep : step s (.newPagemap page) = some s') : Inv s' := by
  obtain ⟨label, hs⟩ := hI.shape
  obtain ⟨⟨t', new⟩, hcall, rfl⟩ := Option.map_eq_some_iff.mp hstep
  obtain ⟨hfresh, label', hs', hold, hnew⟩ := hs.newPagemap hcall
  refine ⟨⟨label', hs'⟩, ?_, fun r hr => List.mem_cons_of_mem new (hI.recorded r hr)⟩
  refine List.forall_mem_cons.mpr ⟨?_, ?_⟩
  · intro virt
    rw [hnew virt]
    split
    · rename_i hhigher
      rw [lastStored_higher hhigher]
      exact hI.law s.kernel hs.kernel_mem virt
    · rename_i hlower
      rw [lastStored_new hlower]
      · exact ⟨fun x hx => absurd hx (by simp), fun _ => .inl rfl⟩
      · intro r hr heq
        exact hfresh (heq ▸ hs.labelled _ _ (hs.top _ (hI.recorded r hr)))
  · intro top htop virt
    rw [hold top htop virt]
    exact hI.law top htop virt

lemma Inv.step_onPage {call : PageCall} (hI : Inv s)
    (hstep : step s (.onPage top virt call) = some s') : Inv s' := by
  obtain ⟨label, hs⟩ := hI.shape
  simp only [step, Option.ite_none_right_eq_some, Option.map_eq_some_iff] at hstep
  obtain ⟨⟨htop, hfits⟩, ⟨t', ok⟩, hcall, rfl⟩ := hstep
  obtain ⟨m₁, label', hs', hgrows, hend⟩ := hs.run htop hfits hcall
  have hgrown (top' : ℕ) (htop' : top' ∈ s.pagemaps) (virt' : ℕ) :
      Agrees (entry m₁ top' virt') (lastStored s.log top' virt') := by
    apply (hI.law top' htop' virt').grow
    rcases hgrows top' htop' virt' with hsame | ⟨hnone, hzero, _⟩
    · exact .inl hsame
    · exact .inr ⟨hnone, hzero⟩
  refine ⟨⟨label', hs'⟩, ?_, List.forall_mem_cons.mpr ⟨htop, hI.recorded⟩⟩
  intro top' htop' virt'
  rcases hend with ⟨rfl, hmemory⟩ | ⟨rfl, old, hentries⟩
  · rw [hmemory, lastStored, if_neg fun h => Bool.false_ne_true h.1]
    exact hgrown top' htop' virt'
  · obtain ⟨hold, hentry⟩ := hentries top' htop' virt'
    rw [hentry, lastStored]
    by_cases htouch : Touches top virt top' virt'
    · have hagrees := hgrown top' htop' virt'
      rw [hold htouch] at hagrees
      rw [if_pos htouch, if_pos ⟨rfl, htouch⟩, hagrees.getD_eq]
      exact ⟨fun x hx => hx, fun h => absurd h (by simp)⟩
    · rw [if_neg htouch, if_neg fun h => htouch h.2]
      exact hgrown top' htop' virt'

lemma inv_of_initial (hinit : Initial s) : Inv s := by
  obtain ⟨⟨memory, page, pages, hcall⟩, hpagemaps, hlog⟩ := hinit
  obtain ⟨label, hs, hblank, _⟩ := shape_vmmInit hcall
  refine ⟨⟨label, hpagemaps ▸ hs⟩, ?_, ?_⟩
  · intro top htop virt
    rw [hpagemaps, List.mem_singleton] at htop
    rw [hlog, htop]
    exact ⟨fun x hx => absurd hx (by simp [lastStored]), fun _ => hblank virt⟩
  · rw [hlog]
    exact nofun

lemma inv_of_reachable (hreach : system.Reachable s) : Inv s := by
  apply hreach.invariant (fun _ => inv_of_initial)
  intro s e s' hI hstep
  cases e with
  | newPagemap page => exact hI.step_newPagemap hstep
  | onPage top virt call => exact hI.step_onPage hstep

lemma filled_of_reachable (hreach : system.Reachable s) :
    ∃ label, Shape s.tables.memory s.tables.owned s.kernel s.pagemaps label ∧
      Filled s.tables.memory label := by
  apply hreach.invariant (I := fun s => ∃ label,
    Shape s.tables.memory s.tables.owned s.kernel s.pagemaps label ∧ Filled s.tables.memory label)
  · rintro s ⟨⟨memory, page, pages, hcall⟩, hpagemaps, _⟩
    obtain ⟨label, hs, _, hfilled⟩ := shape_vmmInit hcall
    exact ⟨label, hpagemaps ▸ hs, hfilled⟩
  · rintro s e s' ⟨label, hs, hfilled⟩ hstep
    cases e with
    | newPagemap page =>
      obtain ⟨⟨t', new⟩, hcall, rfl⟩ := Option.map_eq_some_iff.mp hstep
      obtain ⟨label', hs', hkeeps⟩ := hs.keeps_newPagemap hcall
      exact ⟨label', hs', hkeeps.filled hfilled⟩
    | onPage top virt call =>
      simp only [system, step, Option.ite_none_right_eq_some, Option.map_eq_some_iff] at hstep
      obtain ⟨⟨htop, hfits⟩, ⟨t', ok⟩, hcall, rfl⟩ := hstep
      obtain ⟨_, label', hs', hkeeps, _⟩ := hs.toSpace.run htop hfits hcall
      exact ⟨label', hs'.toShape (hkeeps.higher hs), hkeeps.filled hfilled⟩

/-- The answers of the page allocator for the three levels are new pages. -/
def Supplied (pages : ℕ → ℕ) (t : Tables) : Prop :=
  ([3, 2, 1].map pages).Nodup ∧ ∀ level ∈ [3, 2, 1], FreshPage (pages level) t

lemma mapPage_of_supplied {pages : ℕ → ℕ} (hreach : system.Reachable s)
    (htop : top ∈ s.pagemaps) (hpages : Supplied pages s.tables) (virt phys flags : ℕ) :
    ∃ t, mapPage top virt phys flags pages s.tables = some (t, true) := by
  obtain ⟨label, hs, hfilled⟩ := filled_of_reachable hreach
  obtain ⟨hnodup, hfresh⟩ := hpages
  obtain ⟨⟨t, n⟩, hwalk⟩ : ∃ r, pml1 top virt true pages s.tables = some r := by
    refine descend_isSome _ top hnodup ?_
    simpa using hfresh
  obtain ⟨_, _, _, _, _, hreached⟩ := hs.toSpace.pml1 htop hwalk
  have hn := hreached rfl hfilled fun level hlevel => (hfresh level hlevel).2.1.ne'
  rw [mapPage_eq hwalk, PageCall.finish, if_neg hn]
  exact ⟨_, rfl⟩

lemma isPage_mul {k : ℕ} (hpos : 0 < k) (hlt : k < 2 ^ 30) : IsPage (k * 0x1000) := by
  refine ⟨⟨k, Nat.mul_comm _ _⟩, by omega, ?_⟩
  simp only [pageSize, directMapSize]
  omega

lemma exists_booted : ∃ t : Tables, system.Reachable ⟨t, 0x1000, [0x1000], []⟩ ∧
    ∀ n ∈ t.owned, n < 0x200 * 0x1000 := by
  have hnodup : (0x1000 :: (List.range' 256 256).map (· * 0x1000)).Nodup := by
    refine List.nodup_cons.mpr ⟨?_, List.Nodup.map ?_ List.nodup_range'⟩
    · intro hmem
      obtain ⟨i, hi, heq⟩ := List.mem_map.mp hmem
      have := List.mem_range'_1.mp hi
      omega
    · intro i j hij
      exact Nat.eq_of_mul_eq_mul_right (by decide) hij
  have hpages : ∀ i ∈ List.range' 256 256, IsPage (i * 0x1000) := by
    intro i hi
    have := List.mem_range'_1.mp hi
    exact isPage_mul (by omega) (by omega)
  obtain ⟨t, hcall, howned⟩ := vmmInit_isSome (fun _ => 0) (· * 0x1000)
    (isPage_mul Nat.one_pos (by decide)) hnodup hpages
  refine ⟨t, .init ⟨⟨_, _, _, hcall⟩, rfl, rfl⟩, fun n hn => ?_⟩
  rcases List.mem_cons.mp (howned n hn) with rfl | hmem
  · decide
  · obtain ⟨i, hi, rfl⟩ := List.mem_map.mp hmem
    have := List.mem_range'_1.mp hi
    omega

lemma freshPage_of_forall_lt {t : Tables} {bound k : ℕ} (h : ∀ n ∈ t.owned, n < bound * 0x1000)
    (hpos : 0 < k) (hle : bound ≤ k) (hlt : k < 2 ^ 30) : FreshPage (k * 0x1000) t := by
  obtain ⟨halign, hpos', hend⟩ := isPage_mul hpos hlt
  refine ⟨halign, hpos', hend, fun hmem => ?_⟩
  have := h _ hmem
  omega

lemma exists_mapped : ∃ s, system.Reachable s ∧ s.pagemaps = [0x200000, 0x1000] ∧
    lastStored s.log 0x200000 0x400000 = some 0x5007 := by
  obtain ⟨t, hboot, hbelow⟩ := exists_booted
  have hfresh (k : ℕ) (hle : 0x200 ≤ k) (hlt : k < 2 ^ 30) : FreshPage (k * 0x1000) t :=
    freshPage_of_forall_lt hbelow (by omega) hle hlt
  have hnew := newPagemap_of_fresh 0x1000 (hfresh 0x200 le_rfl (by decide))
  generalize importHigherHalf 0x1000 (0x200 * 0x1000)
    (memset t.memory (0x200 * 0x1000 + higherHalf) 0 pageSize) = m at hnew
  have hsystem : system.step = step := rfl
  have hfirst : system.step ⟨t, 0x1000, [0x1000], []⟩ (.newPagemap (0x200 * 0x1000)) = some
      ⟨⟨m, 0x200 * 0x1000 :: t.owned⟩, 0x1000, [0x200 * 0x1000, 0x1000], []⟩ := by
    rw [hsystem, step, hnew, Option.map_some]
  have hreach := hboot.step trivial hfirst
  have hpages :
      Supplied (fun level => (0x200 + level) * 0x1000) ⟨m, 0x200 * 0x1000 :: t.owned⟩ := by
    refine ⟨by decide, fun level hlevel => ?_⟩
    simp only [List.mem_cons, List.not_mem_nil, or_false] at hlevel
    exact (hfresh _ (by omega) (by omega)).of_ne (by omega)
  obtain ⟨t', hmap⟩ := mapPage_of_supplied hreach (.head _) hpages 0x400000 0x5000 0x7
  have hsecond : system.step ⟨⟨m, 0x200 * 0x1000 :: t.owned⟩, 0x1000, [0x200 * 0x1000, 0x1000], []⟩
      (.onPage (0x200 * 0x1000) 0x400000
        (.mapPage 0x5000 0x7 fun level => (0x200 + level) * 0x1000)) = some
      ⟨t', 0x1000, [0x200 * 0x1000, 0x1000], [⟨0x200 * 0x1000, 0x400000,
        .mapPage 0x5000 0x7 fun level => (0x200 + level) * 0x1000, true⟩]⟩ := by
    rw [hsystem, step, if_pos ⟨.head _, by decide⟩, PageCall.run, hmap, Option.map_some]
  have hlog : lastStored [⟨0x200 * 0x1000, 0x400000,
      .mapPage 0x5000 0x7 fun level => (0x200 + level) * 0x1000, true⟩] 0x200000 0x400000 =
        some 0x5007 := by
    decide
  exact ⟨_, hreach.step trivial hsecond, rfl, hlog⟩

/-! ## The translation law -/

/-- The entries of the tables of one pagemap, found along `path`, that lead to
further tables. -/
def LeadsTo (m : Memory) (top n i n' : ℕ) : Prop :=
  ∃ path : List ℕ, path.length ≤ 2 ∧ (∀ j ∈ path, j < 512) ∧
    walk (nextLevel m) top path = some n ∧ i < 512 ∧ nextLevel m n i = some n'

lemma Shape.leadsTo_unique {m : Memory} {owned tops : List ℕ} {kernel n₁ n₂ i₁ i₂ n : ℕ}
    {label : Labels} (hs : Shape m owned kernel tops label) (htop : top ∈ tops)
    (h₁ : LeadsTo m top n₁ i₁ n) (h₂ : LeadsTo m top n₂ i₂ n) : n₁ = n₂ ∧ i₁ = i₂ := by
  have hcarries {n₁ i₁ : ℕ} {path : List ℕ} (hlen : path.length ≤ 2) (hlt : ∀ j ∈ path, j < 512)
      (hwalk : walk (nextLevel m) top path = some n₁) (hi : i₁ < 512)
      (hnext : nextLevel m n₁ i₁ = some n) : Carries kernel top label (path ++ [i₁]) n := by
    apply hs.marking top path n₁ i₁ n _ (by omega) hi hnext
    exact hs.carries_of_walk htop hlt (by omega) hwalk
  obtain ⟨path₁, hlen₁, hlt₁, hwalk₁, hi₁, hnext₁⟩ := h₁
  obtain ⟨path₂, hlen₂, hlt₂, hwalk₂, hi₂, hnext₂⟩ := h₂
  have hlabel₁ := hcarries hlen₁ hlt₁ hwalk₁ hi₁ hnext₁
  have hlabel₂ := hcarries hlen₂ hlt₂ hwalk₂ hi₂ hnext₂
  have hpath := (Prod.mk.inj (Option.some.inj (hlabel₁.symm.trans hlabel₂))).2
  obtain ⟨rfl, hindex⟩ := List.append_inj' hpath rfl
  rw [hwalk₁] at hwalk₂
  exact ⟨Option.some.inj hwalk₂, (List.cons.inj hindex).1⟩

/-- The words of a pagemap are those last stored, a call on one page address
stores nothing for another, and no table is behind two entries.  A call stores
its word when the page has an entry, which `map_page` provides if it gets its
pages. -/
structure TranslationLaw (s : State) (top : ℕ) : Prop where
  stored : ∀ virt x, lastStored s.log top virt = some x → entryAt top virt s.tables = some x
  blank : ∀ virt, lastStored s.log top virt = none →
    entryAt top virt s.tables = none ∨ entryAt top virt s.tables = some 0
  separate : ∀ r ∈ s.log, ∀ virt, Canonical r.virt → pageSize ∣ r.virt → Canonical virt →
    pageSize ∣ virt → r.virt ≠ virt → ¬ Touches r.top r.virt top virt
  unique : ∀ n₁ i₁ n₂ i₂ n, LeadsTo s.tables.memory top n₁ i₁ n →
    LeadsTo s.tables.memory top n₂ i₂ n → n₁ = n₂ ∧ i₁ = i₂
  mapped : ∀ virt phys flags pages, Supplied pages s.tables →
    ∃ t, mapPage top virt phys flags pages s.tables = some (t, true)
  unmapped : ∀ virt x, entryAt top virt s.tables = some x →
    ∃ t, unmapPage top virt s.tables = some (t, true)
  flagged : ∀ virt flags x, entryAt top virt s.tables = some x →
    ∃ t, flagPage top virt flags s.tables = some (t, true)

lemma Inv.top_ne_zero (hI : Inv s) (htop : top ∈ s.pagemaps) : top ≠ 0 := by
  obtain ⟨label, hs⟩ := hI.shape
  exact (hs.isPage (hs.top top htop)).2.1.ne'

lemma virt2pte_of_entryAt {t : Tables} {x : ℕ} (hentry : entryAt top virt t = some x) :
    ∃ t' pte, virt2pte top virt false (fun _ => 0) t = some (t', pte) ∧ pte ≠ 0 := by
  obtain ⟨⟨t', pte⟩, hpte, hread⟩ := Option.bind_eq_some_iff.mp hentry
  refine ⟨t', pte, hpte, fun hzero => ?_⟩
  cases (if_pos hzero).symm.trans hread

/-- The law holds for every pagemap after any sequence of calls. -/
theorem translation_law (hreach : system.Reachable s) (htop : top ∈ s.pagemaps) :
    TranslationLaw s top := by
  have hI := inv_of_reachable hreach
  obtain ⟨label, hs⟩ := hI.shape
  have hentry (virt : ℕ) := entryAt_eq virt s.tables (hI.top_ne_zero htop)
  refine ⟨?_, ?_, ?_, fun _ _ _ _ _ => hs.leadsTo_unique htop,
    fun virt phys flags _ hpages => mapPage_of_supplied hreach htop hpages virt phys flags, ?_, ?_⟩
  · intro virt x hx
    rw [hentry virt]
    exact (hI.law top htop virt).1 x hx
  · intro virt hnone
    rw [hentry virt]
    exact (hI.law top htop virt).2 hnone
  · rintro r _ virt hcanon halign hcanon' halign' hne ⟨hpage, _⟩
    exact hne (eq_of_pageNumber_eq hcanon hcanon' halign halign' hpage)
  · intro virt x hx
    obtain ⟨t, pte, hpte, hne⟩ := virt2pte_of_entryAt hx
    rw [unmapPage, hpte]
    exact ⟨_, congrArg some (if_neg hne)⟩
  · intro virt flags x hx
    obtain ⟨t, pte, hpte, hne⟩ := virt2pte_of_entryAt hx
    rw [flagPage, hpte]
    exact ⟨_, congrArg some (if_neg hne)⟩

theorem translation_law_of_mapped :
    ∃ s, system.Reachable s ∧ TranslationLaw s 0x200000 ∧
      entryAt 0x200000 0x400000 s.tables = some 0x5007 := by
  obtain ⟨s, hreach, hpagemaps, hstored⟩ := exists_mapped
  have hmem : 0x200000 ∈ s.pagemaps := by simp [hpagemaps]
  have hlaw := translation_law hreach hmem
  exact ⟨s, hreach, hlaw, hlaw.stored _ _ hstored⟩

/-! ## The higher half -/

/-- All pagemaps have the same entry for an address of the higher half, and a
call in the lower half of one changes no word of another. -/
structure KernelCoherent (s : State) : Prop where
  higher : ∀ top ∈ s.pagemaps, ∀ virt, HigherHalf virt →
    virt2pte top virt false (fun _ => 0) s.tables =
      virt2pte s.kernel virt false (fun _ => 0) s.tables
  lower : ∀ top virt call s', step s (.onPage top virt call) = some s' → ¬ HigherHalf virt →
    ∀ top' ∈ s.pagemaps, top' ≠ top → ∀ virt',
      entryAt top' virt' s'.tables = entryAt top' virt' s.tables

/-- The kernel's half is the same in all pagemaps of every run. -/
theorem kernel_coherent (hreach : system.Reachable s) : KernelCoherent s := by
  have hI := inv_of_reachable hreach
  obtain ⟨label, hs⟩ := hI.shape
  constructor
  · intro top htop virt hhigher
    have hlt : pml4Entry virt < 512 := tableIndex_lt 39 virt
    rw [virt2pte_false virt _ _ (hI.top_ne_zero htop),
      virt2pte_false virt _ _ (hI.top_ne_zero hs.kernel_mem), tablePath,
      hs.toSpace.walk_higher htop hhigher hlt]
  · intro top virt call s' hstep hlower top' htop' hne virt'
    rw [entryAt_eq virt' _ (hI.top_ne_zero htop'), entryAt_eq virt' _ (hI.top_ne_zero htop')]
    simp only [step, Option.ite_none_right_eq_some, Option.map_eq_some_iff] at hstep
    obtain ⟨⟨htop, hfits⟩, ⟨t', ok⟩, hcall, rfl⟩ := hstep
    obtain ⟨m₁, label', hs', hgrows, hend⟩ := hs.run htop hfits hcall
    have hgrown : entry m₁ top' virt' = entry s.tables.memory top' virt' := by
      rcases hgrows top' htop' virt' with hsame | ⟨_, _, heq | hhigher⟩
      · exact hsame
      · exact absurd heq hne
      · exact absurd hhigher hlower
    rcases hend with ⟨_, hmemory⟩ | ⟨_, old, hentries⟩
    · rw [hmemory, hgrown]
    · rw [(hentries top' htop' virt').2, if_neg, hgrown]
      rintro ⟨hpage, heq | hhigher⟩
      · exact hne heq.symm
      · exact hlower ((higherHalf_congr hpage).mpr hhigher)

theorem kernel_coherent_of_mapped :
    ∃ s, system.Reachable s ∧ s.pagemaps = [0x200000, 0x1000] ∧ KernelCoherent s := by
  obtain ⟨s, hreach, hpagemaps, _⟩ := exists_mapped
  exact ⟨s, hreach, hpagemaps, kernel_coherent hreach⟩

end Cottage.Paging
