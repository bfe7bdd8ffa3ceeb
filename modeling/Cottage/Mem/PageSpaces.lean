import Cottage.Mem.Pagemap
import Mathlib.Data.List.Induction

/-!
# Several groups of page tables

The pagemaps of processes share the kernel's higher half, and a shadow pagemap
shares nothing.  A `Space` is a group of pagemaps that share tables.  Here
memory holds several such groups, no page being a table of two of them: what a
call does to the tables of one group is not seen in the others, nor in pages
that are no tables.
-/

namespace Cottage.Paging

open ByteMemory Mem TableWalk Function

variable {m m' : Memory} {owned owned' tops : List ℕ} {kernel top top' : ℕ}
  {label label' : Labels} {n i virt virt' page phys flags : ℕ} {t t' : Tables} {ok : Bool}

def pte (m : Memory) (top virt : ℕ) : ℕ :=
  (entry m top virt).getD 0

def pteAddr (m : Memory) (top virt : ℕ) : Option ℕ :=
  (walk (nextLevel m) top (tablePath virt)).map fun n => entryAddr n (pml1Entry virt)

lemma entry_eq_pteAddr (m : Memory) (top virt : ℕ) :
    entry m top virt = (pteAddr m top virt).map (read64 m) := by
  rw [entry, pteAddr, Option.map_map]
  rfl

lemma Grows.pte_eq (hgrows : Grows tops top virt m m') (htop' : top' ∈ tops) (virt' : ℕ) :
    pte m' top' virt' = pte m top' virt' := by
  rcases hgrows top' htop' virt' with hsame | ⟨hnone, hzero, _⟩
  · rw [pte, hsame, pte]
  · rw [pte, pte, hnone, hzero]
    rfl

lemma pte_congr (htouch : pageNumber virt = pageNumber virt') :
    pte m top virt = pte m top virt' := by
  obtain ⟨hpath, hindex⟩ := pageNumber_eq_iff.mp htouch
  rw [pte, pte, entry, entry, hpath, hindex]

lemma Space.congr (hs : Space m owned kernel tops label)
    (howned : ∀ n ∈ owned, n ∈ owned') (hpage : ∀ n ∈ owned', IsPage n)
    (hword : ∀ n l i, label n = some l → i < 512 → word m' n i = word m n i) :
    Space m' owned' kernel tops label := by
  have hnext {n i : ℕ} {l : ℕ × List ℕ} (hn : label n = some l) (hi : i < 512) :
      nextLevel m' n i = nextLevel m n i := by
    rw [nextLevel, hword n l i hn hi, nextLevel]
  refine ⟨⟨hpage, fun n l hn => howned n (hs.labelled n l hn), hs.top, hs.kernel_mem, ?_⟩, ?_⟩
  · intro n o path i n' hn hlen hi hstep
    rw [hnext hn hi] at hstep
    exact hs.child n o path i n' hn hlen hi hstep
  · intro n hn hne i hi hi'
    rw [hnext (hs.top n hn) hi', hnext (hs.top kernel hs.kernel_mem) hi']
    exact hs.shared n hn hne i hi hi'

lemma Tree.pteAddr_congr (hs : Tree m owned kernel tops label) (htop : top ∈ tops)
    (hword : ∀ n l i, label n = some l → i < 512 → word m' n i = word m n i) (virt : ℕ) :
    pteAddr m' top virt = pteAddr m top virt := by
  rw [pteAddr, hs.walk_congr htop hword, pteAddr]

lemma Filled.congr (hfilled : Filled m label)
    (hword : ∀ n l i, label n = some l → i < 512 → word m' n i = word m n i) :
    Filled m' label := by
  intro n l i hn hlen hi
  rw [hword n l i hn hi]
  exact hfilled n l i hn hlen hi

lemma Space.virt2pte {pages : ℕ → ℕ+} {a : ℕ} (hs : Space t.memory t.owned kernel tops label)
    (hfilled : Filled t.memory label) (htop : top ∈ tops)
    (hcall : virt2pte top virt true (fun l => pages l) t = some (t', a)) :
    ∃ label', Space t'.memory t'.owned kernel tops label' ∧
      Keeps t.memory t'.memory t.owned t'.owned label label' ∧
      Grows tops top virt t.memory t'.memory ∧ pteAddr t'.memory top virt = some a := by
  obtain ⟨⟨t₁, n⟩, hwalk, heq⟩ := Option.map_eq_some_iff.mp hcall
  cases heq
  obtain ⟨label', hs', hkeeps, hgrows, hend, hreach⟩ := hs.pml1 htop hwalk
  have hn := hreach rfl hfilled fun l _ => (pages l).pos.ne'
  refine ⟨label', hs', hkeeps, hgrows, ?_⟩
  rw [pteAddr, hend hn, Option.map_some, if_neg hn]

lemma Space.store {a v : ℕ} (hs : Space m owned kernel tops label) (htop : top ∈ tops)
    (ha : pteAddr m top virt = some a) (hv : v < 2 ^ 64) :
    Space (write64 m a v) owned kernel tops label ∧
      Keeps m (write64 m a v) owned owned label label ∧
      ∀ top' ∈ tops, ∀ virt', entry (write64 m a v) top' virt' =
        if Touches top virt top' virt' then some v else entry m top' virt' := by
  obtain ⟨n, hwalk, rfl⟩ := Option.map_eq_some_iff.mp ha
  have hlabel := hs.carries_of_walk htop (tablePath_lt virt) (length_tablePath virt).le hwalk
  have hlen := length_tablePath virt
  exact ⟨hs.write hlabel hlen (pml1Entry_lt virt) v,
    hs.keeps_write hlabel hlen (pml1Entry_lt virt) v,
    fun top' htop' virt' => hs.entry_write htop htop' hwalk hv⟩

lemma mapPage_eq_virt2pte (top virt phys flags : ℕ) (pages : ℕ → ℕ) (t : Tables) :
    mapPage top virt phys flags pages t =
      (Paging.virt2pte top virt true pages t).map fun (t, pte) =>
        if pte = 0 then (t, false)
        else ({ t with memory := write64 t.memory pte (phys ||| flags) }, true) := by
  rw [mapPage, Paging.virt2pte, Option.map_map]
  congr 1
  apply funext
  rintro ⟨t₁, n⟩
  by_cases hn : n = 0
  · simp only [comp_apply, if_pos hn, if_true]
  · simp only [comp_apply, if_neg hn, if_neg (entryAddr_ne_zero n _)]

lemma Space.mapPage {pages : ℕ → ℕ+} (hs : Space t.memory t.owned kernel tops label)
    (hfilled : Filled t.memory label) (htop : top ∈ tops) (hv : phys ||| flags < 2 ^ 64)
    (hcall : mapPage top virt phys flags (fun l => pages l) t = some (t', ok)) :
    ok = true ∧ ∃ label', Space t'.memory t'.owned kernel tops label' ∧
      Keeps t.memory t'.memory t.owned t'.owned label label' ∧
      (∀ top' ∈ tops, ∀ virt', pte t'.memory top' virt' =
        if Touches top virt top' virt' then phys ||| flags else pte t.memory top' virt') ∧
      (entry t'.memory top virt).isSome := by
  rw [mapPage_eq_virt2pte] at hcall
  obtain ⟨⟨t₁, a⟩, hwalk, heq⟩ := Option.map_eq_some_iff.mp hcall
  obtain ⟨label', hs', hkeeps, hgrows, ha⟩ := hs.virt2pte hfilled htop hwalk
  have hne : a ≠ 0 := by
    obtain ⟨n, _, rfl⟩ := Option.map_eq_some_iff.mp ha
    exact entryAddr_ne_zero n _
  simp only [if_neg hne, Prod.mk.injEq] at heq
  obtain ⟨rfl, rfl⟩ := heq
  obtain ⟨hs'', hkeeps', hentry⟩ := hs'.store htop ha hv
  refine ⟨rfl, label', hs'', hkeeps.trans hkeeps', ?_, ?_⟩
  · intro top' htop' virt'
    rw [pte, hentry top' htop' virt']
    split
    · rfl
    · exact hgrows.pte_eq htop' virt'
  · rw [hentry top htop virt, if_pos ⟨rfl, .inl rfl⟩]
    rfl

/-! ## Groups side by side -/

/-- Groups of pagemaps, each named by the pagemap whose higher half it shares. -/
structure Spaces (m : Memory) (owned : List ℕ) (roots : List ℕ) (tops : ℕ → List ℕ)
    (label : ℕ → Labels) : Prop where
  space : ∀ r ∈ roots, Space m owned r (tops r) (label r)
  filled : ∀ r ∈ roots, Filled m (label r)
  apart : ∀ r ∈ roots, ∀ r' ∈ roots, ∀ n l l', label r n = some l → label r' n = some l' → r = r'

structure Unseen (m m' : Memory) (top : ℕ) : Prop where
  addr : ∀ virt, pteAddr m' top virt = pteAddr m top virt
  word : ∀ virt, entry m' top virt = entry m top virt

lemma Unseen.trans {m'' : Memory} (h : Unseen m m' top) (h' : Unseen m' m'' top) :
    Unseen m m'' top :=
  ⟨fun virt => (h'.addr virt).trans (h.addr virt), fun virt => (h'.word virt).trans (h.word virt)⟩

lemma Unseen.pte_eq (h : Unseen m m' top) (virt : ℕ) : pte m' top virt = pte m top virt := by
  rw [pte, h.word virt, pte]

def Frame (owned roots : List ℕ) (label : ℕ → Labels) (n : ℕ) : Prop :=
  n ∈ owned ∧ ∀ r ∈ roots, label r n = none

namespace Spaces

variable {roots : List ℕ} {tops : ℕ → List ℕ} {label : ℕ → Labels} {label' : Labels} {r : ℕ}

lemma word_of_agreeOn (hn : i < 512) (hagree : AgreeOn m m' (InPage n)) :
    word m' n i = word m n i := by
  apply read64_congr
  apply hagree.mono
  rintro x ⟨hlo, hhi⟩
  exact inPage_entryAddr n hn hlo hhi

lemma congr (h : Spaces m owned roots tops label) (howned : ∀ n ∈ owned, n ∈ owned')
    (hpage : ∀ n ∈ owned', IsPage n)
    (hagree : ∀ r ∈ roots, ∀ n l, label r n = some l → AgreeOn m m' (InPage n)) :
    Spaces m' owned' roots tops label ∧ ∀ r ∈ roots, ∀ top ∈ tops r, Unseen m m' top := by
  have hword (r : ℕ) (hr : r ∈ roots) (n : ℕ) (l : ℕ × List ℕ) (i : ℕ)
      (hn : label r n = some l) (hi : i < 512) : word m' n i = word m n i :=
    word_of_agreeOn hi (hagree r hr n l hn)
  refine ⟨⟨?_, ?_, h.apart⟩, ?_⟩
  · intro r hr
    exact (h.space r hr).congr howned hpage (hword r hr)
  · intro r hr
    exact (h.filled r hr).congr (hword r hr)
  · intro r hr top htop
    have hs := h.space r hr
    exact ⟨hs.pteAddr_congr htop (hword r hr), fun _ => hs.entry_congr htop (hword r hr)⟩

lemma change {tops' : ℕ → List ℕ} (h : Spaces m owned roots tops label) (hr : r ∈ roots)
    (htops : ∀ r' ∈ roots, r' ≠ r → tops' r' = tops r')
    (hs : Space m' owned' r (tops' r) label')
    (hkeeps : Keeps m m' owned owned' (label r) label') :
    Spaces m' owned' roots tops' (update label r label') ∧
      (∀ r' ∈ roots, r' ≠ r → ∀ top ∈ tops r', Unseen m m' top) ∧
      ∀ n, Frame owned roots label n →
        Frame owned' roots (update label r label') n ∧ AgreeOn m m' (InPage n) := by
  have hother (r' : ℕ) (hr' : r' ∈ roots) (hne : r' ≠ r) (n : ℕ) (l : ℕ × List ℕ)
      (hn : label r' n = some l) : label r n = none := by
    rw [Option.eq_none_iff_forall_ne_some]
    intro l' hl'
    exact hne (h.apart r' hr' r hr n l l' hn hl')
  have hword (r' : ℕ) (hr' : r' ∈ roots) (hne : r' ≠ r) (n : ℕ) (l : ℕ × List ℕ) (i : ℕ)
      (hn : label r' n = some l) (hi : i < 512) : word m' n i = word m n i :=
    word_of_agreeOn hi (hkeeps.bytes n ((h.space r' hr').labelled n l hn)
      (hother r' hr' hne n l hn))
  refine ⟨⟨?_, ?_, ?_⟩, ?_, ?_⟩
  · intro r' hr'
    by_cases hne : r' = r
    · rw [hne, update_self]
      exact hs
    · rw [update_of_ne hne, htops r' hr' hne]
      exact (h.space r' hr').congr hkeeps.owns hs.page (hword r' hr' hne)
  · intro r' hr'
    by_cases hne : r' = r
    · rw [hne, update_self]
      exact hkeeps.filled (h.filled r hr)
    · rw [update_of_ne hne]
      exact (h.filled r' hr').congr (hword r' hr' hne)
  · have hmixed (r' : ℕ) (hr' : r' ∈ roots) (hne : r' ≠ r) (n : ℕ) (l l' : ℕ × List ℕ)
        (hn : label r' n = some l) (hn' : label' n = some l') : False := by
      rcases hkeeps.new n l' hn' with hold | hfresh
      · rw [hother r' hr' hne n l hn] at hold
        cases hold
      · exact hfresh ((h.space r' hr').labelled n l hn)
    intro r₁ hr₁ r₂ hr₂ n l₁ l₂ hn₁ hn₂
    by_cases hne₁ : r₁ = r <;> by_cases hne₂ : r₂ = r
    · rw [hne₁, hne₂]
    · rw [hne₁, update_self] at hn₁
      rw [update_of_ne hne₂] at hn₂
      exact (hmixed r₂ hr₂ hne₂ n l₂ l₁ hn₂ hn₁).elim
    · rw [hne₂, update_self] at hn₂
      rw [update_of_ne hne₁] at hn₁
      exact (hmixed r₁ hr₁ hne₁ n l₁ l₂ hn₁ hn₂).elim
    · rw [update_of_ne hne₁] at hn₁
      rw [update_of_ne hne₂] at hn₂
      exact h.apart r₁ hr₁ r₂ hr₂ n l₁ l₂ hn₁ hn₂
  · intro r' hr' hne top htop
    have hs' := h.space r' hr'
    exact ⟨hs'.pteAddr_congr htop (hword r' hr' hne),
      fun _ => hs'.entry_congr htop (hword r' hr' hne)⟩
  · rintro n ⟨hn, hnone⟩
    refine ⟨⟨hkeeps.owns n hn, ?_⟩, hkeeps.bytes n hn (hnone r hr)⟩
    intro r' hr'
    by_cases hne : r' = r
    · rw [hne, update_self, Option.eq_none_iff_forall_ne_some]
      intro l hl
      rcases hkeeps.new n l hl with hold | hfresh
      · rw [hnone r hr] at hold
        cases hold
      · exact hfresh hn
    · rw [update_of_ne hne]
      exact hnone r' hr'

lemma space_single (m : Memory) (hpage : IsPage page) (howned : ∀ n ∈ owned, IsPage n) :
    Space (memset m (page + higherHalf) 0 pageSize) (page :: owned) page [page] (single page) := by
  obtain ⟨htree, _, _⟩ := tree_single m hpage
  refine ⟨⟨List.forall_mem_cons.mpr ⟨hpage, howned⟩, ?_, htree.top, htree.kernel_mem,
    htree.child⟩, ?_⟩
  · intro n l hn
    exact eq_of_single hn ▸ (.head _)
  · intro n hn hne
    exact absurd (List.mem_singleton.mp hn) hne

lemma add {roots' : List ℕ} {tops' : ℕ → List ℕ} (h : Spaces m owned roots tops label)
    (hpage : IsPage page) (hfresh : page ∉ owned) (howned : ∀ n ∈ owned, IsPage n)
    (hroots : ∀ r ∈ roots', r = page ∨ r ∈ roots) (hpageTops : tops' page = [page])
    (htops : ∀ r ∈ roots, tops' r = tops r) :
    Spaces (memset m (page + higherHalf) 0 pageSize) (page :: owned) roots' tops'
        (update label page (single page)) ∧
      (∀ r ∈ roots, ∀ top ∈ tops r, Unseen m (memset m (page + higherHalf) 0 pageSize) top) ∧
      ∀ n, Frame owned roots label n →
        Frame (page :: owned) roots' (update label page (single page)) n ∧
          AgreeOn m (memset m (page + higherHalf) 0 pageSize) (InPage n) := by
  have hother {n : ℕ} (hn : n ∈ owned) : n ≠ page := by
    rintro rfl
    exact hfresh hn
  have hagree {n : ℕ} (hn : n ∈ owned) :
      AgreeOn m (memset m (page + higherHalf) 0 pageSize) (InPage n) :=
    agreeOn_memset_page m 0 hpage (howned n hn) (hother hn)
  obtain ⟨hspaces, hunseen⟩ := h.congr (fun n hn => List.mem_cons_of_mem page hn)
    (List.forall_mem_cons.mpr ⟨hpage, howned⟩)
    (fun r hr n l hn => hagree ((h.space r hr).labelled n l hn))
  refine ⟨⟨?_, ?_, ?_⟩, hunseen, ?_⟩
  · intro r hr
    by_cases heq : r = page
    · rw [heq, update_self, hpageTops]
      exact space_single m hpage howned
    · have hr' := (hroots r hr).resolve_left heq
      rw [update_of_ne heq, htops r hr']
      exact hspaces.space r hr'
  · intro r hr
    by_cases heq : r = page
    · rw [heq, update_self]
      exact (tree_single m hpage).2.2
    · rw [update_of_ne heq]
      exact hspaces.filled r ((hroots r hr).resolve_left heq)
  · have hmixed {r n : ℕ} {l l' : ℕ × List ℕ} (hr : r ∈ roots) (hn : label r n = some l)
        (hn' : single page n = some l') : False := by
      have := (h.space r hr).labelled n l hn
      exact hother this (eq_of_single hn')
    intro r₁ hr₁ r₂ hr₂ n l₁ l₂ hn₁ hn₂
    by_cases hne₁ : r₁ = page <;> by_cases hne₂ : r₂ = page
    · rw [hne₁, hne₂]
    · rw [hne₁, update_self] at hn₁
      rw [update_of_ne hne₂] at hn₂
      exact (hmixed ((hroots r₂ hr₂).resolve_left hne₂) hn₂ hn₁).elim
    · rw [hne₂, update_self] at hn₂
      rw [update_of_ne hne₁] at hn₁
      exact (hmixed ((hroots r₁ hr₁).resolve_left hne₁) hn₁ hn₂).elim
    · rw [update_of_ne hne₁] at hn₁
      rw [update_of_ne hne₂] at hn₂
      exact h.apart r₁ ((hroots r₁ hr₁).resolve_left hne₁) r₂ ((hroots r₂ hr₂).resolve_left hne₂)
        n l₁ l₂ hn₁ hn₂
  · rintro n ⟨hn, hnone⟩
    refine ⟨⟨List.mem_cons_of_mem page hn, ?_⟩, hagree hn⟩
    intro r hr
    by_cases heq : r = page
    · rw [heq, update_self, single, update_of_ne (hother hn)]
    · rw [update_of_ne heq]
      exact hnone r ((hroots r hr).resolve_left heq)

end Spaces

end Cottage.Paging
