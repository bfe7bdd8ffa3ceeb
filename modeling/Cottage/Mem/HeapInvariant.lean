import Cottage.Mem.HeapLayout

/-!
# The invariant of the heap

The layout together with what memory holds: every slab page names its slab, the
metadata of a big block counts its pages and records its size, and the free
list of a slab runs through exactly its entries that are not in use.
-/

namespace Cottage.Malloc

open ByteMemory LinkedList Mem Function

variable {h : Heap} {live : List Block} {b : Block} {r : PageRun} {c len page ptr x : ℕ}

/-- The entries of slab `c` that are not in use, as a free list holds them. -/
def FreeEntry (slabs : List (ℕ × ℕ)) (live : List Block) (c a : ℕ) : Prop :=
  IsEntry slabs c a ∧ ∀ b ∈ live, b.ptr ≠ a

structure Contents (h : Heap) (live : List Block) : Prop where
  header : ∀ p c, (p, c) ∈ h.slabPages → read64 h.memory (p + higherHalf) = c
  metadata : ∀ b ∈ live, b.big = true → read64 h.memory (b.ptr - pageSize) = b.pages ∧
    read64 h.memory (b.ptr - pageSize + 8) = b.len
  freeList : ∀ c, c < slabCount → ∃ l, Chain h.memory (h.firstFree c) l ∧ l.Nodup ∧
    ∀ a, a ∈ l ↔ FreeEntry h.slabPages live c a

structure Inv (h : Heap) (live : List Block) : Prop where
  layout : Layout h.owned h.slabPages live
  contents : Contents h live

lemma Inv.of_agree {m : Memory} (hI : Inv h live)
    (hagree : AgreeOn h.memory m (Reserved h.slabPages live)) :
    Inv { h with memory := m } live := by
  refine ⟨hI.layout, ?_, ?_, ?_⟩
  · intro p c hp
    rw [← hI.contents.header p c hp]
    apply read64_congr
    apply hagree.mono
    intro x hx
    exact .header p c hp hx.1 hx.2
  · intro b hb hbig
    obtain ⟨hpages, hsize⟩ := hI.contents.metadata b hb hbig
    rw [← hpages, ← hsize]
    constructor
    · apply read64_congr
      apply hagree.mono
      intro x hx
      exact .metadata b hb hbig hx.1 (by omega)
    · apply read64_congr
      apply hagree.mono
      intro x hx
      exact .metadata b hb hbig (by omega) (by omega)
  · intro c hc
    obtain ⟨l, hchain, hnodup, hmem⟩ := hI.contents.freeList c hc
    refine ⟨l, hchain.congr ?_, hnodup, hmem⟩
    intro a ha
    obtain ⟨hentry, hfree⟩ := (hmem a).mp ha
    apply read64_congr
    apply hagree.mono
    intro x hx
    exact .link c a hentry hfree hx.1 hx.2

lemma Inv.write_block {m : Memory} {dest n : ℕ} (hI : Inv h live) (hb : b ∈ live)
    (hagree : AgreeOutside h.memory m dest n)
    (hcovers : ∀ x, dest ≤ x → x < dest + n → Covers h.slabPages b x) :
    Inv { h with memory := m } live := by
  apply hI.of_agree
  apply hagree.mono
  intro x hres hx
  exact hI.layout.not_reserved hb (hcovers x hx.1 hx.2) hres

lemma Inv.write_unused {m : Memory} (hI : Inv h live) (hr : r ∈ h.owned)
    (hu : Unused h.slabPages live r) (hagree : AgreeOn h.memory m fun x => ¬ r.Has x) :
    Inv { h with memory := m } live := by
  apply hI.of_agree
  apply hagree.mono
  intro x hres hx
  exact hu.not_reserved hI.layout hr hx hres

lemma Inv.addRun (hI : Inv h live) (hcount : 1 ≤ r.count) (hvalid : r.Valid)
    (hapart : ∀ r' ∈ h.owned, r.Apart r') :
    Inv { h with owned := r :: h.owned } live ∧ Unused h.slabPages live r := by
  refine ⟨⟨?_, hI.contents.header, hI.contents.metadata, hI.contents.freeList⟩, ?_, ?_⟩
  · refine { hI.layout with valid := ?_, apart := ?_, slab_owned := ?_, big_block := ?_ }
    · exact List.forall_mem_cons.mpr ⟨hvalid, hI.layout.valid⟩
    · intro r₁ h₁ r₂ h₂ hne
      rcases List.mem_cons.mp h₁ with heq₁ | hold₁ <;>
        rcases List.mem_cons.mp h₂ with heq₂ | hold₂
      · exact absurd (heq₁.trans heq₂.symm) hne
      · exact heq₁ ▸ hapart r₂ hold₂
      · exact heq₂ ▸ (hapart r₁ hold₁).symm
      · exact hI.layout.apart r₁ hold₁ r₂ hold₂ hne
    · intro p c hp
      obtain ⟨howned, hc⟩ := hI.layout.slab_owned p c hp
      exact ⟨List.mem_cons_of_mem r howned, hc⟩
    · intro b hb hbig
      obtain ⟨p, hptr, howned, hlen⟩ := hI.layout.big_block b hb hbig
      exact ⟨p, hptr, List.mem_cons_of_mem r howned, hlen⟩
  · intro c hp
    exact PageRun.not_apart hcount le_rfl rfl (hapart _ (hI.layout.slab_owned r.base c hp).1)
  · intro b hb hbig heq
    obtain ⟨p, hptr, howned, _⟩ := hI.layout.big_block b hb hbig
    have hbase : r.base = p := by omega
    exact PageRun.not_apart hcount (Nat.succ_pos b.pages) hbase (hapart _ howned)

lemma Inv.dropRun (hI : Inv h live) (hu : Unused h.slabPages live r) :
    Inv { h with owned := h.owned.filter (· ≠ r) } live := by
  have hmem : ∀ r', r' ∈ h.owned.filter (· ≠ r) ↔ r' ∈ h.owned ∧ r' ≠ r := by
    simp
  refine ⟨?_, hI.contents.header, hI.contents.metadata, hI.contents.freeList⟩
  refine { hI.layout with valid := ?_, apart := ?_, slab_owned := ?_, big_block := ?_ }
  · intro r' hr'
    exact hI.layout.valid r' ((hmem r').mp hr').1
  · intro r₁ h₁ r₂ h₂ hne
    exact hI.layout.apart r₁ ((hmem r₁).mp h₁).1 r₂ ((hmem r₂).mp h₂).1 hne
  · intro p c hp
    obtain ⟨howned, hc⟩ := hI.layout.slab_owned p c hp
    exact ⟨(hmem _).mpr ⟨howned, (hu.ne_slab hp).symm⟩, hc⟩
  · intro b hb hbig
    obtain ⟨p, hptr, howned, hlen⟩ := hI.layout.big_block b hb hbig
    exact ⟨p, hptr, (hmem _).mpr ⟨howned, (hu.ne_big hb hbig hptr).symm⟩, hlen⟩

lemma Inv.addBig (hI : Inv h live) (hptr : b.ptr = r.base + higherHalf + pageSize)
    (hbig : b.big = true) (hcount : r.count = b.pages + 1) (hr : r ∈ h.owned)
    (hu : Unused h.slabPages live r) (hlen : 1 ≤ b.len) (hle : b.len ≤ 2 ^ 63)
    (hpages : read64 h.memory (b.ptr - pageSize) = b.pages)
    (hsize : read64 h.memory (b.ptr - pageSize + 8) = b.len) : Inv h (b :: live) := by
  have hrun : r = ⟨r.base, b.pages + 1⟩ := by
    rw [← hcount]
  have hhas : r.Has b.ptr := by
    rw [hrun]
    exact Layout.has_ptr_of_big hptr hlen hle
  refine ⟨{ hI.layout with nodup := ?_, slab_block := ?_, big_block := ?_ },
    hI.contents.header, ?_, ?_⟩
  · rw [List.map_cons, List.nodup_cons]
    refine ⟨?_, hI.layout.nodup⟩
    intro hmem
    obtain ⟨b', hb', heq⟩ := List.mem_map.mp hmem
    exact hu.not_ptr hI.layout hr hb' (heq ▸ hhas)
  · refine List.forall_mem_cons.mpr ⟨?_, hI.layout.slab_block⟩
    intro hslab
    exact absurd hbig (by simp [hslab])
  · refine List.forall_mem_cons.mpr ⟨?_, hI.layout.big_block⟩
    intro _
    exact ⟨r.base, hptr, hrun ▸ hr, hlen, hle⟩
  · exact List.forall_mem_cons.mpr ⟨fun _ => ⟨hpages, hsize⟩, hI.contents.metadata⟩
  · intro c hc
    obtain ⟨l, hchain, hnodup, hmem⟩ := hI.contents.freeList c hc
    refine ⟨l, hchain, hnodup, fun a => (hmem a).trans ?_⟩
    refine and_congr_right fun hentry => ?_
    rw [List.forall_mem_cons]
    refine (and_iff_right ?_).symm
    rintro rfl
    exact hu.not_entry hI.layout hr hentry hhas

lemma Inv.forgetBig (hI : Inv h live) (hb : b ∈ live) (hbig : b.big = true) :
    Inv h (without live b.ptr) ∧
      ∃ p, b.ptr = p + higherHalf + pageSize ∧ ⟨p, b.pages + 1⟩ ∈ h.owned ∧
        Unused h.slabPages (without live b.ptr) ⟨p, b.pages + 1⟩ := by
  obtain ⟨p, hptr, howned, hlen, hle⟩ := hI.layout.big_block b hb hbig
  refine ⟨⟨hI.layout.without b.ptr, hI.contents.header, ?_, ?_⟩, p, hptr, howned, ?_, ?_⟩
  · intro b' hb'
    exact hI.contents.metadata b' (mem_without.mp hb').1
  · intro c hc
    obtain ⟨l, hchain, hnodup, hmem⟩ := hI.contents.freeList c hc
    refine ⟨l, hchain, hnodup, fun a => (hmem a).trans ?_⟩
    refine and_congr_right fun hentry => ⟨?_, ?_⟩
    · intro hfree b' hb'
      exact hfree b' (mem_without.mp hb').1
    · intro hfree b' hb' heq
      by_cases hsame : b'.ptr = b.ptr
      · exact hI.layout.big_ne_entry hb hbig hentry (hsame ▸ heq)
      · exact hfree b' (mem_without.mpr ⟨hb', hsame⟩) heq
  · intro c hp
    exact PageRun.not_apart le_rfl (Nat.succ_pos b.pages) rfl
      (hI.layout.apart _ (hI.layout.slab_owned p c hp).1 _ howned (Layout.slab_run_ne hlen hle p p))
  · intro b' hb' _ heq
    exact (mem_without.mp hb').2 (heq.trans hptr.symm)

/-! ## Entries -/

section

variable (hI : Inv h live) (hc : c < slabCount)

include hI hc

lemma Inv.freeEntry_firstFree (hfirst : h.firstFree c ≠ 0) :
    FreeEntry h.slabPages live c (h.firstFree c) := by
  obtain ⟨l, hchain, _, hmem⟩ := hI.contents.freeList c hc
  obtain ⟨rest, rfl, _⟩ := hchain.exists_cons hfirst
  exact (hmem _).mp (.head _)

lemma Inv.pop (hfirst : h.firstFree c ≠ 0) (hlen : len ≤ entSize c) :
    Inv { h with firstFree := update h.firstFree c (read64 h.memory (h.firstFree c)) }
      (⟨h.firstFree c, len, false⟩ :: live) := by
  obtain ⟨hentry, hfree⟩ := hI.freeEntry_firstFree hc hfirst
  obtain ⟨l, hchain, hnodup, hmem⟩ := hI.contents.freeList c hc
  obtain ⟨rest, rfl, hrest⟩ := hchain.exists_cons hfirst
  obtain ⟨hnot, hnodup'⟩ := List.nodup_cons.mp hnodup
  refine ⟨{ hI.layout with nodup := ?_, slab_block := ?_, big_block := ?_ },
    hI.contents.header, ?_, ?_⟩
  · rw [List.map_cons, List.nodup_cons]
    refine ⟨?_, hI.layout.nodup⟩
    intro hmem
    obtain ⟨b, hb, heq⟩ := List.mem_map.mp hmem
    exact hfree b hb heq
  · exact List.forall_mem_cons.mpr ⟨fun _ => ⟨c, hentry, hlen⟩, hI.layout.slab_block⟩
  · refine List.forall_mem_cons.mpr ⟨?_, hI.layout.big_block⟩
    intro hbig
    cases hbig
  · refine List.forall_mem_cons.mpr ⟨?_, hI.contents.metadata⟩
    intro hbig
    cases hbig
  · intro c' hc'
    by_cases heq : c' = c
    · subst heq
      refine ⟨rest, ?_, hnodup', ?_⟩
      · simpa only [update_self] using hrest
      · intro a
        have hiff := hmem a
        rw [List.mem_cons] at hiff
        constructor
        · intro ha
          obtain ⟨hentry', hfree'⟩ := hiff.mp (.inr ha)
          refine ⟨hentry', List.forall_mem_cons.mpr ⟨?_, hfree'⟩⟩
          rintro rfl
          exact hnot ha
        · rintro ⟨hentry', hfree'⟩
          obtain ⟨hne, hfree'⟩ := List.forall_mem_cons.mp hfree'
          exact (hiff.mpr ⟨hentry', hfree'⟩).resolve_left fun ha => hne ha.symm
    · obtain ⟨l', hchain', hnodup'', hmem'⟩ := hI.contents.freeList c' hc'
      refine ⟨l', ?_, hnodup'', ?_⟩
      · simpa only [update_of_ne heq] using hchain'
      · intro a
        rw [hmem' a]
        refine and_congr_right fun hentry' => ?_
        rw [List.forall_mem_cons]
        refine (and_iff_right ?_).symm
        rintro rfl
        exact heq (hI.layout.entry_class_eq hentry' hentry)

lemma Inv.firstFree_lt : h.firstFree c < 2 ^ 64 := by
  by_cases hzero : h.firstFree c = 0
  · rw [hzero]
    exact Nat.two_pow_pos 64
  · obtain ⟨⟨p, i, hp, hi, heq⟩, _⟩ := hI.freeEntry_firstFree hc hzero
    rw [heq]
    exact (hI.layout.entry_page hp hi).1

lemma Inv.push (hb : b ∈ live) (hentry : IsEntry h.slabPages c b.ptr)
    (hlink : read64 h.memory b.ptr = h.firstFree c) :
    Inv { h with firstFree := update h.firstFree c b.ptr } (without live b.ptr) := by
  obtain ⟨l, hchain, hnodup, hmem⟩ := hI.contents.freeList c hc
  have hnot : b.ptr ∉ l := by
    intro hmem'
    exact ((hmem _).mp hmem').2 b hb rfl
  have hfree (c' a : ℕ) (hne : a ≠ b.ptr) :
      FreeEntry h.slabPages (without live b.ptr) c' a ↔ FreeEntry h.slabPages live c' a := by
    refine and_congr_right fun _ => ⟨?_, ?_⟩
    · intro hall b' hb' heq
      exact hall b' (mem_without.mpr ⟨hb', heq.symm ▸ hne⟩) heq
    · intro hall b' hb'
      exact hall b' (mem_without.mp hb').1
  have hself : FreeEntry h.slabPages (without live b.ptr) c b.ptr :=
    ⟨hentry, fun b' hb' => (mem_without.mp hb').2⟩
  refine ⟨hI.layout.without b.ptr, hI.contents.header, ?_, ?_⟩
  · intro b' hb'
    exact hI.contents.metadata b' (mem_without.mp hb').1
  · intro c' hc'
    by_cases heq : c' = c
    · subst heq
      refine ⟨b.ptr :: l, ?_, List.nodup_cons.mpr ⟨hnot, hnodup⟩, ?_⟩
      · obtain ⟨p, i, _, _, haddr⟩ := id hentry
        have hne : b.ptr ≠ 0 := by
          simp only [haddr, entAddr, higherHalf]
          omega
        simp only [update_self]
        exact ⟨rfl, hne, hlink ▸ hchain⟩
      · intro a
        by_cases ha : a = b.ptr
        · rw [ha]
          exact iff_of_true (.head _) hself
        · rw [List.mem_cons, or_iff_right ha, hmem a, hfree c' a ha]
    · obtain ⟨l', hchain', hnodup', hmem'⟩ := hI.contents.freeList c' hc'
      refine ⟨l', ?_, hnodup', ?_⟩
      · simpa only [update_of_ne heq] using hchain'
      · intro a
        rw [hmem' a]
        by_cases ha : a = b.ptr
        · rw [ha]
          refine iff_of_false (fun h' => h'.2 b hb rfl) fun h' => ?_
          exact heq (hI.layout.entry_class_eq h'.1 hentry)
        · exact (hfree c' a ha).symm

end

lemma Inv.addSlab {i p : ℕ} (hI : Inv h live) (hi : i < slabCount) (hempty : h.firstFree i = 0)
    (hr : ⟨p, 1⟩ ∈ h.owned) (hu : Unused h.slabPages live ⟨p, 1⟩)
    (hheader : read64 h.memory (p + higherHalf) = i)
    (hchain : Chain h.memory (entAddr p i 0) ((List.range (entries i)).map (entAddr p i))) :
    Inv { h with
      firstFree := update h.firstFree i (entAddr p i 0)
      slabPages := (p, i) :: h.slabPages } live := by
  have hhas (k : ℕ) (hk : k < entries i) : PageRun.Has ⟨p, 1⟩ (entAddr p i k) := by
    obtain ⟨hend, hsize, hfirst⟩ := entry_bounds hi hk
    simp only [PageRun.Has, entAddr]
    omega
  refine ⟨{ hI.layout with slab_owned := ?_, slab_unique := ?_, slab_block := ?_ }, ?_,
    hI.contents.metadata, ?_⟩
  · intro p' c' hp'
    rcases List.mem_cons.mp hp' with heq | hp'
    · cases heq
      exact ⟨hr, hi⟩
    · exact hI.layout.slab_owned p' c' hp'
  · intro p' c₁ c₂ h₁ h₂
    rcases List.mem_cons.mp h₁ with heq₁ | hold₁ <;>
      rcases List.mem_cons.mp h₂ with heq₂ | hold₂
    · exact (Prod.mk.inj heq₁).2.trans (Prod.mk.inj heq₂).2.symm
    · exact absurd ((Prod.mk.inj heq₁).1 ▸ hold₂) (hu.1 c₂)
    · exact absurd ((Prod.mk.inj heq₂).1 ▸ hold₁) (hu.1 c₁)
    · exact hI.layout.slab_unique p' c₁ c₂ hold₁ hold₂
  · intro b hb hbig
    obtain ⟨c, hentry, hlen⟩ := hI.layout.slab_block b hb hbig
    exact ⟨c, isEntry_cons.mpr (.inr hentry), hlen⟩
  · intro p' c' hp'
    rcases List.mem_cons.mp hp' with heq | hp'
    · cases heq
      exact hheader
    · exact hI.contents.header p' c' hp'
  · intro c hc
    obtain ⟨l, hchain', hnodup, hmem⟩ := hI.contents.freeList c hc
    by_cases heq : c = i
    · subst heq
      refine ⟨(List.range (entries c)).map (entAddr p c), ?_, ?_, ?_⟩
      · simpa only [update_self] using hchain
      · exact List.nodup_range.map (entAddr_injective p hc)
      · intro a
        rw [hempty] at hchain'
        obtain rfl := hchain'.eq_nil
        rw [List.mem_map]
        constructor
        · rintro ⟨k, hk, rfl⟩
          have hk := List.mem_range.mp hk
          refine ⟨isEntry_cons.mpr (.inl ⟨rfl, k, hk, rfl⟩), fun b hb heq => ?_⟩
          exact hu.not_ptr hI.layout hr hb (heq ▸ hhas k hk)
        · rintro ⟨hentry, hfree⟩
          rcases isEntry_cons.mp hentry with ⟨_, k, hk, rfl⟩ | hentry
          · exact ⟨k, List.mem_range.mpr hk, rfl⟩
          · exact absurd ((hmem a).mpr ⟨hentry, hfree⟩) List.not_mem_nil
    · refine ⟨l, ?_, hnodup, fun a => (hmem a).trans (and_congr_left fun _ => ?_)⟩
      · simpa only [update_of_ne heq] using hchain'
      · rw [isEntry_cons, or_iff_right]
        rintro ⟨hci, _⟩
        exact heq hci

lemma Inv.resizeSlab (hI : Inv h live) (hb : b ∈ live) (hentry : IsEntry h.slabPages c b.ptr)
    (hlen : len ≤ entSize c) : Inv h (⟨b.ptr, len, false⟩ :: without live b.ptr) := by
  have hlayout := hI.layout.without b.ptr
  refine ⟨{ hlayout with nodup := ?_, slab_block := ?_, big_block := ?_ },
    hI.contents.header, ?_, ?_⟩
  · rw [List.map_cons, List.nodup_cons]
    refine ⟨?_, hlayout.nodup⟩
    intro hmem
    obtain ⟨b', hb', heq⟩ := List.mem_map.mp hmem
    exact (mem_without.mp hb').2 heq
  · exact List.forall_mem_cons.mpr ⟨fun _ => ⟨c, hentry, hlen⟩, hlayout.slab_block⟩
  · refine List.forall_mem_cons.mpr ⟨?_, hlayout.big_block⟩
    intro hbig
    cases hbig
  · refine List.forall_mem_cons.mpr ⟨?_, ?_⟩
    · intro hbig
      cases hbig
    · intro b' hb'
      exact hI.contents.metadata b' (mem_without.mp hb').1
  · intro c' hc'
    obtain ⟨l, hchain, hnodup, hmem⟩ := hI.contents.freeList c' hc'
    refine ⟨l, hchain, hnodup, fun a => (hmem a).trans (and_congr_right fun _ => ?_)⟩
    rw [List.forall_mem_cons]
    constructor
    · intro hfree
      exact ⟨hfree b hb, fun b' hb' => hfree b' (mem_without.mp hb').1⟩
    · rintro ⟨hne, hfree⟩ b' hb' heq
      by_cases hsame : b'.ptr = b.ptr
      · exact hne (hsame ▸ heq)
      · exact hfree b' (mem_without.mpr ⟨hb', hsame⟩) heq

end Cottage.Malloc
