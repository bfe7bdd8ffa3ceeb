import Cottage.Mem.HeapFrame
import Mathlib.Order.CompletePartialOrder

/-!
# Safety of the heap

From the functions the invariant passes to sequences of calls, with the owners
of the blocks writing to them in between.  In every state that is reached,
blocks share no bytes with each other or with the data of the allocator, have
room for what was requested, tell by their address which allocator made them,
and the free lists and the metadata are right.
-/

namespace Cottage.Malloc

open ByteMemory LinkedList Mem Transition

variable {h h' : Heap} {live : List Block} {b : Block} {ptr x : ℕ}

lemma Inv.covers_iff {s : State} (hI : Inv s.heap s.live) (hb : b ∈ s.live) :
    Covers s.heap.slabPages b x ↔ b.ptr ≤ x ∧ x < b.ptr + s.usable b := by
  cases hbig : b.big with
  | false =>
    obtain ⟨c, hentry, _⟩ := hI.layout.slab_block b hb hbig
    have hheader := (hI.entry_header hentry).2.2.2
    simp only [Covers, State.usable, hbig, Bool.false_eq_true, if_false, hheader]
    constructor
    · rintro ⟨c', hentry', hlo, hhi⟩
      obtain rfl := hI.layout.entry_class_eq hentry hentry'
      exact ⟨hlo, hhi⟩
    · rintro ⟨hlo, hhi⟩
      exact ⟨c, hentry, hlo, hhi⟩
  | true =>
    obtain ⟨hpages, _⟩ := hI.contents.metadata b hb hbig
    simp only [Covers, State.usable, hbig, if_true, hpages]

lemma Inv.len_le_usable {s : State} (hI : Inv s.heap s.live) (hb : b ∈ s.live) :
    b.len ≤ s.usable b := by
  by_contra hlt
  have hcovers := hI.layout.covers_of_lt hb (x := b.ptr + s.usable b) (by omega) (by omega)
  have hinside := (hI.covers_iff hb).mp hcovers
  omega

lemma without_eq_self (hne : ∀ b ∈ live, b.ptr ≠ ptr) : without live ptr = live := by
  apply List.filter_eq_self.mpr
  simpa using hne

lemma Inv.store {s : State} {offset : ℕ} (hI : Inv s.heap s.live) (hb : b ∈ s.live)
    (hoffset : offset < s.usable b) (value : UInt8) :
    Inv { s.heap with memory := s.heap.memory.set (b.ptr + offset) value } s.live := by
  apply hI.of_agree
  intro x hres
  rw [set_apply, if_neg]
  rintro rfl
  refine hI.layout.not_reserved hb ?_ hres
  exact (hI.covers_iff hb).mpr ⟨by omega, by omega⟩

lemma Inv.step {s s' : State} {e : Event} (hI : Inv s.heap s.live)
    (hstep : step s e = some s') : Inv s'.heap s'.live := by
  cases e with
  | malloc len page =>
    simp only [Malloc.step, Option.ite_none_right_eq_some, Option.map_eq_some_iff] at hstep
    obtain ⟨hle, ⟨heap, ptr⟩, hcall, rfl⟩ := hstep
    exact hI.malloc hle hcall
  | realloc ptr len page =>
    simp only [Malloc.step, Option.ite_none_right_eq_some] at hstep
    obtain ⟨hle, hstep⟩ := hstep
    by_cases hnull : ptr = 0
    · rw [if_pos hnull, Option.map_eq_some_iff] at hstep
      obtain ⟨⟨heap, newPtr⟩, hcall, rfl⟩ := hstep
      rw [Malloc.realloc, if_pos hnull] at hcall
      exact hI.malloc hle hcall
    · rw [if_neg hnull, Option.bind_eq_some_iff] at hstep
      obtain ⟨b, hfind, hstep⟩ := hstep
      rw [Option.map_eq_some_iff] at hstep
      obtain ⟨⟨heap, newPtr⟩, hcall, rfl⟩ := hstep
      obtain rfl : b.ptr = ptr := by simpa using List.find?_some hfind
      exact hI.realloc (List.mem_of_find?_eq_some hfind) hle hcall
  | free ptr =>
    simp only [Malloc.step, Option.ite_none_right_eq_some, Option.some.injEq] at hstep
    obtain ⟨hvalid, rfl⟩ := hstep
    rcases hvalid with rfl | ⟨b, hb, rfl⟩
    · rw [Malloc.free, if_pos rfl, without_eq_self fun b hb => hI.ptr_ne_zero hb]
      exact hI
    · exact hI.free hb
  | store ptr offset value =>
    simp only [Malloc.step, Option.bind_eq_some_iff, Option.ite_none_right_eq_some,
      Option.some.injEq] at hstep
    obtain ⟨b, hfind, hoffset, rfl⟩ := hstep
    obtain rfl : b.ptr = ptr := by simpa using List.find?_some hfind
    exact hI.store (List.mem_of_find?_eq_some hfind) hoffset value

lemma inv_emptyHeap (m : Memory) : Inv (emptyHeap m) [] := by
  refine ⟨⟨?_, ?_, ?_, ?_, ?_, ?_, ?_⟩, ⟨?_, ?_, ?_⟩⟩
  · exact nofun
  · exact nofun
  · exact nofun
  · exact nofun
  · exact List.nodup_nil
  · exact nofun
  · exact nofun
  · exact nofun
  · exact nofun
  · intro c _
    refine ⟨[], rfl, List.nodup_nil, fun a => iff_of_false List.not_mem_nil ?_⟩
    rintro ⟨⟨p, i, hp, _⟩, _⟩
    cases hp

lemma Inv.initSlabs {pages : ℕ → ℕ} {slabs : List ℕ} (hI : Inv h [])
    (hnodup : slabs.Nodup) (hslabs : ∀ i ∈ slabs, i < slabCount ∧ h.firstFree i = 0)
    (hcall : slabs.foldlM (fun h i => Malloc.initSlab i (pages i) h) h = some h') : Inv h' [] := by
  induction slabs generalizing h with
  | nil =>
    cases hcall
    exact hI
  | cons i slabs ih =>
    obtain ⟨h₁, hfirst, hrest⟩ := Option.bind_eq_some_iff.mp hcall
    obtain ⟨hi, hempty⟩ := hslabs i (.head _)
    obtain ⟨hI₁, _, hframe⟩ := hI.initSlab hi hempty hfirst
    obtain ⟨hnot, hnodup'⟩ := List.nodup_cons.mp hnodup
    apply ih hI₁ hnodup' _ hrest
    intro j hj
    obtain ⟨hj', hempty'⟩ := hslabs j (.tail i hj)
    have hne : j ≠ i := by
      rintro rfl
      exact hnot hj
    exact ⟨hj', (hframe j hne).trans hempty'⟩

lemma inv_of_initial {s : State} (hinit : Initial s) : Inv s.heap s.live := by
  obtain ⟨⟨m, pages, hcall⟩, hlive⟩ := hinit
  rw [hlive]
  apply (inv_emptyHeap m).initSlabs List.nodup_range _ hcall
  intro i hi
  exact ⟨List.mem_range.mp hi, rfl⟩

lemma inv_of_reachable {s : State} (hreach : system.Reachable s) : Inv s.heap s.live :=
  hreach.invariant (fun _ => inv_of_initial) fun _ _ _ hI hstep => hI.step hstep

/-! ## Safety -/

def State.bytes (s : State) (b : Block) : Set ℕ :=
  Set.Ico b.ptr (b.ptr + s.usable b)

/-- The state of the heap is as its users and its own functions expect, and
`free` of a big block gives back the run of pages that was handed out for it and
no other. -/
structure HeapSound (s : State) : Prop where
  blocks_disjoint : s.live.Pairwise fun b b' => Disjoint (s.bytes b) (s.bytes b')
  headers_disjoint : ∀ b ∈ s.live, ∀ p c, (p, c) ∈ s.heap.slabPages →
    Disjoint (s.bytes b) (Set.Ico (p + higherHalf) (p + higherHalf + 8))
  metadata_disjoint : ∀ b ∈ s.live, ∀ b' ∈ s.live, b'.big = true →
    Disjoint (s.bytes b) (Set.Ico (b'.ptr - pageSize) (b'.ptr - pageSize + 16))
  room : ∀ b ∈ s.live, b.len ≤ s.usable b
  aligned : ∀ b ∈ s.live, b.ptr % 4096 = 0 ↔ b.big = true
  header : ∀ b ∈ s.live, b.big = false →
    IsEntry s.heap.slabPages (read64 s.heap.memory (pageBase b.ptr)) b.ptr
  freeList : ∀ c, c < slabCount → ∃ l, Chain s.heap.memory (s.heap.firstFree c) l ∧ l.Nodup ∧
    ∀ a, a ∈ l ↔ IsEntry s.heap.slabPages c a ∧ ∀ b ∈ s.live, b.ptr ≠ a
  metadata : ∀ b ∈ s.live, b.big = true →
    read64 s.heap.memory (b.ptr - pageSize) =
        (read64 s.heap.memory (b.ptr - pageSize + 8) + 4095) / 4096 ∧
      ⟨b.ptr - pageSize - higherHalf, read64 s.heap.memory (b.ptr - pageSize) + 1⟩ ∈ s.heap.owned
  returned : ∀ b ∈ s.live, b.big = true → ∀ r, r ∈ (free b.ptr s.heap).owned ↔
    r ∈ s.heap.owned ∧
      r ≠ ⟨b.ptr - pageSize - higherHalf, read64 s.heap.memory (b.ptr - pageSize) + 1⟩

/-- The heap is sound after any sequence of calls and of stores to its blocks. -/
theorem heap_sound {s : State} (hreach : system.Reachable s) : HeapSound s := by
  have hI := inv_of_reachable hreach
  have hcovers (b : Block) (hb : b ∈ s.live) (x : ℕ) (hx : x ∈ s.bytes b) :
      Covers s.heap.slabPages b x :=
    (hI.covers_iff hb).mpr hx
  refine ⟨?_, ?_, ?_, fun b hb => hI.len_le_usable hb, ?_, ?_, hI.contents.freeList, ?_, ?_⟩
  · apply List.Pairwise.imp_of_mem _ (List.pairwise_map.mp hI.layout.nodup)
    intro b b' hb hb' hne
    apply Set.disjoint_left.mpr
    intro x hx hx'
    exact hne (congrArg Block.ptr (hI.layout.block_eq hb hb' (hcovers b hb x hx)
      (hcovers b' hb' x hx')))
  · intro b hb p c hp
    apply Set.disjoint_left.mpr
    intro x hx hx'
    exact hI.layout.not_reserved hb (hcovers b hb x hx) (.header p c hp hx'.1 hx'.2)
  · intro b hb b' hb' hbig'
    apply Set.disjoint_left.mpr
    intro x hx hx'
    exact hI.layout.not_reserved hb (hcovers b hb x hx) (.metadata b' hb' hbig' hx'.1 hx'.2)
  · intro b hb
    cases hbig : b.big with
    | false =>
      obtain ⟨c, hentry, _⟩ := hI.layout.slab_block b hb hbig
      have hoffset := (hI.entry_header hentry).2.2.1
      rw [pageOffset_eq] at hoffset
      exact iff_of_false hoffset (by simp)
    | true =>
      have hoffset := (hI.big_page hb hbig).2
      rw [pageOffset_eq] at hoffset
      exact iff_of_true hoffset rfl
  · intro b hb hbig
    obtain ⟨c, hentry, _⟩ := hI.layout.slab_block b hb hbig
    rw [(hI.entry_header hentry).2.2.2]
    exact hentry
  · intro b hb hbig
    obtain ⟨hpages, hsize⟩ := hI.contents.metadata b hb hbig
    obtain ⟨p, hptr, howned, _, hle⟩ := hI.layout.big_block b hb hbig
    have hpage : b.ptr - pageSize - higherHalf = p := by omega
    rw [hpages, hsize, hpage]
    exact ⟨divRoundup_eq hle, howned⟩
  · intro b hb hbig r
    rw [free_of_big hI hb hbig, bigFree, pmmFree]
    simp

def bootHeap : Option Heap :=
  slaballocInit (fun i => (i + 1) * 0x1000) (emptyHeap fun _ => 0)

lemma exists_initial_of_bootHeap_any (p : Heap → Bool) (hany : bootHeap.any p = true) :
    ∃ heap, Initial ⟨heap, []⟩ ∧ p heap = true := by
  obtain ⟨heap, hheap, hp⟩ := Option.any_eq_true p _ |>.mp hany
  exact ⟨heap, ⟨⟨_, _, hheap⟩, rfl⟩, hp⟩

theorem heap_sound_after_malloc :
    ∃ s, system.Reachable s ∧ s.live = [⟨0xFFFF80000000D000, 5000, true⟩,
      ⟨0xFFFF800000004020, 20, false⟩] ∧ HeapSound s := by
  obtain ⟨heap, hinit, hany⟩ := exists_initial_of_bootHeap_any (fun heap =>
    (system.run ⟨heap, []⟩ [.malloc 20 0, .malloc 5000 0xC000]).any fun s : State =>
      s.live = [⟨0xFFFF80000000D000, 5000, true⟩, ⟨0xFFFF800000004020, 20, false⟩])
    (by decide +kernel)
  have hreach : system.Reachable ⟨heap, []⟩ := .init hinit
  obtain ⟨s, hs, hlive⟩ := hreach.exists_of_run_any _ _ hany
  exact ⟨s, hs, of_decide_eq_true hlive, heap_sound hs⟩

end Cottage.Malloc
