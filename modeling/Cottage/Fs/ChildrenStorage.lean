import Cottage.Mem.HeapArrays

/-!
# The arrays of children

A directory keeps copies of its children in a block of the heap.
`vfs_create_node` takes the block for the first child, and `vfs_add_child`
stores a child behind the others and then resizes the block for the next one.
It asks for the size of as many pointers, not nodes, so the block stays the one
of 128 bytes that it was in the beginning: there is room for one child.
-/

namespace Cottage.Children

open ByteMemory Mem Malloc Transition

/-- `sizeof(vfs_node_t)` -/
def nodeSize : ℕ := 72

/-- `sizeof(vfs_node_t*)` -/
def pointerSize : ℕ := 8

/-- What `vfs_create_node` does for a directory. -/
def vfsCreateNode (s : ArrayState) (page : ℕ) : Option ArrayState :=
  (malloc nodeSize page s.heap.heap).map fun (heap, children) =>
    { heap := ⟨heap, ⟨children, nodeSize, isBig nodeSize⟩ :: s.heap.live⟩
      arrays := s.arrays.alloc ⟨children, 0⟩ }

/-- The node at `newChild` becomes the last child. -/
def vfsAddChild (s : ArrayState) (parent newChild page : ℕ) : Option ArrayState :=
  if parent < s.arrays.count then
    let ⟨children, childrenCount⟩ := s.arrays.get parent
    let stored := memcpy s.heap.heap.memory (children + nodeSize * childrenCount) newChild nodeSize
    let s := (s.write stored).setCount parent (childrenCount + 1)
    s.resize parent (pointerSize * (childrenCount + 1 + 1) % 2 ^ 64) page
  else none

inductive DirEvent
  | create (page : ℕ)
  | addChild (parent newChild page : ℕ)
  | other (e : Event)
  deriving DecidableEq, Repr

def dirStep (s : ArrayState) : DirEvent → Option ArrayState
  | .create page => vfsCreateNode s page
  | .addChild parent newChild page => vfsAddChild s parent newChild page
  | .other e => s.other e

def dirSystem : System ArrayState DirEvent where
  init s := Initial s.heap ∧ s.arrays.count = 0
  step := dirStep

def HasRoom (s : ArrayState) (dir : ℕ) : Prop :=
  nodeSize * ((s.arrays.get dir).count + 1) ≤ usableAt s.heap.heap (s.arrays.get dir).ptr

def FirstChild (s : ArrayState) : DirEvent → Prop
  | .addChild parent _ _ => (s.arrays.get parent).count = 0
  | _ => True

def nodeSlab : ℕ := 6

lemma malloc_nodeSize (page : ℕ) (h : Heap) :
    malloc nodeSize page h = slabAlloc nodeSlab page h := by
  have hfind : findSlab ((8 + nodeSize) % 2 ^ 64) = some nodeSlab := by decide
  simp only [malloc, hfind]

structure DirInv (s : ArrayState) : Prop where
  held : Held (fun _ _ => True) s
  entry : ∀ k < s.arrays.count, IsEntry s.heap.heap.slabPages nodeSlab (s.arrays.get k).ptr
  count_le : ∀ k < s.arrays.count, (s.arrays.get k).count ≤ 1

namespace DirInv

variable {s t : ArrayState} {dir newChild page : ℕ}

section

variable (h : DirInv s) (hdir : dir < s.arrays.count)

include h hdir

lemma usableAt_eq : usableAt s.heap.heap (s.arrays.get dir).ptr = 128 := by
  obtain ⟨_, _, hoffset, hheader⟩ := h.held.inv.entry_header (h.entry dir hdir)
  rw [usableAt, if_neg hoffset, hheader]
  rfl

lemma hasRoom_iff : HasRoom s dir ↔ (s.arrays.get dir).count = 0 := by
  rw [HasRoom, h.usableAt_eq hdir, nodeSize]
  omega

lemma ptr_ne_zero : (s.arrays.get dir).ptr ≠ 0 :=
  (h.held.inv.entry_header (h.entry dir hdir)).2.1

end

lemma create (h : DirInv s) (hstep : vfsCreateNode s page = some t) : DirInv t := by
  obtain ⟨⟨heap, children⟩, hcall, rfl⟩ := Option.map_eq_some_iff.mp hstep
  obtain ⟨hallocated, hentry⟩ := h.held.inv.allocated_slabAlloc (by decide)
    (by decide : nodeSize ≤ entSize nodeSlab) hcall
  have hbig : isBig nodeSize = false := by decide
  refine ⟨?_, ?_, ?_⟩
  · apply h.held.push hallocated.inv (List.subset_cons_self _ _)
    · exact fun _ => trivial
    · exact fun _ => ⟨_, .head _, rfl, trivial⟩
    · exact fun _ b hb => hallocated.inv.head_ne hb
  · intro k hk
    rcases s.arrays.get_alloc_cases _ hk with ⟨_, heq⟩ | ⟨hlt, heq⟩
    · rw [heq]
      exact hentry
    · rw [heq]
      exact (h.entry k hlt).mono hallocated.subset
  · intro k hk
    rcases s.arrays.get_alloc_cases _ hk with ⟨_, heq⟩ | ⟨hlt, heq⟩
    · rw [heq]
      exact Nat.zero_le 1
    · rw [heq]
      exact h.count_le k hlt

lemma realloc_eq_self {h : Heap} {live : List Block} {c len ptr : ℕ} (hI : Inv h live)
    (hentry : IsEntry h.slabPages c ptr) (hlen : len ≤ entSize c) (page : ℕ) :
    realloc ptr len page h = some (h, ptr) := by
  obtain ⟨_, hne, hoffset, hheader⟩ := hI.entry_header hentry
  rw [realloc, if_neg hne, if_neg hoffset]
  simp only [hheader]
  rw [if_neg (not_lt.mpr hlen)]

def stored (s : ArrayState) (dir newChild : ℕ) : ArrayState :=
  (s.write (memcpy s.heap.heap.memory
    ((s.arrays.get dir).ptr + nodeSize * (s.arrays.get dir).count) newChild nodeSize)).setCount dir
      ((s.arrays.get dir).count + 1)

lemma vfsAddChild_eq (hdir : dir < s.arrays.count) :
    vfsAddChild s dir newChild page = (stored s dir newChild).resize dir
      (pointerSize * ((s.arrays.get dir).count + 1 + 1) % 2 ^ 64) page := by
  rw [vfsAddChild, if_pos hdir]
  rfl

section

variable (h : DirInv s) (hdir : dir < s.arrays.count) (hcount : (s.arrays.get dir).count = 0)

include h hdir hcount

lemma held_stored (newChild : ℕ) : Held (fun _ _ => True) (stored s dir newChild) := by
  have hwrite := h.held.write hdir (h.ptr_ne_zero hdir) (agreeOutside_memcpy _
    ((s.arrays.get dir).ptr + nodeSize * (s.arrays.get dir).count) newChild nodeSize)
    (Nat.le_add_right _ _) (by rw [h.usableAt_eq hdir, hcount, nodeSize]; omega)
  exact hwrite.setCount (fun _ _ => trivial) fun _ _ _ _ => trivial

lemma addChild (newChild page : ℕ) :
    ∃ t, vfsAddChild s dir newChild page = some t ∧ DirInv t ∧
      t.arrays.count = s.arrays.count ∧ (t.arrays.get dir).count = 1 := by
  have hheld := h.held_stored hdir hcount newChild
  have hself : (stored s dir newChild).arrays.get dir = ⟨(s.arrays.get dir).ptr, 1⟩ := by
    simp only [stored, ArrayState.setCount, ArrayState.write, Records.get_set_self, hcount]
  have hother {k : ℕ} (hk : k ≠ dir) : (stored s dir newChild).arrays.get k = s.arrays.get k :=
    Records.get_set_of_ne _ _ hk
  have hentry (k : ℕ) (hk : k < s.arrays.count) :
      IsEntry (stored s dir newChild).heap.heap.slabPages nodeSlab
        ((stored s dir newChild).arrays.get k).ptr := by
    by_cases heq : k = dir
    · rw [heq, hself]
      exact h.entry dir hdir
    · rw [hother heq]
      exact h.entry k hk
  have hcall := realloc_eq_self hheld.inv (hentry dir hdir) (by decide : 16 ≤ entSize nodeSlab) page
  obtain ⟨t, ht⟩ : ∃ t, (stored s dir newChild).resize dir 16 page = some t := by
    rw [ArrayState.resize, hcall]
    exact ⟨_, rfl⟩
  have hsize : pointerSize * ((s.arrays.get dir).count + 1 + 1) % 2 ^ 64 = 16 := by
    rw [hcount]
    decide
  have hheld' := hheld.resize hdir (by decide) (fun _ => trivial) ht
  rw [ArrayState.resize, hcall] at ht
  cases ht
  have hsame (k : ℕ) : ((stored s dir newChild).arrays.set
      { (stored s dir newChild).arrays.get dir with
        ptr := ((stored s dir newChild).arrays.get dir).ptr } dir).get k =
      (stored s dir newChild).arrays.get k := by
    by_cases heq : k = dir
    · rw [heq, Records.get_set_self]
    · rw [Records.get_set_of_ne _ _ heq]
  refine ⟨_, ?_, ⟨hheld', ?_, ?_⟩, rfl, ?_⟩
  · rw [vfsAddChild_eq hdir, hsize, ArrayState.resize, hcall]
    rfl
  · intro k hk
    rw [hsame]
    exact hentry k hk
  · intro k hk
    rw [hsame]
    by_cases heq : k = dir
    · rw [heq, hself]
    · rw [hother heq]
      exact h.count_le k hk
  · rw [hsame, hself]

end

lemma other {e : Event} (h : DirInv s) (hstep : s.other e = some t) : DirInv t := by
  have hheld := h.held.other hstep
  simp only [ArrayState.other, Option.ite_none_right_eq_some, Option.map_eq_some_iff] at hstep
  obtain ⟨_, heap, hstep, rfl⟩ := hstep
  refine ⟨hheld, ?_, h.count_le⟩
  intro k hk
  exact (h.entry k hk).mono (h.held.inv.keeps_step hstep).2.1

lemma step {e : DirEvent} (h : DirInv s) (hok : FirstChild s e)
    (hstep : dirStep s e = some t) : DirInv t := by
  cases e with
  | create page => exact h.create hstep
  | addChild parent newChild page =>
    have hparent : parent < s.arrays.count := by
      by_contra hnot
      rw [dirStep, vfsAddChild, if_neg hnot] at hstep
      cases hstep
    obtain ⟨t', ht', hinv, _⟩ := h.addChild hparent hok newChild page
    cases ht'.symm.trans hstep
    exact hinv
  | other e => exact h.other hstep

lemma of_initial (hheap : Initial s.heap) (hcount : s.arrays.count = 0) : DirInv s := by
  refine ⟨.of_initial hheap hcount, ?_, ?_⟩
  · intro k hk
    omega
  · intro k hk
    omega

lemma of_reachable (hreach : dirSystem.ReachableVia FirstChild s) : DirInv s :=
  hreach.invariant (fun _ h => of_initial h.1 h.2) fun _ _ _ h hok hstep => h.step hok hstep

end DirInv

/-- As long as children were added to empty directories only, there is room for
the next child of a directory exactly if it is empty. -/
theorem children_room_iff {s : ArrayState} (hreach : dirSystem.ReachableVia FirstChild s)
    {dir : ℕ} (hdir : dir < s.arrays.count) : HasRoom s dir ↔ (s.arrays.get dir).count = 0 :=
  (DirInv.of_reachable hreach).hasRoom_iff hdir

lemma exists_directory :
    ∃ s, dirSystem.ReachableVia FirstChild s ∧ 0 < s.arrays.count ∧ (s.arrays.get 0).count = 0 := by
  obtain ⟨heap, hheap, hany⟩ := exists_initial_of_bootHeap_any (fun heap =>
    (vfsCreateNode (noArrays heap) 0xB000).any fun s : ArrayState =>
      s.arrays.count = 1 ∧ (s.arrays.get 0).count = 0) (by decide +kernel)
  obtain ⟨s, hstep, hs⟩ := Option.any_eq_true _ _ |>.mp hany
  obtain ⟨hcount, hzero⟩ := of_decide_eq_true hs
  have hinit : dirSystem.ReachableVia FirstChild (noArrays heap) := .init ⟨hheap, rfl⟩
  exact ⟨s, .step hinit (a := .create 0xB000) trivial hstep, by omega, hzero⟩

theorem children_room_iff_empty :
    ∃ s, dirSystem.ReachableVia FirstChild s ∧ (s.arrays.get 0).count = 0 ∧ HasRoom s 0 := by
  obtain ⟨s, hreach, hdir, hzero⟩ := exists_directory
  exact ⟨s, hreach, hzero, (children_room_iff hreach hdir).mpr hzero⟩

theorem children_no_room :
    ∃ s, dirSystem.Reachable s ∧ 0 < s.arrays.count ∧ (s.arrays.get 0).count = 1 ∧
      usableAt s.heap.heap (s.arrays.get 0).ptr = 128 ∧ ¬ HasRoom s 0 := by
  obtain ⟨s, hreach, hdir, hzero⟩ := exists_directory
  obtain ⟨t, hstep, hinv, hcount, hone⟩ :=
    (DirInv.of_reachable hreach).addChild hdir hzero 0xFFFF80000000F000 0
  have hdir' : 0 < t.arrays.count := hcount ▸ hdir
  have hreach' : dirSystem.Reachable t :=
    .step hreach.reachable (a := .addChild 0 0xFFFF80000000F000 0) trivial hstep
  refine ⟨t, hreach', hdir', hone, hinv.usableAt_eq hdir', ?_⟩
  rw [hinv.hasRoom_iff hdir', hone]
  exact Nat.one_ne_zero

end Cottage.Children
