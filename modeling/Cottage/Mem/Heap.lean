import Cottage.Foundations.LinkedList
import Cottage.Foundations.Transition
import Cottage.Mem.Address

/-!
# The kernel heap

`slaballoc.c` and `malloc.c` over byte memory.  Small requests are served from
pages cut into entries of one size, whose free entries are linked through their
first words; the page starts with a header that names its slab.  Large requests
get pages of their own behind a page of metadata.

The page allocator is an oracle here: the address it returns is an argument,
and an answer is possible when the pages are fresh, that is, nonzero, in the
direct map and apart from all pages the heap holds.  It returns them zeroed.
`owned` lists the pages held, `slabPages` those among them that `init_slab` cut
up.
-/

namespace Cottage.Malloc

open ByteMemory LinkedList Mem Transition Function

def entSizes : List ℕ :=
  [8, 16, 24, 32, 48, 64, 128, 256, 512, 1024]

def slabCount : ℕ := 10

/-- `slabs[i].ent_size` -/
def entSize (i : ℕ) : ℕ :=
  entSizes.getD i 0

structure PageRun where
  base : ℕ
  count : ℕ
  deriving DecidableEq, Repr

def PageRun.Apart (r r' : PageRun) : Prop :=
  r.base + r.count * pageSize ≤ r'.base ∨ r'.base + r'.count * pageSize ≤ r.base

instance (r r' : PageRun) : Decidable (r.Apart r') :=
  inferInstanceAs (Decidable (_ ∨ _))

def PageRun.Valid (r : PageRun) : Prop :=
  pageSize ∣ r.base ∧ 0 < r.base ∧ r.base + r.count * pageSize ≤ directMapSize

instance (r : PageRun) : Decidable r.Valid :=
  inferInstanceAs (Decidable (_ ∧ _))

structure Heap where
  memory : Memory
  firstFree : ℕ → ℕ
  owned : List PageRun
  slabPages : List (ℕ × ℕ)

/-! ## The page allocator -/

def pmmAlloc (page count : ℕ) (h : Heap) : Option Heap :=
  if (PageRun.mk page count).Valid ∧ ∀ r ∈ h.owned, (PageRun.mk page count).Apart r then
    some { h with
      memory := memset h.memory (page + higherHalf) 0 (count * pageSize)
      owned := ⟨page, count⟩ :: h.owned }
  else none

def pmmFree (page count : ℕ) (h : Heap) : Heap :=
  { h with owned := h.owned.filter (· ≠ ⟨page, count⟩) }

/-! ## Slabs -/

/-- `init_slab`, with `page` the page that `pmm_alloc` returns. -/
def initSlab (i page : ℕ) (h : Heap) : Option Heap :=
  (pmmAlloc page 1 h).map fun h =>
    let slabptr := page + higherHalf
    let avlSize := pageSize - alignUp 8 (entSize i)
    let firstFree := slabptr + alignUp 8 (entSize i)
    let max := avlSize / entSize i - 1
    let fact := entSize i / 8
    let arr (k : ℕ) : ℕ := firstFree + k * 8
    let linked := linkCells (fun k => arr (k * fact)) (write64 h.memory slabptr i) max
    { h with
      memory := write64 linked (arr (max * fact)) 0
      firstFree := update h.firstFree i firstFree
      slabPages := (page, i) :: h.slabPages }

/-- `slaballoc_init`; the argument lists the pages that `pmm_alloc` returns. -/
def slaballocInit (pages : ℕ → ℕ) (h : Heap) : Option Heap :=
  (List.range slabCount).foldlM (fun h i => initSlab i (pages i) h) h

def findSlab (size : ℕ) : Option ℕ :=
  (List.range slabCount).find? fun i => size ≤ entSize i

def slabAlloc (i page : ℕ) (h : Heap) : Option (Heap × ℕ) :=
  (if h.firstFree i = 0 then initSlab i page h else some h).map fun h =>
    let oldFree := h.firstFree i
    ({ h with
      firstFree := update h.firstFree i (read64 h.memory oldFree)
      memory := memset h.memory oldFree 0 (entSize i) }, oldFree)

def slabFree (i ptr : ℕ) (h : Heap) : Heap :=
  if ptr = 0 then h
  else { h with
    memory := write64 h.memory ptr (h.firstFree i)
    firstFree := update h.firstFree i ptr }

/-! ## `malloc`, `realloc` and `free` -/

/-- The metadata page holds `pages` in its first and `size` in its second
word.  The check for a null page has no case here: `pmm_alloc` panics when it
finds no pages. -/
def bigMalloc (len page : ℕ) (h : Heap) : Option (Heap × ℕ) :=
  let pageCount := divRoundup len pageSize
  (pmmAlloc page ((pageCount + 1) % 2 ^ 64) h).map fun h =>
    let metadata := page + higherHalf
    ({ h with memory := write64 (write64 h.memory metadata pageCount) (metadata + 8) len },
      metadata + pageSize)

def malloc (len page : ℕ) (h : Heap) : Option (Heap × ℕ) :=
  match findSlab ((8 + len) % 2 ^ 64) with
  | none => bigMalloc len page h
  | some i => slabAlloc i page h

def bigFree (ptr : ℕ) (h : Heap) : Heap :=
  let metadata := ptr - pageSize
  pmmFree (metadata - higherHalf) (read64 h.memory metadata + 1) h

def free (ptr : ℕ) (h : Heap) : Heap :=
  if ptr = 0 then h
  else if pageOffset ptr = 0 then bigFree ptr h
  else slabFree (read64 h.memory (pageBase ptr)) ptr h

def bigRealloc (ptr len page : ℕ) (h : Heap) : Option (Heap × ℕ) :=
  let metadata := ptr - pageSize
  if divRoundup (read64 h.memory (metadata + 8)) pageSize = divRoundup len pageSize then
    some ({ h with memory := write64 h.memory (metadata + 8) len }, ptr)
  else
    (malloc len page h).map fun (h, newPtr) =>
      if newPtr = 0 then (h, 0)
      else
        let size := read64 h.memory (metadata + 8)
        let copied := memcpy h.memory newPtr ptr (if size > len then len else size)
        (free ptr { h with memory := copied }, newPtr)

def realloc (ptr len page : ℕ) (h : Heap) : Option (Heap × ℕ) :=
  if ptr = 0 then malloc len page h
  else if pageOffset ptr = 0 then bigRealloc ptr len page h
  else
    let slabHdr := pageBase ptr
    if len > entSize (read64 h.memory slabHdr) then
      (malloc len page h).map fun (h, newPtr) =>
        let copied := memcpy h.memory newPtr ptr (entSize (read64 h.memory slabHdr))
        (slabFree (read64 copied slabHdr) ptr { h with memory := copied }, newPtr)
    else some (h, ptr)

/-! ## Sequences of calls -/

/-- A block in use: its address, the size last requested for it, and whether
`big_malloc` made it. -/
structure Block where
  ptr : ℕ
  len : ℕ
  big : Bool
  deriving DecidableEq, Repr

structure State where
  heap : Heap
  live : List Block

/-- The bytes the owner of a block may use: the pages its metadata counts, or
one entry of the slab its page header names. -/
def State.usable (s : State) (b : Block) : ℕ :=
  if b.big then read64 s.heap.memory (b.ptr - pageSize) * pageSize
  else entSize (read64 s.heap.memory (pageBase b.ptr))

def without (live : List Block) (ptr : ℕ) : List Block :=
  live.filter (·.ptr ≠ ptr)

def isBig (len : ℕ) : Bool :=
  (findSlab ((8 + len) % 2 ^ 64)).isNone

/-- `page` is the answer of the page allocator, if it is asked.  `store` is the
owner of a block writing to it. -/
inductive Event
  | malloc (len page : ℕ)
  | realloc (ptr len page : ℕ)
  | free (ptr : ℕ)
  | store (ptr offset : ℕ) (value : UInt8)
  deriving DecidableEq, Repr

/-- Sizes up to `2 ^ 63`, and pointers that are null or live. -/
def step (s : State) : Event → Option State
  | .malloc len page =>
    if len ≤ 2 ^ 63 then
      (malloc len page s.heap).map fun (heap, ptr) => ⟨heap, ⟨ptr, len, isBig len⟩ :: s.live⟩
    else none
  | .realloc ptr len page =>
    if len ≤ 2 ^ 63 then
      if ptr = 0 then
        (realloc ptr len page s.heap).map fun (heap, newPtr) =>
          ⟨heap, ⟨newPtr, len, isBig len⟩ :: s.live⟩
      else
        (s.live.find? (·.ptr = ptr)).bind fun b =>
          (realloc ptr len page s.heap).map fun (heap, newPtr) =>
            ⟨heap, ⟨newPtr, len, if newPtr = ptr then b.big else isBig len⟩ ::
              without s.live ptr⟩
    else none
  | .free ptr =>
    if ptr = 0 ∨ ∃ b ∈ s.live, b.ptr = ptr then
      some ⟨free ptr s.heap, without s.live ptr⟩
    else none
  | .store ptr offset value =>
    (s.live.find? (·.ptr = ptr)).bind fun b =>
      if offset < s.usable b then
        some { s with heap := { s.heap with
          memory := s.heap.memory.set (ptr + offset) value } }
      else none

def emptyHeap (memory : Memory) : Heap where
  memory := memory
  firstFree := fun _ => 0
  owned := []
  slabPages := []

/-- Right after `slaballoc_init`. -/
def Initial (s : State) : Prop :=
  (∃ memory pages, slaballocInit pages (emptyHeap memory) = some s.heap) ∧ s.live = []

def system : System State Event where
  init := Initial
  step := step

end Cottage.Malloc
