import Cottage.Foundations.ByteMemory
import Cottage.Foundations.TableWalk
import Cottage.Foundations.Transition
import Cottage.Mem.Address

/-!
# Page tables

The functions of `pagemap.c` and `get_next_level` and `vmm_init` of `vmm.c` on
page tables in byte memory.  A table is a physical page of 512 words, reached
through the direct map; an entry that has its lowest bit set leads to the page
named by its upper bits.

The page allocator is an oracle: its answers are arguments, and an answer is
possible when the page is null or fresh, that is, aligned, in the direct map
and not a table already.  It returns pages zeroed.
-/

namespace Cottage.Paging

open ByteMemory Mem Transition

structure Tables where
  memory : Memory
  owned : List ℕ

def FreshPage (page : ℕ) (t : Tables) : Prop :=
  pageSize ∣ page ∧ 0 < page ∧ page + pageSize ≤ directMapSize ∧ page ∉ t.owned

instance (page : ℕ) (t : Tables) : Decidable (FreshPage page t) :=
  inferInstanceAs (Decidable (_ ∧ _))

def pmmAlloc (page : ℕ) (t : Tables) : Option (Tables × ℕ) :=
  if page = 0 then some (t, 0)
  else if FreshPage page t then
    some (⟨memset t.memory (page + higherHalf) 0 pageSize, page :: t.owned⟩, page)
  else none

/-! ## Walking the levels -/

/-- The address at which entry `index` of a table is read and written. -/
def entryAddr (level index : ℕ) : ℕ :=
  level + higherHalf + index * 8

def getNextLevel (currentLevel index : ℕ) (allocate : Bool) (page : ℕ) (t : Tables) :
    Option (Tables × ℕ) :=
  let entry := entryAddr currentLevel index
  if read64 t.memory entry &&& 0x01 ≠ 0 then
    some (t, pageBase (read64 t.memory entry))
  else if allocate = false then some (t, 0)
  else
    (pmmAlloc page t).map fun (t, ret) =>
      if ret = 0 then (t, 0)
      else ({ t with memory := write64 t.memory entry (ret ||| 0b111) }, ret)

/-- `(virt_addr & (0x1ff << shift)) >> shift` -/
def tableIndex (shift virt : ℕ) : ℕ :=
  (virt &&& (0x1ff <<< shift)) >>> shift

def pml4Entry : ℕ → ℕ := tableIndex 39
def pml3Entry : ℕ → ℕ := tableIndex 30
def pml2Entry : ℕ → ℕ := tableIndex 21
def pml1Entry : ℕ → ℕ := tableIndex 12

/-- Successive calls of `get_next_level`, given up when one returns null; the
list holds the index and the answer of the page allocator for each. -/
def descend (allocate : Bool) : List (ℕ × ℕ) → ℕ → Tables → Option (Tables × ℕ)
  | [], level, t => some (t, level)
  | (index, page) :: rest, level, t =>
    (getNextLevel level index allocate page t).bind fun (t, next) =>
      if next = 0 then some (t, 0) else descend allocate rest next t

/-- The part that `map_page` and `virt2pte` have in common: the first level
table for an address, or null. -/
def pml1 (top virt : ℕ) (allocate : Bool) (pages : ℕ → ℕ) (t : Tables) : Option (Tables × ℕ) :=
  descend allocate [(pml4Entry virt, pages 3), (pml3Entry virt, pages 2), (pml2Entry virt, pages 1)]
    top t

def virt2pte (top virt : ℕ) (allocate : Bool) (pages : ℕ → ℕ) (t : Tables) :
    Option (Tables × ℕ) :=
  (pml1 top virt allocate pages t).map fun (t, pml1) =>
    (t, if pml1 = 0 then 0 else entryAddr pml1 (pml1Entry virt))

/-! ## Operations on one page -/

def mapPage (top virt phys flags : ℕ) (pages : ℕ → ℕ) (t : Tables) : Option (Tables × Bool) :=
  (pml1 top virt true pages t).map fun (t, pml1) =>
    if pml1 = 0 then (t, false)
    else
      let entry := entryAddr pml1 (pml1Entry virt)
      ({ t with memory := write64 t.memory entry (phys ||| flags) }, true)

def unmapPage (top virt : ℕ) (t : Tables) : Option (Tables × Bool) :=
  (virt2pte top virt false (fun _ => 0) t).map fun (t, pte) =>
    if pte = 0 then (t, false)
    else ({ t with memory := write64 t.memory pte 0 }, true)

def flagPage (top virt flags : ℕ) (t : Tables) : Option (Tables × Bool) :=
  (virt2pte top virt false (fun _ => 0) t).map fun (t, pte) =>
    if pte = 0 then (t, false)
    else
      let cleared := write64 t.memory pte (pageBase (read64 t.memory pte))
      ({ t with memory := write64 cleared pte (read64 cleared pte ||| flags) }, true)

/-! ## Pagemaps -/

/-- The loops of `new_pagemap` over the words of the new top level table. -/
def importHigherHalf (kernelTop top : ℕ) (m : Memory) : Memory :=
  let zeroed := (List.range 256).foldl (fun m i => write64 m (entryAddr top i) 0) m
  (List.range' 256 256).foldl
    (fun m i => write64 m (entryAddr top i) (read64 m (entryAddr kernelTop i))) zeroed

/-- `new_pagemap`, which panics when it gets no page. -/
def newPagemap (kernelTop page : ℕ) (t : Tables) : Option (Tables × ℕ) :=
  (pmmAlloc page t).bind fun (t, top) =>
    if top = 0 then none
    else some ({ t with memory := importHigherHalf kernelTop top t.memory }, top)

/-- The loop of `vmm_init` over the higher half of the kernel's top level
table; it panics when it gets no page. -/
def fillHigherHalf (top : ℕ) (pages : ℕ → ℕ) (t : Tables) : Option Tables :=
  (List.range' 256 256).foldlM (fun t i =>
    (getNextLevel top i true (pages i) t).bind fun (t, next) =>
      if next = 0 then none else some t) t

/-- `vmm_init` up to the mapping of single pages. -/
def vmmInit (page : ℕ) (pages : ℕ → ℕ) (t : Tables) : Option (Tables × ℕ) :=
  (pmmAlloc page t).bind fun (t, top) =>
    if top = 0 then none else (fillHigherHalf top pages t).map fun t => (t, top)

/-! ## Sequences of calls -/

inductive PageCall
  | mapPage (phys flags : ℕ) (pages : ℕ → ℕ)
  | unmapPage
  | flagPage (flags : ℕ)

namespace PageCall

def Fits : PageCall → Prop
  | .mapPage phys flags _ => phys < 2 ^ 64 ∧ flags < 2 ^ 64
  | .unmapPage => True
  | .flagPage flags => flags < 2 ^ 64

instance : DecidablePred Fits
  | .mapPage _ _ _ => inferInstanceAs (Decidable (_ ∧ _))
  | .unmapPage => inferInstanceAs (Decidable True)
  | .flagPage _ => inferInstanceAs (Decidable (_ < _))

def run (top virt : ℕ) (t : Tables) : PageCall → Option (Tables × Bool)
  | .mapPage phys flags pages => Paging.mapPage top virt phys flags pages t
  | .unmapPage => Paging.unmapPage top virt t
  | .flagPage flags => Paging.flagPage top virt flags t

end PageCall

inductive Event
  | newPagemap (page : ℕ)
  | onPage (top virt : ℕ) (call : PageCall)

structure Record where
  top : ℕ
  virt : ℕ
  call : PageCall
  ok : Bool

/-- The tables, the kernel's pagemap, the pagemaps created so far with it, and
the calls made so far, the latest first. -/
structure State where
  tables : Tables
  kernel : ℕ
  pagemaps : List ℕ
  log : List Record

def step (s : State) : Event → Option State
  | .newPagemap page =>
    (newPagemap s.kernel page s.tables).map fun (t, top) =>
      { s with tables := t, pagemaps := top :: s.pagemaps }
  | .onPage top virt call =>
    if top ∈ s.pagemaps ∧ call.Fits then
      (call.run top virt s.tables).map fun (t, ok) =>
        { s with tables := t, log := ⟨top, virt, call, ok⟩ :: s.log }
    else none

/-- The kernel's pagemap as `vmm_init` has it before it maps pages. -/
def Initial (s : State) : Prop :=
  (∃ memory page pages, vmmInit page pages ⟨memory, []⟩ = some (s.tables, s.kernel)) ∧
    s.pagemaps = [s.kernel] ∧ s.log = []

def system : System State Event where
  init := Initial
  step := step

end Cottage.Paging
