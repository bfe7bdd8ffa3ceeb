import Cottage.Foundations.Records
import Cottage.Mem.PageSpaces

/-!
# Mapped ranges

`mmap.c`: the ranges of a pagemap, and `mmap_map_range` and `munmap` on them.
A range has a local record, which belongs to one pagemap, and a global one,
which may be shared and holds a shadow pagemap and the list of its local
records.

The answers of the page allocator are arguments, one for each place at which a
page may be needed.  A computation does not return when it follows a null
pointer, panics, or is given a page that the allocator cannot return.  The
memory of a record is not used again after `free`, so the record stays as it
was; pages that are freed are recorded.  Addresses are natural numbers below `2
^ 64`, and sums of them wrap; the cursors that run over pages of a range do
not, as no range reaches the last page of the address space.
-/

namespace Cottage.Mmap

open ByteMemory Mem Paging

inductive Halt
  | fault
  | panic
  | noPage
  deriving DecidableEq

/-- `mmap_range_local_t` -/
structure LocalRange where
  pagemap : ℕ
  global : ℕ
  base : ℕ
  length : ℕ
  offset : ℤ
  prot : ℕ
  flags : ℕ
  deriving DecidableEq

/-- `mmap_range_global_t`, with the top level of its shadow pagemap. -/
structure GlobalRange where
  shadowPagemap : ℕ
  locals : List ℕ
  resource : Option ℕ
  base : ℕ
  length : ℕ
  offset : ℤ
  deriving DecidableEq

/-- `pagemap_t` -/
structure PagemapRecord where
  topLevel : ℕ
  mmapRanges : List ℕ
  deriving DecidableEq

/-- The kernel's top level table is `kernel`; `freed` holds the pages that were
given back to the page allocator, the latest first. -/
structure Machine where
  tables : Tables
  kernel : ℕ
  pagemaps : Records PagemapRecord
  locals : Records LocalRange
  globals : Records GlobalRange
  refcount : ℕ → ℕ
  freed : List ℕ
  errno : ℕ

def mmapProtWrite : ℕ := 0x02
def mmapMapAnon : ℕ := 0x08

def pteFlagPresent : ℕ := 0x01
def pteFlagWritable : ℕ := 0x02
def pteFlagUser : ℕ := 0x04

def einval : ℕ := 22

def LocalRange.stop (r : LocalRange) : ℕ :=
  (r.base + r.length) % 2 ^ 64

def LocalRange.Covers (r : LocalRange) (addr : ℕ) : Prop :=
  r.base ≤ addr ∧ addr < r.stop

instance (r : LocalRange) : DecidablePred r.Covers :=
  fun _ => inferInstanceAs (Decidable (_ ∧ _))

def answered {α : Type} (x : Option α) : Except Halt α :=
  x.elim (.error .noPage) .ok

def Machine.top (s : Machine) (pm : ℕ) : ℕ :=
  (s.pagemaps.get pm).topLevel

def Machine.ranges (s : Machine) (pm : ℕ) : List ℕ :=
  (s.pagemaps.get pm).mmapRanges

def Machine.setRanges (s : Machine) (pm : ℕ) (ranges : List ℕ) : Machine :=
  { s with pagemaps := s.pagemaps.set { s.pagemaps.get pm with mmapRanges := ranges } pm }

def Machine.setLocal (s : Machine) (ref : ℕ) (r : LocalRange) : Machine :=
  { s with locals := s.locals.set r ref }

def Machine.addPagemap (s : Machine) (t : Tables) (top : ℕ) : Machine :=
  { s with tables := t, pagemaps := s.pagemaps.alloc ⟨top, []⟩ }

/-! ## Mapping -/

def mapPageIn (top virt phys flags : ℕ) (pages : ℕ → ℕ+) (s : Machine) :
    Except Halt (Machine × Bool) :=
  (answered (mapPage top virt phys flags (fun level => pages level) s.tables)).map fun (t, ok) =>
    ({ s with tables := t }, ok)

/-- The loop of `mmap_map_page_in_range` over the local records. -/
def mapLocals (virt phys flags : ℕ) (pages : ℕ → ℕ → ℕ+) :
    List ℕ → ℕ → Machine → Except Halt (Machine × Bool)
  | [], _, s => .ok (s, true)
  | ref :: rest, i, s =>
    if ¬ (s.locals.get ref).Covers virt then mapLocals virt phys flags pages rest (i + 1) s
    else
      (mapPageIn (s.top (s.locals.get ref).pagemap) virt phys flags (pages i) s).bind
        fun (s, ok) =>
          if ok then mapLocals virt phys flags pages rest (i + 1) s else .ok (s, false)

def ptFlags (prot : ℕ) : ℕ :=
  let flags := pteFlagPresent ||| pteFlagUser
  if prot &&& mmapProtWrite ≠ 0 then flags ||| pteFlagWritable else flags

/-- The page is mapped in the shadow pagemap twice.  The answers of the page
allocator are numbered by the calls of `map_page`. -/
def mmapMapPageInRange (global virt phys prot : ℕ) (pages : ℕ → ℕ → ℕ+) (s : Machine) :
    Except Halt (Machine × Bool) :=
  let g := s.globals.get global
  let flags := ptFlags prot
  (mapPageIn g.shadowPagemap virt phys flags (pages 0) s).bind fun (s, ok) =>
    if !ok then .ok (s, false)
    else (mapPageIn g.shadowPagemap virt phys flags (pages 1) s).bind fun (s, ok) =>
      if !ok then .ok (s, false)
      else mapLocals virt phys flags (fun i => pages (i + 2)) g.locals 0 s

def pmmAllocIn (page : ℕ+) (s : Machine) : Except Halt (Machine × ℕ) :=
  (answered (Paging.pmmAlloc page s.tables)).map fun (t, page) => ({ s with tables := t }, page)

/-- `pmm_alloc` for several pages that lie one after the other; it finds none
when it is asked for no page, and panics. -/
def pmmAllocMany (page : ℕ+) (count : ℕ) (s : Machine) : Except Halt (Machine × ℕ) :=
  let new := (List.range count).map fun k => page + k * pageSize
  if count = 0 then .error .panic
  else if ∀ n ∈ new, FreshPage n s.tables then
    let m := memset s.tables.memory (page + higherHalf) 0 (count * pageSize)
    .ok ({ s with tables := ⟨m, new ++ s.tables.owned⟩ }, page)
  else .error .noPage

/-- The records that `mmap_map_range` creates, which point at each other. -/
def createRange (pm base length prot flags shadow : ℕ) (s : Machine) : Machine :=
  { s with
    locals := s.locals.alloc
      { pagemap := pm, global := s.globals.count, base := base, length := length, offset := 0,
        prot := prot, flags := flags }
    globals := s.globals.alloc
      { shadowPagemap := shadow, locals := [s.locals.count], resource := none, base := base,
        length := length, offset := 0 } }

/-- The loop of `mmap_map_range` over the pages, which goes on when a page
cannot be mapped. -/
def mapPages (global base phys prot : ℕ) (pages : ℕ → ℕ → ℕ → ℕ+) :
    List ℕ → Machine → Except Halt Machine
  | [], s => .ok s
  | k :: rest, s =>
    (mmapMapPageInRange global ((base + k * pageSize) % 2 ^ 64) ((phys + k * pageSize) % 2 ^ 64)
      prot (pages k) s).bind fun (s, _) => mapPages global base phys prot pages rest s

def alignDown (count alignment : ℕ) : ℕ :=
  count / alignment * alignment

/-- `shadow` is the top level of the shadow pagemap, and `pages` the answers of
the page allocator, numbered by pages, calls and levels. -/
def mmapMapRange (pm virt phys size prot flags : ℕ) (shadow : ℕ+) (pages : ℕ → ℕ → ℕ → ℕ+)
    (s : Machine) : Except Halt (Machine × Bool) :=
  let flags := flags ||| mmapMapAnon
  let base := alignDown virt pageSize
  let length := alignUp ((size + (base + 2 ^ 64 - virt)) % 2 ^ 64) pageSize
  (pmmAllocIn shadow s).bind fun (s, shadow) =>
    let global := s.globals.count
    let ranges := s.ranges pm ++ [s.locals.count]
    let s := (createRange pm base length prot flags shadow s).setRanges pm ranges
    (mapPages global base phys prot pages (List.range (length / pageSize)) s).map fun s => (s, true)

/-! ## Unmapping -/

def addr2range (pm addr : ℕ) (s : Machine) : Option ℕ :=
  (s.ranges pm).find? fun ref => (s.locals.get ref).Covers addr

/-- The inner loop of `munmap`, which moves the cursor to the end of what is
cut out of a range.  The distance to `stop` is enough fuel. -/
def snipEndLoop (stop regionEnd : ℕ) : ℕ → ℕ → ℕ
  | 0, i => i
  | fuel + 1, i =>
    if i < stop ∧ i < regionEnd then snipEndLoop stop regionEnd fuel (i + pageSize) else i

def snipEnd (stop regionEnd i : ℕ) : ℕ :=
  snipEndLoop stop regionEnd (stop - i) (i + pageSize)

def unmapPageIn (top virt : ℕ) (s : Machine) : Except Halt (Machine × Bool) :=
  (answered (unmapPage top virt s.tables)).map fun (t, ok) => ({ s with tables := t }, ok)

/-- The loop of `munmap` over the pages that are cut out. -/
def unmapPages (top : ℕ) : List ℕ → Machine → Except Halt Machine
  | [], s => .ok s
  | j :: rest, s => (unmapPageIn top j s).bind fun (s, _) => unmapPages top rest s

/-- `none` when the page is not present. -/
def virt2phys (top virt : ℕ) (s : Machine) : Except Halt (Option ℕ) :=
  (answered (virt2pte top virt false (fun _ => 0) s.tables)).bind fun (t, pte) =>
    if pte = 0 then .error .fault
    else if read64 t.memory pte &&& 1 = 0 then .ok none
    else .ok (some (pageBase (read64 t.memory pte)))

def pmmFree (page : ℕ) (s : Machine) : Machine :=
  { s with
    tables := { s.tables with owned := s.tables.owned.erase page }
    freed := page :: s.freed }

/-- The loop of `munmap` that gives frames back. -/
def freeFrames (top shadow : ℕ) : List ℕ → Machine → Except Halt (Machine × Bool)
  | [], s => .ok (s, true)
  | j :: rest, s =>
    (virt2phys top j s).bind fun phys =>
      match phys with
      | none => freeFrames top shadow rest s
      | some phys =>
        (unmapPageIn shadow j s).bind fun (s, ok) =>
          if !ok then .ok ({ s with errno := einval }, false)
          else freeFrames top shadow rest (pmmFree phys s)

def splitRange (pm ref snipEnd : ℕ) (s : Machine) : Machine :=
  let r := s.locals.get ref
  let postsplit : LocalRange :=
    { r with
      base := snipEnd
      length := (r.base + r.length + 2 ^ 64 - snipEnd) % 2 ^ 64
      offset := r.offset + (snipEnd - r.base : ℤ) }
  let ranges := s.ranges pm ++ [s.locals.count]
  let s := { s with locals := s.locals.alloc postsplit }
  (s.setRanges pm ranges).setLocal ref
    { r with length := (r.length + 2 ^ 64 - postsplit.length) % 2 ^ 64 }

def trimRange (ref snipBegin snipEnd : ℕ) (s : Machine) : Machine :=
  let r := s.locals.get ref
  let snipSize := snipEnd - snipBegin
  let r := if snipBegin = r.base then { r with offset := r.offset + snipSize, base := snipEnd }
    else r
  s.setLocal ref { r with length := (r.length + 2 ^ 64 - snipSize) % 2 ^ 64 }

/-- What follows after the pages are unmapped.  For a range that is gone the
last entry of the array is dropped. -/
def finishSnip (pm ref snipBegin snipEnd : ℕ) (s : Machine) : Except Halt (Machine × Bool) :=
  let r := s.locals.get ref
  let g := s.globals.get r.global
  if snipEnd - snipBegin = r.length then
    let s := s.setRanges pm (s.ranges pm).dropLast
    if g.locals.length = 1 then
      if r.flags &&& mmapMapAnon ≠ 0 then
        freeFrames (s.top pm) g.shadowPagemap
          ((List.range (divRoundup ((g.base + g.length) % 2 ^ 64) pageSize)).map (· * pageSize)) s
      else .ok (s, true)
    else .ok (trimRange ref snipBegin snipEnd s, true)
  else .ok (trimRange ref snipBegin snipEnd s, true)

/-- One round of the loop of `munmap` for a range that was found. -/
def snip (pm ref snipBegin snipEnd : ℕ) (s : Machine) : Except Halt (Machine × Bool) :=
  let r := s.locals.get ref
  let s := if r.base < snipBegin ∧ snipEnd < r.stop then splitRange pm ref snipEnd s else s
  let pages := (List.range ((snipEnd - snipBegin) / pageSize)).map fun k => snipBegin + k * pageSize
  (unmapPages (s.top pm) pages s).bind fun s => finishSnip pm ref snipBegin snipEnd s

/-- The loop of `munmap`.  Each round moves the cursor, so the length of the
region is enough fuel. -/
def munmapLoop (pm stop regionEnd : ℕ) : ℕ → ℕ → Machine → Except Halt (Machine × Bool)
  | 0, _, s => .ok (s, true)
  | fuel + 1, i, s =>
    if i < stop then
      match addr2range pm i s with
      | none => munmapLoop pm stop regionEnd fuel (i + 1) s
      | some ref =>
        let last := snipEnd (s.locals.get ref).stop regionEnd i
        (snip pm ref i last s).bind fun (s, ok) =>
          if ok then munmapLoop pm stop regionEnd fuel (last + 1) s else .ok (s, false)
    else .ok (s, true)

def munmap (pm addr length : ℕ) (s : Machine) : Except Halt (Machine × Bool) :=
  if length = 0 then .ok ({ s with errno := einval }, false)
  else
    let actualLength := alignUp length pageSize
    let stop := (addr + actualLength) % 2 ^ 64
    munmapLoop pm stop ((addr + length) % 2 ^ 64) (stop - addr) addr s

end Cottage.Mmap
