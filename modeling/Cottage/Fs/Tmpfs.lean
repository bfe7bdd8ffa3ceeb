import Cottage.Foundations.ByteString
import Cottage.Mem.HeapArrays

/-!
# Files of the tmpfs

`tmpfs_resource_read` and `tmpfs_resource_write` on a regular file that
`tmpfs_create_node` has made, with its contents in a block of the heap.  The
contents are a byte string; behind it the block holds zeros up to its end, as
new blocks do, and so a write behind the end of the file leaves zeros in the
gap.

Data that is written or read is a list of bytes in place of the buffer of the
caller.
-/

namespace Cottage.Tmpfs

open ByteMemory ByteString Malloc Mem Transition

structure Resource where
  storage : ℕ
  capacity : ℕ
  size : ℕ
  blocks : ℕ
  blockSize : ℕ
  deriving DecidableEq, Repr

structure State where
  heap : Malloc.State
  file : Resource

/-- `tmpfs_create_node` for a regular file; `page` is what the page allocator
returns. -/
def createFile (page : ℕ) (heap : Malloc.State) : Option State :=
  (malloc 4096 page heap.heap).map fun (h, storage) =>
    ⟨⟨h, ⟨storage, 4096, isBig 4096⟩ :: heap.live⟩, ⟨storage, 4096, 0, 0, 512⟩⟩

/-- The loop `while (loc + count > new_capacity)`; without a result it does not
end. -/
def growCapacity (wanted : ℕ) : ℕ → ℕ → Option ℕ
  | 0, _ => none
  | fuel + 1, newCapacity =>
    if wanted > newCapacity then growCapacity wanted fuel (newCapacity * 2 % 2 ^ 64)
    else some newCapacity

/-- The part of `tmpfs_resource_write` that gets a larger block, with whether it
did. -/
def ensureCapacity (s : State) (wanted page : ℕ) : Option (State × Bool) :=
  if wanted > s.file.capacity then do
    let newCapacity ← growCapacity wanted 64 s.file.capacity
    let (h, newStorage) ← realloc s.file.storage newCapacity page s.heap.heap
    if newStorage = 0 then some ({ s with heap := { s.heap with heap := h } }, false)
    else
      some (⟨s.heap.reallocated s.file.storage newCapacity (h, newStorage),
        { s.file with storage := newStorage, capacity := newCapacity }⟩, true)
  else some (s, true)

def storeData (s : State) (loc : ℕ) (data : List UInt8) : State :=
  let count := data.length
  let memory := storeBytes s.heap.heap.memory (s.file.storage + loc) data
  { heap := { s.heap with heap := { s.heap.heap with memory := memory } }
    file :=
      if (loc + count) % 2 ^ 64 > s.file.size then
        { s.file with
          size := (loc + count) % 2 ^ 64
          blocks := divRoundup ((loc + count) % 2 ^ 64) s.file.blockSize }
      else s.file }

def tmpfsResourceWrite (s : State) (loc : ℕ) (data : List UInt8) (page : ℕ) :
    Option (State × ℕ) :=
  (ensureCapacity s ((loc + data.length) % 2 ^ 64) page).map fun (s, grown) =>
    (if grown then storeData s loc data else s, data.length)

def tmpfsResourceRead (s : State) (loc count : ℕ) : ℕ × List UInt8 :=
  let actualCount :=
    if (loc + count) % 2 ^ 64 > s.file.size then
      (count + (2 ^ 64 - ((loc + count) % 2 ^ 64 - s.file.size))) % 2 ^ 64
    else count
  (actualCount, (List.range actualCount).map fun i =>
    s.heap.heap.memory (s.file.storage + loc + i))

inductive Event
  | write (loc : ℕ) (data : List UInt8) (page : ℕ)
  | other (e : Malloc.Event)
  deriving DecidableEq, Repr

def step (s : State) : Event → Option State
  | .write loc data page =>
    if loc + data.length ≤ 2 ^ 62 then (tmpfsResourceWrite s loc data page).map (·.1) else none
  | .other e =>
    if e.target = s.file.storage then none
    else (Malloc.step s.heap e).map fun heap => { s with heap := heap }

def system : System State Event where
  init s := ∃ heap page, Malloc.system.Reachable heap ∧ createFile page heap = some s
  step := step

def applyEvent (content : List UInt8) : Event → List UInt8
  | .write loc data _ => overwrite content loc data
  | .other _ => content

variable {k wanted page loc : ℕ} {heap : Malloc.State} {data : List UInt8}

lemma double_mod (hk : k < 51) : 4096 * 2 ^ k * 2 % 2 ^ 64 = 4096 * 2 ^ (k + 1) := by
  have hpow : 2 ^ (k + 1) ≤ 2 ^ 51 := Nat.pow_le_pow_right (by decide) hk
  rw [Nat.mul_assoc, ← pow_succ]
  omega

lemma growCapacity_eq {b : ℕ} (fuel : ℕ) (hk : k ≤ b) (hb : b ≤ 51) (hfuel : b < k + fuel)
    (hwanted : wanted ≤ 4096 * 2 ^ b) :
    ∃ j, growCapacity wanted fuel (4096 * 2 ^ k) = some (4096 * 2 ^ j) ∧ k ≤ j ∧ j ≤ b ∧
      wanted ≤ 4096 * 2 ^ j := by
  induction fuel generalizing k with
  | zero => omega
  | succ fuel ih =>
    rw [growCapacity]
    split_ifs with hgrow
    · have hlt : k < b := by
        by_contra hge
        obtain rfl : k = b := by omega
        omega
      rw [double_mod (by omega)]
      obtain ⟨j, heq, hle, hj⟩ := ih (k := k + 1) hlt (by omega)
      exact ⟨j, heq, by omega, hj⟩
    · exact ⟨k, rfl, le_rfl, hk, by omega⟩

/-- The block has the bytes `image`, which are zero behind its end. -/
structure Stored (s : State) (image : ℕ → UInt8) : Prop where
  inv : Inv s.heap.heap s.heap.live
  block : ⟨s.file.storage, s.file.capacity, true⟩ ∈ s.heap.live
  capacity_eq : ∃ k ≤ 50, s.file.capacity = 4096 * 2 ^ k
  bytes : ∀ i < s.file.capacity, s.heap.heap.memory (s.file.storage + i) = image i
  zero : ∀ i, s.file.capacity ≤ i → image i = 0

variable {s s' : State} {image : ℕ → UInt8}

lemma Stored.covers (h : Stored s image) {i : ℕ} (hi : i < s.file.capacity) :
    Covers s.heap.heap.slabPages ⟨s.file.storage, s.file.capacity, true⟩ (s.file.storage + i) :=
  h.inv.layout.covers_of_lt h.block (Nat.le_add_right _ _) (Nat.add_lt_add_left hi _)

lemma stored_of_createFile (hheap : Malloc.system.Reachable heap)
    (hcreate : createFile page heap = some s) : Stored s fun _ => 0 := by
  obtain ⟨⟨h, storage⟩, hmalloc, rfl⟩ := Option.map_eq_some_iff.mp hcreate
  have hallocated := (inv_of_reachable hheap).allocated_malloc (by decide) hmalloc
  refine ⟨hallocated.inv, .head _, ⟨0, by decide, rfl⟩, fun i hi => ?_, fun _ _ => rfl⟩
  apply hallocated.zero
  exact hallocated.inv.layout.covers_of_lt (.head _) (Nat.le_add_right _ _)
    (Nat.add_lt_add_left hi _)

lemma Stored.other (h : Stored s image) {e : Malloc.Event} (hne : e.target ≠ s.file.storage)
    (hstep : Malloc.step s.heap e = some heap) : Stored { s with heap := heap } image := by
  obtain ⟨hlive, _, hkeep⟩ := h.inv.keeps_step hstep
  have hblock := mem_without.mpr ⟨h.block, hne.symm⟩
  refine ⟨h.inv.step hstep, hlive hblock, h.capacity_eq, fun i hi => ?_, h.zero⟩
  rw [← h.bytes i hi]
  exact hkeep _ hblock _ (h.covers hi)

lemma isBig_capacity (hk : k ≤ 50) : isBig (4096 * 2 ^ k) = true := by
  have hlo : 2 ^ 0 ≤ 2 ^ k := Nat.pow_le_pow_right (by decide) (Nat.zero_le k)
  have hhi : 2 ^ k ≤ 2 ^ 50 := Nat.pow_le_pow_right (by decide) hk
  rw [isBig, Option.isNone_iff_eq_none, findSlab, List.find?_eq_none]
  intro i hi
  have hsize : ∀ i < slabCount, entSize i ≤ 1024 := by decide
  have hle := hsize i (List.mem_range.mp hi)
  rw [decide_eq_true_iff]
  omega

lemma Stored.reallocated (h : Stored s image) {j newStorage : ℕ} {heap : Heap} (hj : j ≤ 50)
    (hge : s.file.capacity ≤ 4096 * 2 ^ j)
    (hcall : realloc s.file.storage (4096 * 2 ^ j) page s.heap.heap = some (heap, newStorage)) :
    newStorage ≠ 0 ∧
      Stored ⟨s.heap.reallocated s.file.storage (4096 * 2 ^ j) (heap, newStorage),
        { s.file with storage := newStorage, capacity := 4096 * 2 ^ j }⟩ image := by
  have hhi : 2 ^ j ≤ 2 ^ 50 := Nat.pow_le_pow_right (by decide) hj
  have hle : 4096 * 2 ^ j ≤ 2 ^ 63 := by omega
  have hI' := h.inv.reallocated (.inr ⟨_, h.block, rfl⟩) hle hcall
  have hbig := hcall
  rw [realloc, if_neg (h.inv.ptr_ne_zero h.block), if_pos (h.inv.big_page h.block rfl).2] at hbig
  rcases h.inv.bigRealloc_cases h.block rfl hle hbig with ⟨hsame, hpages, hheap⟩ | ⟨h₁, hmoved⟩
  · have hcapacity : s.file.capacity = 4096 * 2 ^ j := by
      obtain ⟨k, hk, hcapacity⟩ := h.capacity_eq
      simp only [Block.pages] at hpages
      rw [divRoundup_eq hle, divRoundup_eq (by omega)] at hpages
      omega
    subst hsame hheap
    have hany : (s.heap.live.any fun b => b.ptr = s.file.storage && b.big) = true :=
      List.any_eq_true.mpr ⟨_, h.block, by simp⟩
    have hlive : (⟨s.file.storage, 4096 * 2 ^ j, true⟩ : Block) ∈
        (s.heap.reallocated s.file.storage (4096 * 2 ^ j)
          ({ s.heap.heap with
            memory := write64 s.heap.heap.memory (s.file.storage - pageSize + 8) (4096 * 2 ^ j) },
            s.file.storage)).live := by
      simp only [State.reallocated, if_true, hany]
      exact .head _
    refine ⟨h.inv.ptr_ne_zero h.block, hI', hlive, ⟨j, hj, rfl⟩, fun i hi => ?_,
      fun i hi => h.zero i (hcapacity ▸ hi)⟩
    rw [← h.bytes i (hcapacity ▸ hi)]
    obtain ⟨hne, hoffset⟩ := h.inv.big_page h.block rfl
    rw [pageOffset_eq] at hoffset
    apply write64_apply_of_outside
    simp only [pageSize] at *
    omega
  · have hne := hmoved.ptr_ne h.inv h.block hle
    have hlive : (⟨newStorage, 4096 * 2 ^ j, true⟩ : Block) ∈
        (s.heap.reallocated s.file.storage (4096 * 2 ^ j) (heap, newStorage)).live := by
      simp only [State.reallocated, if_neg hne.symm, isBig_capacity hj]
      exact .head _
    refine ⟨hI'.ptr_ne_zero hlive, hI', hlive, ⟨j, hj, rfl⟩, fun i hi => ?_,
      fun i hi => h.zero i (hge.trans hi)⟩
    by_cases hold : i < s.file.capacity
    · rw [← h.bytes i hold]
      exact hmoved.copied h.inv h.block hle (lt_min hold (hold.trans_le hge))
    · rw [h.zero i (Nat.le_of_not_lt hold)]
      apply hmoved.zero h.inv h.block hle
      · apply (h.inv.malloc hle hmoved.malloc_eq).layout.covers_of_lt (.head _)
        · exact Nat.le_add_right _ _
        · exact Nat.add_lt_add_left hi _
      · have hcopied : min s.file.capacity (4096 * 2 ^ j) ≤ i := by omega
        exact Nat.add_le_add_left hcopied _

lemma Stored.ensureCapacity (h : Stored s image) {grown : Bool} (hwanted : wanted ≤ 2 ^ 62)
    (hcall : ensureCapacity s wanted page = some (s', grown)) :
    grown = true ∧ Stored s' image ∧ wanted ≤ s'.file.capacity ∧
      ∃ storage capacity,
        s'.file = { s.file with storage := storage, capacity := capacity } ∧
          s.file.capacity ≤ capacity := by
  rw [Tmpfs.ensureCapacity] at hcall
  split_ifs at hcall with hgrow
  · obtain ⟨k, hk, hcapacity⟩ := h.capacity_eq
    obtain ⟨j, hloop, hkj, hj, hle⟩ := growCapacity_eq 64 hk (by decide) (by omega) hwanted
    have hge : s.file.capacity ≤ 4096 * 2 ^ j := by omega
    rw [hcapacity, hloop, Option.bind_eq_bind, Option.bind_some] at hcall
    obtain ⟨⟨heap, newStorage⟩, hrealloc, hrest⟩ := Option.bind_eq_some_iff.mp hcall
    obtain ⟨hne, hmoved⟩ := h.reallocated hj hge hrealloc
    dsimp only at hrest
    rw [if_neg hne] at hrest
    cases hrest
    exact ⟨rfl, hmoved, hle, _, _, rfl, hge⟩
  · cases hcall
    exact ⟨rfl, h, by omega, _, _, rfl, le_rfl⟩

lemma storeData_file (s : State) (loc : ℕ) (data : List UInt8) (hlt : loc + data.length ≤ 2 ^ 62) :
    (storeData s loc data).file.storage = s.file.storage ∧
      (storeData s loc data).file.capacity = s.file.capacity ∧
      (storeData s loc data).file.blockSize = s.file.blockSize ∧
      (storeData s loc data).file.size = max s.file.size (loc + data.length) := by
  have hmod : (loc + data.length) % 2 ^ 64 = loc + data.length := Nat.mod_eq_of_lt (by omega)
  simp only [storeData, hmod]
  split_ifs with hgrow
  · exact ⟨rfl, rfl, rfl, (max_eq_right hgrow.le).symm⟩
  · exact ⟨rfl, rfl, rfl, (max_eq_left (Nat.le_of_not_lt hgrow)).symm⟩

lemma Stored.storeData (h : Stored s image) (hle : loc + data.length ≤ s.file.capacity)
    (hlt : loc + data.length ≤ 2 ^ 62) :
    Stored (storeData s loc data) fun i =>
      if loc ≤ i ∧ i < loc + data.length then data.getD (i - loc) 0 else image i := by
  obtain ⟨hstorage, hcapacity, _, _⟩ := storeData_file s loc data hlt
  refine ⟨?_, ?_, ?_, ?_, ?_⟩
  · apply h.inv.write_block h.block (agreeOutside_storeBytes _ _ data)
    intro x hlo hhi
    have hcovers := h.covers (i := x - s.file.storage) (by omega)
    rwa [Nat.add_sub_cancel' (by omega)] at hcovers
  · rw [hstorage, hcapacity]
    exact h.block
  · rw [hcapacity]
    exact h.capacity_eq
  · intro i hi
    rw [hcapacity] at hi
    rw [hstorage, ← h.bytes i hi]
    refine (storeBytes_apply ..).trans ?_
    by_cases hin : loc ≤ i ∧ i < loc + data.length
    · have hsub : s.file.storage + i - (s.file.storage + loc) = i - loc := by omega
      rw [if_pos (by omega), if_pos hin, hsub]
    · rw [if_neg (by omega), if_neg hin]
  · intro i hi
    rw [hcapacity] at hi
    rw [if_neg (by omega), h.zero i hi]

structure Holds (s : State) (content : List UInt8) : Prop where
  inv : Inv s.heap.heap s.heap.live
  block : ⟨s.file.storage, s.file.capacity, true⟩ ∈ s.heap.live
  capacity_eq : ∃ k ≤ 50, s.file.capacity = 4096 * 2 ^ k
  bytes : ∀ i < s.file.capacity, s.heap.heap.memory (s.file.storage + i) = content.getD i 0
  size_eq : s.file.size = content.length
  size_le : s.file.size ≤ s.file.capacity
  blockSize_eq : s.file.blockSize = 512
  blocks_eq : s.file.blocks = (s.file.size + 511) / 512

variable {content : List UInt8}

lemma Holds.stored (h : Holds s content) : Stored s fun i => content.getD i 0 where
  inv := h.inv
  block := h.block
  capacity_eq := h.capacity_eq
  bytes := h.bytes
  zero _ hi := List.getD_eq_default _ _ (h.size_eq ▸ h.size_le.trans hi)

lemma holds_of_createFile (hheap : Malloc.system.Reachable heap)
    (hcreate : createFile page heap = some s) : Holds s [] := by
  have hstored := stored_of_createFile hheap hcreate
  obtain ⟨⟨h, storage⟩, hmalloc, rfl⟩ := Option.map_eq_some_iff.mp hcreate
  exact ⟨hstored.inv, hstored.block, hstored.capacity_eq, hstored.bytes, rfl, Nat.zero_le _, rfl,
    (Nat.div_eq_of_lt (by decide : 0 + 511 < 512)).symm⟩

section

variable (h : Holds s content)

include h

lemma Holds.other {e : Malloc.Event} (hne : e.target ≠ s.file.storage)
    (hstep : Malloc.step s.heap e = some heap) : Holds { s with heap := heap } content := by
  have hstored := h.stored.other hne hstep
  exact ⟨hstored.inv, hstored.block, h.capacity_eq, hstored.bytes, h.size_eq, h.size_le,
    h.blockSize_eq, h.blocks_eq⟩

lemma Holds.ensureCapacity {grown : Bool} (hwanted : wanted ≤ 2 ^ 62)
    (hcall : ensureCapacity s wanted page = some (s', grown)) :
    grown = true ∧ Holds s' content ∧ wanted ≤ s'.file.capacity := by
  obtain ⟨hgrown, hstored, hroom, storage, capacity, hfile, hge⟩ :=
    h.stored.ensureCapacity hwanted hcall
  refine ⟨hgrown, ⟨hstored.inv, hstored.block, hstored.capacity_eq, hstored.bytes, ?_, ?_, ?_, ?_⟩,
    hroom⟩
  · rw [hfile]
    exact h.size_eq
  · rw [hfile]
    exact h.size_le.trans hge
  · rw [hfile]
    exact h.blockSize_eq
  · rw [hfile]
    exact h.blocks_eq

lemma Holds.storeData (hle : loc + data.length ≤ s.file.capacity)
    (hlt : loc + data.length ≤ 2 ^ 62) :
    Holds (storeData s loc data) (overwrite content loc data) := by
  have hmod : (loc + data.length) % 2 ^ 64 = loc + data.length := Nat.mod_eq_of_lt (by omega)
  obtain ⟨_, hcapacity, hblockSize, hsize⟩ := storeData_file s loc data hlt
  have hstored := h.stored.storeData hle hlt
  refine ⟨hstored.inv, hstored.block, hstored.capacity_eq, fun i hi => ?_, ?_, ?_, ?_, ?_⟩
  · rw [hstored.bytes i hi, getD_overwrite]
  · rw [hsize, length_overwrite, h.size_eq]
  · rw [hsize, hcapacity]
    exact max_le h.size_le hle
  · rw [hblockSize, h.blockSize_eq]
  · rw [hsize]
    simp only [Tmpfs.storeData, hmod]
    split_ifs with hgrow
    · dsimp only
      rw [h.blockSize_eq, divRoundup, max_eq_right hgrow.le, Nat.mod_eq_of_lt (by omega)]
    · rw [max_eq_left (by omega), h.blocks_eq]

lemma Holds.write {ret : ℕ} (hle : loc + data.length ≤ 2 ^ 62)
    (hcall : tmpfsResourceWrite s loc data page = some (s', ret)) :
    Holds s' (overwrite content loc data) := by
  have hmod : (loc + data.length) % 2 ^ 64 = loc + data.length := Nat.mod_eq_of_lt (by omega)
  obtain ⟨⟨s₁, grown⟩, hensure, heq⟩ := Option.map_eq_some_iff.mp hcall
  rw [hmod] at hensure
  obtain ⟨rfl, h₁, hroom⟩ := h.ensureCapacity hle hensure
  cases heq
  exact h₁.storeData hroom hle

lemma Holds.step {e : Event} (hstep : step s e = some s') : Holds s' (applyEvent content e) := by
  cases e with
  | write loc data page =>
    simp only [Tmpfs.step, Option.ite_none_right_eq_some, Option.map_eq_some_iff] at hstep
    obtain ⟨hle, ⟨s₁, ret⟩, hwrite, rfl⟩ := hstep
    exact h.write hle hwrite
  | other e =>
    simp only [Tmpfs.step] at hstep
    split_ifs at hstep with htarget
    obtain ⟨heap, hheap, rfl⟩ := Option.map_eq_some_iff.mp hstep
    exact h.other htarget hheap

lemma Holds.run {xs : List Event} (hrun : system.run s xs = some s') :
    Holds s' (xs.foldl applyEvent content) := by
  induction xs generalizing s content with
  | nil =>
    cases hrun
    exact h
  | cons e xs ih =>
    obtain ⟨s₁, hstep, hrest⟩ := Option.bind_eq_some_iff.mp hrun
    exact ih (h.step hstep) hrest

end

/-! ## The byte string -/

/-- The file is the byte string `content`: reads return its bytes, and writes
return unless the allocation of a larger block fails. -/
structure Represents (s : State) (content : List UInt8) : Prop where
  size_eq : s.file.size = content.length
  size_le : s.file.size ≤ s.file.capacity
  capacity_eq : ∃ k, s.file.capacity = 4096 * 2 ^ k
  blocks_eq : s.file.blocks = (s.file.size + 511) / 512
  read_eq : ∀ loc count, loc ≤ s.file.size → loc + count ≤ 2 ^ 62 →
    tmpfsResourceRead s loc count =
      (min count (content.length - loc), (content.drop loc).take count)
  write_isSome : ∀ loc data page, loc + data.length ≤ 2 ^ 62 →
    (∃ s', tmpfsResourceWrite s loc data page = some (s', data.length)) ∨
      ∃ k, s.file.capacity < loc + data.length ∧ loc + data.length ≤ 4096 * 2 ^ k ∧
        realloc s.file.storage (4096 * 2 ^ k) page s.heap.heap = none

lemma Holds.read (h : Holds s content) {count : ℕ} (hloc : loc ≤ s.file.size)
    (hle : loc + count ≤ 2 ^ 62) :
    tmpfsResourceRead s loc count =
      (min count (content.length - loc), (content.drop loc).take count) := by
  have hmod : (loc + count) % 2 ^ 64 = loc + count := Nat.mod_eq_of_lt (by omega)
  have hsize := h.size_eq
  have hcapacity := h.size_le
  have hactual : (if (loc + count) % 2 ^ 64 > s.file.size then
      (count + (2 ^ 64 - ((loc + count) % 2 ^ 64 - s.file.size))) % 2 ^ 64 else count) =
        min count (content.length - loc) := by
    rw [hmod]
    split_ifs <;> omega
  have hbytes : ((List.range (min count (content.length - loc))).map fun i =>
      s.heap.heap.memory (s.file.storage + loc + i)) = (content.drop loc).take count := by
    have hlen : loc + min count (content.length - loc) ≤ content.length := by omega
    have htake : (content.drop loc).take count =
        (content.drop loc).take (min count (content.length - loc)) := by
      rw [← List.length_drop, List.take_eq_take_min]
    rw [htake, ← map_range_getD content hlen]
    apply List.map_congr_left
    intro i hi
    have hi := List.mem_range.mp hi
    rw [Nat.add_assoc]
    exact h.bytes (loc + i) (by omega)
  simp only [tmpfsResourceRead, hactual]
  exact congrArg _ hbytes

lemma Holds.write_isSome (h : Holds s content) (page : ℕ) (hle : loc + data.length ≤ 2 ^ 62) :
    (∃ s', tmpfsResourceWrite s loc data page = some (s', data.length)) ∨
      ∃ k, s.file.capacity < loc + data.length ∧ loc + data.length ≤ 4096 * 2 ^ k ∧
        realloc s.file.storage (4096 * 2 ^ k) page s.heap.heap = none := by
  have hmod : (loc + data.length) % 2 ^ 64 = loc + data.length := Nat.mod_eq_of_lt (by omega)
  simp only [tmpfsResourceWrite, hmod, Tmpfs.ensureCapacity]
  by_cases hgrow : loc + data.length > s.file.capacity
  · obtain ⟨k, hk, hcapacity⟩ := h.capacity_eq
    obtain ⟨j, hloop, hkj, hj, hroom⟩ := growCapacity_eq 64 hk (by decide) (by omega) hle
    rw [if_pos hgrow, hcapacity, hloop, Option.bind_eq_bind, Option.bind_some]
    cases hrealloc : realloc s.file.storage (4096 * 2 ^ j) page s.heap.heap with
    | none => exact .inr ⟨j, hcapacity ▸ hgrow, hroom, hrealloc⟩
    | some result =>
      obtain ⟨hne, _⟩ := h.stored.reallocated hj (by omega) hrealloc
      simp only [Option.bind_eq_bind, Option.bind_some, if_neg hne, Option.map_some]
      exact .inl ⟨_, rfl⟩
  · rw [if_neg hgrow]
    exact .inl ⟨_, rfl⟩

/-- After any sequence of calls the file is the byte string that the writes make
of the empty one. -/
theorem file_contents {s₀ s : State} {xs : List Event} (hinit : system.init s₀)
    (hrun : system.run s₀ xs = some s) : Represents s (xs.foldl applyEvent []) := by
  obtain ⟨heap, page, hheap, hcreate⟩ := hinit
  have h := (holds_of_createFile hheap hcreate).run hrun
  obtain ⟨k, _, hcapacity⟩ := h.capacity_eq
  exact ⟨h.size_eq, h.size_le, ⟨k, hcapacity⟩, h.blocks_eq, fun _ _ => h.read,
    fun _ _ page => h.write_isSome page⟩

lemma exists_reachable_of_run_any {σ ι : Type} {S : System σ ι} {f : State → σ}
    (hinit : ∀ s, system.init s → S.init (f s)) (events : List ι) (p : σ → Bool)
    (hany : bootHeap.any (fun heap => (createFile 0xC000 ⟨heap, []⟩).any fun s =>
      (S.run (f s) events).any p) = true) : ∃ t, S.Reachable t ∧ p t = true := by
  obtain ⟨heap, hheap, hany⟩ := exists_initial_of_bootHeap_any _ hany
  obtain ⟨s, hcreate, hrun⟩ := (Option.any_eq_true _ _).mp hany
  have hreach : S.Reachable (f s) := .init (hinit s ⟨_, 0xC000, .init hheap, hcreate⟩)
  exact hreach.exists_of_run_any _ _ hrun

theorem file_contents_gap :
    ∃ s₀ s, system.init s₀ ∧
      system.run s₀ [.write 1 [0x61] 0, .write 5000 [0x62, 0x63] 0x10000] = some s ∧
        Represents s (overwrite [0, 0x61] 5000 [0x62, 0x63]) := by
  obtain ⟨heap, hheap, hany⟩ := exists_initial_of_bootHeap_any (fun heap =>
    (createFile 0xC000 ⟨heap, []⟩).any fun s : State =>
      (system.run s [.write 1 [0x61] 0, .write 5000 [0x62, 0x63] 0x10000]).isSome)
    (by decide +kernel)
  obtain ⟨s₀, hcreate, hrun⟩ := (Option.any_eq_true _ _).mp hany
  obtain ⟨s, hrun⟩ := Option.isSome_iff_exists.mp hrun
  have hinit : system.init s₀ := ⟨⟨heap, []⟩, 0xC000, .init hheap, hcreate⟩
  have hfirst : overwrite [] 1 [0x61] = [0, 0x61] := by decide
  have hrepresents := file_contents hinit hrun
  simp only [List.foldl_cons, List.foldl_nil, applyEvent, hfirst] at hrepresents
  exact ⟨s₀, s, hinit, hrun, hrepresents⟩

end Cottage.Tmpfs
