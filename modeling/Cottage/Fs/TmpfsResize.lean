import Cottage.Fs.Tmpfs

/-!
# Resizing files of the tmpfs, and reading at any place

`tmpfs_resource_grow` sets the size of a file to any value.  The block never
gets smaller, and what is in it behind the new end stays there: when the size
goes up again, by this call or by a write, the old bytes are part of the file.

`tmpfs_resource_read` computes how much it copies modulo 2^64.
-/

namespace Cottage.Tmpfs

open ByteMemory ByteString Malloc Mem Transition

def tmpfsResourceGrow (s : State) (size page : ℕ) : Option (State × Bool) := do
  let newCapacity ← growCapacity size 64 s.file.capacity
  let (h, newStorage) ← realloc s.file.storage newCapacity page s.heap.heap
  if newStorage = 0 then some ({ s with heap := { s.heap with heap := h } }, false)
  else
    some (⟨s.heap.reallocated s.file.storage newCapacity (h, newStorage),
      { s.file with
        storage := newStorage
        capacity := newCapacity
        size := size
        blocks := divRoundup size s.file.blockSize }⟩, true)

variable {s s' : State} {image : ℕ → UInt8}

variable {page loc count : ℕ}

lemma Stored.grow (h : Stored s image) {size : ℕ} {ok : Bool} (hsize : size ≤ 2 ^ 62)
    (hcall : tmpfsResourceGrow s size page = some (s', ok)) :
    Stored s' image ∧ s'.file.size = size ∧ size ≤ s'.file.capacity := by
  obtain ⟨k, hk, hcapacity⟩ := h.capacity_eq
  obtain ⟨j, hloop, hkj, hj, hle⟩ := growCapacity_eq 64 hk (by decide) (by omega) hsize
  have hge : s.file.capacity ≤ 4096 * 2 ^ j := by
    have hpow : 2 ^ k ≤ 2 ^ j := Nat.pow_le_pow_right (by decide) hkj
    omega
  rw [tmpfsResourceGrow, hcapacity, hloop, Option.bind_eq_bind, Option.bind_some] at hcall
  obtain ⟨⟨heap, newStorage⟩, hrealloc, hrest⟩ := Option.bind_eq_some_iff.mp hcall
  obtain ⟨hne, hmoved⟩ := h.reallocated hj hge hrealloc
  dsimp only at hrest
  rw [if_neg hne] at hrest
  cases hrest
  exact ⟨⟨hmoved.inv, hmoved.block, hmoved.capacity_eq, hmoved.bytes, hmoved.zero⟩, rfl, hle⟩

inductive ResizeEvent
  | write (loc : ℕ) (data : List UInt8) (page : ℕ)
  | grow (size page : ℕ)
  | other (e : Malloc.Event)
  deriving DecidableEq, Repr

def resizeStep (s : State) : ResizeEvent → Option State
  | .write loc data page => step s (.write loc data page)
  | .grow size page =>
    if size ≤ 2 ^ 62 then (tmpfsResourceGrow s size page).map (·.1) else none
  | .other e => step s (.other e)

/-- A file and its history: the places that have been behind its end since they
were written last. -/
structure Tracked where
  state : State
  unwritten : ℕ → Bool

def ResizeEvent.writes : ResizeEvent → ℕ → Bool
  | .write loc data _, x => decide (loc ≤ x ∧ x < loc + data.length)
  | _, _ => false

def Tracked.step (t : Tracked) (e : ResizeEvent) : Option Tracked :=
  (resizeStep t.state e).map fun s =>
    ⟨s, fun x => (t.unwritten x && !e.writes x) || decide (s.file.size ≤ x)⟩

def resizing : System Tracked ResizeEvent where
  init t := system.init t.state ∧ t.unwritten = fun _ => true
  step := Tracked.step

/-- A call that makes the file smaller cuts off zeros only. -/
def CutsZeros (t : Tracked) : ResizeEvent → Prop
  | .grow size _ => ∀ x < t.state.file.size, size ≤ x →
      t.state.heap.heap.memory (t.state.file.storage + x) = 0
  | _ => True

instance (t : Tracked) : (e : ResizeEvent) → Decidable (CutsZeros t e)
  | .grow size _ => inferInstanceAs (Decidable (∀ x < t.state.file.size, size ≤ x →
      t.state.heap.heap.memory (t.state.file.storage + x) = 0))
  | .write .. => .isTrue trivial
  | .other _ => .isTrue trivial

structure Clean (t : Tracked) (image : ℕ → UInt8) : Prop where
  stored : Stored t.state image
  size_le : t.state.file.size ≤ t.state.file.capacity
  behind : ∀ x, t.state.file.size ≤ x → t.unwritten x = true
  zero : ∀ x, t.unwritten x = true → image x = 0

variable {t t' : Tracked}

lemma clean_init (h : resizing.init t) : Clean t fun _ => 0 := by
  obtain ⟨⟨heap, page, hheap, hcreate⟩, hunwritten⟩ := h
  have hholds := holds_of_createFile hheap hcreate
  exact ⟨stored_of_createFile hheap hcreate, hholds.size_le, fun _ _ => congrFun hunwritten _,
    fun _ _ => rfl⟩

lemma Clean.next {image' : ℕ → UInt8} {e : ResizeEvent} (h : Clean t image)
    (hstored : Stored s' image') (hsize : s'.file.size ≤ s'.file.capacity)
    (hkeep : ∀ x, e.writes x = false → image' x = image x)
    (hbehind : ∀ x, s'.file.size ≤ x → image' x = 0) :
    Clean ⟨s', fun x => (t.unwritten x && !e.writes x) || decide (s'.file.size ≤ x)⟩ image' := by
  refine ⟨hstored, hsize, fun x hx => ?_, fun x hx => ?_⟩
  · dsimp only at hx ⊢
    rw [decide_eq_true hx, Bool.or_true]
  · rw [Bool.or_eq_true, Bool.and_eq_true, Bool.not_eq_true', decide_eq_true_iff] at hx
    rcases hx with ⟨hunwritten, hwrites⟩ | hx
    · rw [hkeep x hwrites]
      exact h.zero x hunwritten
    · exact hbehind x hx

lemma Clean.write {data : List UInt8} (h : Clean t image)
    (hstep : resizeStep t.state (.write loc data page) = some s') :
    ∃ image', Stored s' image' ∧ s'.file.size ≤ s'.file.capacity ∧
      (∀ x, (ResizeEvent.write loc data page).writes x = false → image' x = image x) ∧
      ∀ x, s'.file.size ≤ x → image' x = 0 := by
  simp only [resizeStep, Tmpfs.step, Option.ite_none_right_eq_some, Option.map_eq_some_iff] at hstep
  obtain ⟨hle, ⟨s₁, ret⟩, hwrite, rfl⟩ := hstep
  obtain ⟨⟨s₂, grown⟩, hensure, heq⟩ := Option.map_eq_some_iff.mp hwrite
  rw [Nat.mod_eq_of_lt (by omega)] at hensure
  obtain ⟨rfl, hstored, hroom, storage, capacity, hfile, hge⟩ :=
    h.stored.ensureCapacity hle hensure
  cases heq
  obtain ⟨_, hcapacity, _, hsize⟩ := storeData_file s₂ loc data hle
  have hsame : s₂.file.size = t.state.file.size := by rw [hfile]
  have hcap : s₂.file.capacity = capacity := by rw [hfile]
  have hsizeLe := h.size_le
  refine ⟨_, hstored.storeData hroom hle, ?_, fun x hx => ?_, fun x hx => ?_⟩
  · rw [if_pos rfl, hsize, hcapacity]
    omega
  · exact if_neg (of_decide_eq_false hx)
  · rw [if_pos rfl, hsize] at hx
    rw [if_neg (by omega)]
    exact h.zero x (h.behind x (by omega))

lemma Clean.grow {size : ℕ} (h : Clean t image) (hcut : CutsZeros t (.grow size page))
    (hstep : resizeStep t.state (.grow size page) = some s') :
    Stored s' image ∧ s'.file.size ≤ s'.file.capacity ∧ ∀ x, s'.file.size ≤ x → image x = 0 := by
  simp only [resizeStep, Option.ite_none_right_eq_some, Option.map_eq_some_iff] at hstep
  obtain ⟨hle, ⟨s₁, ok⟩, hgrow, rfl⟩ := hstep
  obtain ⟨hstored, hsize, hroom⟩ := h.stored.grow hle hgrow
  refine ⟨hstored, hsize ▸ hroom, fun x hx => ?_⟩
  by_cases hin : x < t.state.file.size
  · rw [← h.stored.bytes x (hin.trans_le h.size_le)]
    exact hcut x hin (hsize ▸ hx)
  · exact h.zero x (h.behind x (Nat.le_of_not_lt hin))

lemma Clean.step {e : ResizeEvent} (h : Clean t image) (hcut : CutsZeros t e)
    (hstep : resizing.step t e = some t') : ∃ image', Clean t' image' := by
  obtain ⟨s', hcall, rfl⟩ := Option.map_eq_some_iff.mp hstep
  cases e with
  | write loc data page =>
    obtain ⟨image', hstored, hsize, hkeep, hbehind⟩ := h.write hcall
    exact ⟨image', h.next hstored hsize hkeep hbehind⟩
  | grow size page =>
    obtain ⟨hstored, hsize, hbehind⟩ := h.grow hcut hcall
    exact ⟨image, h.next hstored hsize (fun _ _ => rfl) hbehind⟩
  | other e =>
    simp only [resizeStep, Tmpfs.step] at hcall
    split_ifs at hcall with htarget
    obtain ⟨heap, hheap, rfl⟩ := Option.map_eq_some_iff.mp hcall
    exact ⟨image, h.next (h.stored.other htarget hheap) h.size_le (fun _ _ => rfl)
      fun x hx => h.zero x (h.behind x hx)⟩

lemma clean_of_reachable (h : resizing.ReachableVia CutsZeros t) : ∃ image, Clean t image := by
  apply h.invariant
  · intro t hinit
    exact ⟨_, clean_init hinit⟩
  · rintro t e t' ⟨image, hclean⟩ hcut hstep
    exact hclean.step hcut hstep

lemma actualCount_eq (hsize : s.file.size < 2 ^ 64) (hloc : loc < 2 ^ 64) :
    (tmpfsResourceRead s loc count).1 =
      if (loc + count) % 2 ^ 64 > s.file.size then (s.file.size + (2 ^ 64 - loc)) % 2 ^ 64
      else count := by
  simp only [tmpfsResourceRead]
  split_ifs <;> omega

lemma getElem?_tmpfsResourceRead {i : ℕ} (hi : i < (tmpfsResourceRead s loc count).1) :
    (tmpfsResourceRead s loc count).2[i]? =
      some (s.heap.heap.memory (s.file.storage + loc + i)) := by
  simp only [tmpfsResourceRead] at hi ⊢
  rw [List.getElem?_map, List.getElem?_range hi, Option.map_some]

/-- Each place that has been behind the end of the file and has not been written
since is read as zero, by every call that reads it. -/
def NothingOld (t : Tracked) : Prop :=
  ∀ x loc count, t.unwritten x = true → x < t.state.file.size → loc ≤ x → x < loc + count →
    loc + count < 2 ^ 64 → (tmpfsResourceRead t.state loc count).2[x - loc]? = some 0

/-- If only zeros are cut off, a file that grows has zeros in its new part. -/
theorem nothingOld_of_cutsZeros (h : resizing.ReachableVia CutsZeros t) : NothingOld t := by
  obtain ⟨image, hclean⟩ := clean_of_reachable h
  intro x loc count hunwritten hx hlo hhi hlt
  obtain ⟨k, hk, hcapacity⟩ := hclean.stored.capacity_eq
  have hpow : 2 ^ k ≤ 2 ^ 50 := Nat.pow_le_pow_right (by decide) hk
  have hsize := hclean.size_le
  have hcount : x - loc < (tmpfsResourceRead t.state loc count).1 := by
    rw [actualCount_eq (by omega) (by omega), Nat.mod_eq_of_lt hlt]
    split_ifs <;> omega
  have haddress : t.state.file.storage + loc + (x - loc) = t.state.file.storage + x := by omega
  rw [getElem?_tmpfsResourceRead hcount, haddress, hclean.stored.bytes x (by omega),
    hclean.zero x hunwritten]

lemma resizing_init {s : State} (h : system.init s) : resizing.init ⟨s, fun _ => true⟩ :=
  ⟨h, rfl⟩

theorem nothingOld_of_cutsZeros_shrunk :
    ∃ t, resizing.ReachableVia CutsZeros t ∧ t.state.file.size = 7 ∧ t.unwritten 5 = true ∧
      NothingOld t := by
  obtain ⟨t, hreach, ht⟩ := exists_reachable_of_run_any (S := resizing.guard CutsZeros)
    (fun _ => resizing_init) [.write 0 [0x61] 0, .grow 6 0, .grow 4 0, .grow 7 0]
    (fun t => decide (t.state.file.size = 7 ∧ t.unwritten 5 = true)) (by decide +kernel)
  have hvia := System.reachableVia_of_guard hreach
  obtain ⟨hsize, hunwritten⟩ := of_decide_eq_true ht
  exact ⟨t, hvia, hsize, hunwritten, nothingOld_of_cutsZeros hvia⟩

theorem old_data_read :
    ∃ t, resizing.Reachable t ∧ t.unwritten 0 = true ∧ t.state.file.size = 1 ∧
      tmpfsResourceRead t.state 0 1 = (1, [0x61]) := by
  obtain ⟨t, hreach, ht⟩ := exists_reachable_of_run_any (S := resizing) (fun _ => resizing_init)
    [.write 0 [0x61] 0, .grow 0 0, .grow 1 0]
    (fun t => decide (t.unwritten 0 = true ∧ t.state.file.size = 1 ∧
      tmpfsResourceRead t.state 0 1 = (1, [0x61]))) (by decide +kernel)
  exact ⟨t, hreach, of_decide_eq_true ht⟩

/-! ## Reading at any place -/

def asInt64 (x : ℕ) : ℤ :=
  if x < 2 ^ 63 then x else x - 2 ^ 64

/-- The read returns how many bytes there are in the file from `loc` on, at most
`count`, and copies so many; its result depends on the bytes of the file only. -/
structure ReadsInside (s : State) (loc count : ℕ) : Prop where
  returned : asInt64 (tmpfsResourceRead s loc count).1 = (min count (s.file.size - loc) : ℕ)
  copied : (tmpfsResourceRead s loc count).2.length = min count (s.file.size - loc)
  reads_only : ∀ memory : Memory,
    (∀ i < s.file.size, memory (s.file.storage + i) = s.heap.heap.memory (s.file.storage + i)) →
    tmpfsResourceRead
      { s with heap := { s.heap with heap := { s.heap.heap with memory := memory } } } loc count =
      tmpfsResourceRead s loc count

lemma length_tmpfsResourceRead (s : State) (loc count : ℕ) :
    (tmpfsResourceRead s loc count).2.length = (tmpfsResourceRead s loc count).1 := by
  simp only [tmpfsResourceRead, List.length_map, List.length_range]

lemma reads_only_of_le {memory : Memory}
    (hle : loc + (tmpfsResourceRead s loc count).1 ≤ s.file.size)
    (hsame : ∀ i < s.file.size,
      memory (s.file.storage + i) = s.heap.heap.memory (s.file.storage + i)) :
    tmpfsResourceRead
      { s with heap := { s.heap with heap := { s.heap.heap with memory := memory } } } loc count =
      tmpfsResourceRead s loc count := by
  simp only [tmpfsResourceRead] at hle ⊢
  refine congrArg (Prod.mk _) (List.map_congr_left fun i hi => ?_)
  rw [Nat.add_assoc]
  exact hsame (loc + i) (by have hi := List.mem_range.mp hi; omega)

/-- Reads stay in the file if and only if they start in it or at its end, the
sum of place and count does not wrap round into the file, and the number of
bytes is one of the return type. -/
theorem readsInside_iff {loc count : ℕ} (hsize : s.file.size < 2 ^ 64) (hloc : loc < 2 ^ 64)
    (hcount : count < 2 ^ 64) :
    ReadsInside s loc count ↔
      loc ≤ s.file.size ∧ (loc + count < 2 ^ 64 ∨ s.file.size < loc + count - 2 ^ 64) ∧
        (count < 2 ^ 63 ∨ s.file.size - loc < 2 ^ 63) := by
  have hactual : (tmpfsResourceRead s loc count).1 = _ := actualCount_eq hsize hloc
  have hlength := length_tmpfsResourceRead s loc count
  generalize hn : (tmpfsResourceRead s loc count).1 = n at *
  constructor
  · intro h
    have hcopied := h.copied
    have hreturned := h.returned
    rw [hn, asInt64] at hreturned
    split_ifs at hactual hreturned <;> omega
  · rintro ⟨hle, hwrap, hfits⟩
    have hmin : n = min count (s.file.size - loc) := by
      split_ifs at hactual <;> omega
    refine ⟨?_, hlength.trans hmin, fun memory hsame => reads_only_of_le (by omega) hsame⟩
    rw [hn, asInt64, if_pos (by omega), hmin]

lemma exists_three_bytes : ∃ s, system.Reachable s ∧ s.file.size = 3 := by
  obtain ⟨s, hreach, hs⟩ := exists_reachable_of_run_any (S := system) (fun _ => id)
    [.write 0 [0x61, 0x62, 0x63] 0] (fun s => decide (s.file.size = 3)) (by decide +kernel)
  exact ⟨s, hreach, of_decide_eq_true hs⟩

theorem readsInside_iff_overEnd :
    ∃ s, system.Reachable s ∧ s.file.size = 3 ∧ ReadsInside s 1 10 := by
  obtain ⟨s, hreach, hsize⟩ := exists_three_bytes
  refine ⟨s, hreach, hsize, (readsInside_iff (by omega) (by decide) (by decide)).mpr ?_⟩
  omega

/-- A read of one byte two bytes behind the end returns −2 and copies 2^64 − 2
bytes. -/
theorem read_behind_end :
    ∃ s, system.Reachable s ∧ s.file.size = 3 ∧ asInt64 (tmpfsResourceRead s 5 1).1 = -2 ∧
      (tmpfsResourceRead s 5 1).2.length = 2 ^ 64 - 2 ∧ ¬ ReadsInside s 5 1 := by
  obtain ⟨s, hreach, hsize⟩ := exists_three_bytes
  have hactual : (tmpfsResourceRead s 5 1).1 = 2 ^ 64 - 2 := by
    rw [actualCount_eq (by omega) (by decide), hsize]
    rfl
  refine ⟨s, hreach, hsize, ?_, (length_tmpfsResourceRead s 5 1).trans hactual, fun h => ?_⟩
  · rw [hactual]
    rfl
  · have hcopied := h.copied
    rw [length_tmpfsResourceRead, hactual, hsize] at hcopied
    omega

end Cottage.Tmpfs
