import Cottage.Foundations.ByteMemory
import Cottage.Mem.Address
import Mathlib.Data.BitVec

/-!
# The physical page allocator

`pmm.c`: a bitmap with one bit a page, set for pages that are not free, and a
next-fit search that runs from a cursor to the end of memory and then from page
0 to where the cursor was.  A physical address is returned, and the null
pointer stands for failure, so page 0 cannot be handed out.

Both functions hold `pmm_lock` from beginning to end and are atomic.  The panic
of `pmm_alloc` is the result `none`.
-/

namespace Cottage.Mem

open ByteMemory Function

/-- The words of `pmm_bitmap`. -/
abbrev Bitmap := ℕ → BitVec 64

def bitmapTestbit (bitmap : Bitmap) (index : ℕ) : Bool :=
  ((bitmap (index / 64) >>> (index % 64)) &&& 1#64) != 0#64

def bitmapSetbit (bitmap : Bitmap) (index : ℕ) : Bitmap :=
  update bitmap (index / 64) (bitmap (index / 64) ||| (1#64 <<< (index % 64)))

def bitmapResetbit (bitmap : Bitmap) (index : ℕ) : Bitmap :=
  update bitmap (index / 64) (bitmap (index / 64) &&& ~~~(1#64 <<< (index % 64)))

lemma bitmapTestbit_eq_getLsbD (bitmap : Bitmap) (index : ℕ) :
    bitmapTestbit bitmap index = (bitmap (index / 64)).getLsbD (index % 64) := by
  have hbit : ∀ x : BitVec 64, (x &&& 1#64 != 0#64) = x.getLsbD 0 := by
    intro x
    rw [BitVec.and_one_eq_setWidth_ofBool_getLsbD]
    cases x.getLsbD 0 <;> rfl
  rw [bitmapTestbit, hbit, BitVec.getLsbD_ushiftRight, Nat.add_zero]

lemma bitmapTestbit_setbit (bitmap : Bitmap) (i j : ℕ) :
    bitmapTestbit (bitmapSetbit bitmap i) j = (decide (j = i) || bitmapTestbit bitmap j) := by
  rw [bitmapTestbit_eq_getLsbD, bitmapTestbit_eq_getLsbD, bitmapSetbit]
  by_cases hword : j / 64 = i / 64
  · have hbit : j % 64 = i % 64 ↔ j = i := by omega
    rw [hword, update_self, BitVec.getLsbD_or, ← BitVec.twoPow_eq]
    simp [Nat.mod_lt, ← hbit, eq_comm, Bool.or_comm]
  · have hne : j ≠ i := fun heq => hword (by rw [heq])
    rw [update_of_ne hword, decide_eq_false hne, Bool.false_or]

lemma bitmapTestbit_resetbit (bitmap : Bitmap) (i j : ℕ) :
    bitmapTestbit (bitmapResetbit bitmap i) j = (!decide (j = i) && bitmapTestbit bitmap j) := by
  rw [bitmapTestbit_eq_getLsbD, bitmapTestbit_eq_getLsbD, bitmapResetbit]
  by_cases hword : j / 64 = i / 64
  · have hbit : j % 64 = i % 64 ↔ j = i := by omega
    rw [hword, update_self, BitVec.getLsbD_and, BitVec.getLsbD_not, ← BitVec.twoPow_eq]
    simp [Nat.mod_lt, ← hbit, eq_comm, Bool.and_comm]
  · have hne : j ≠ i := fun heq => hword (by rw [heq])
    rw [update_of_ne hword, decide_eq_false hne, Bool.not_false, Bool.true_and]

/-- The loops that set or reset `count` bits from `page` on. -/
def setRange (bitmap : Bitmap) (page count : ℕ) : Bitmap :=
  (List.range' page count).foldl bitmapSetbit bitmap

def resetRange (bitmap : Bitmap) (page count : ℕ) : Bitmap :=
  (List.range' page count).foldl bitmapResetbit bitmap

lemma bitmapTestbit_setRange (bitmap : Bitmap) (page count j : ℕ) :
    bitmapTestbit (setRange bitmap page count) j =
      (decide (page ≤ j ∧ j < page + count) || bitmapTestbit bitmap j) := by
  induction count with
  | zero =>
    have hempty : ¬ (page ≤ j ∧ j < page + 0) := by omega
    rw [decide_eq_false hempty, Bool.false_or]
    rfl
  | succ count ih =>
    rw [setRange, List.range'_concat, List.foldl_append, List.foldl_cons, List.foldl_nil,
      bitmapTestbit_setbit, ← setRange, ih, ← Bool.or_assoc, ← Bool.decide_or, one_mul]
    congr 2
    apply propext
    omega

lemma bitmapTestbit_resetRange (bitmap : Bitmap) (page count j : ℕ) :
    bitmapTestbit (resetRange bitmap page count) j =
      (!decide (page ≤ j ∧ j < page + count) && bitmapTestbit bitmap j) := by
  induction count with
  | zero =>
    have hempty : ¬ (page ≤ j ∧ j < page + 0) := by omega
    rw [decide_eq_false hempty, Bool.not_false, Bool.true_and]
    rfl
  | succ count ih =>
    rw [resetRange, List.range'_concat, List.foldl_append, List.foldl_cons, List.foldl_nil,
      bitmapTestbit_resetbit, ← resetRange, ih, ← Bool.and_assoc, ← Bool.not_or,
      ← Bool.decide_or, one_mul]
    congr 3
    apply propext
    omega

inductive BitmapOp
  | setbit (index : ℕ)
  | resetbit (index : ℕ)
  deriving DecidableEq, Repr

def BitmapOp.index : BitmapOp → ℕ
  | .setbit index => index
  | .resetbit index => index

def BitmapOp.apply (bitmap : Bitmap) : BitmapOp → Bitmap
  | .setbit index => bitmapSetbit bitmap index
  | .resetbit index => bitmapResetbit bitmap index

def Untouched (ops : List BitmapOp) (j : ℕ) : Prop :=
  ∀ op ∈ ops, op.index ≠ j

def SetLast (ops : List BitmapOp) (j : ℕ) : Prop :=
  ∃ before after, ops = before ++ .setbit j :: after ∧ Untouched after j

lemma setLast_cons (op : BitmapOp) (ops : List BitmapOp) (j : ℕ) :
    SetLast (op :: ops) j ↔ SetLast ops j ∨ op = .setbit j ∧ Untouched ops j := by
  constructor
  · rintro ⟨before, after, heq, hafter⟩
    cases before with
    | nil =>
      obtain ⟨rfl, rfl⟩ := List.cons.inj heq
      exact .inr ⟨rfl, hafter⟩
    | cons _ before => exact .inl ⟨before, after, (List.cons.inj heq).2, hafter⟩
  · rintro (⟨before, after, rfl, hafter⟩ | ⟨rfl, hops⟩)
    · exact ⟨op :: before, after, rfl, hafter⟩
    · exact ⟨[], ops, rfl, hops⟩

lemma bitmapTestbit_apply (bitmap : Bitmap) (op : BitmapOp) (j : ℕ) :
    bitmapTestbit (op.apply bitmap) j = true ↔
      op = .setbit j ∨ op.index ≠ j ∧ bitmapTestbit bitmap j = true := by
  cases op with
  | setbit i =>
    rw [BitmapOp.apply, bitmapTestbit_setbit, BitmapOp.index, BitmapOp.setbit.injEq,
      Bool.or_eq_true, decide_eq_true_eq, eq_comm]
    tauto
  | resetbit i =>
    rw [BitmapOp.apply, bitmapTestbit_resetbit, BitmapOp.index, Bool.and_eq_true,
      Bool.not_eq_true', decide_eq_false_iff_not, eq_comm]
    simp only [reduceCtorEq, false_or]

lemma bitmapTestbit_foldl_apply (bitmap : Bitmap) (ops : List BitmapOp) (j : ℕ) :
    bitmapTestbit (ops.foldl BitmapOp.apply bitmap) j = true ↔
      SetLast ops j ∨ Untouched ops j ∧ bitmapTestbit bitmap j = true := by
  induction ops generalizing bitmap with
  | nil => simp [SetLast, Untouched]
  | cons op ops ih =>
    rw [List.foldl_cons, ih, bitmapTestbit_apply, setLast_cons, Untouched, Untouched,
      List.forall_mem_cons]
    tauto

/-- The bitmap is a set of indices. -/
theorem bitmap_is_set (bitmap : Bitmap) :
    (∀ i j, bitmapTestbit (bitmapSetbit bitmap i) j = true ↔
      j = i ∨ bitmapTestbit bitmap j = true) ∧
    (∀ i j, bitmapTestbit (bitmapResetbit bitmap i) j = true ↔
      j ≠ i ∧ bitmapTestbit bitmap j = true) ∧
    ∀ ops j, bitmapTestbit (ops.foldl BitmapOp.apply bitmap) j = true ↔
      SetLast ops j ∨ Untouched ops j ∧ bitmapTestbit bitmap j = true := by
  refine ⟨?_, ?_, bitmapTestbit_foldl_apply bitmap⟩
  · intro i j
    rw [bitmapTestbit_setbit, Bool.or_eq_true, decide_eq_true_eq]
  · intro i j
    rw [bitmapTestbit_resetbit, Bool.and_eq_true, Bool.not_eq_true', decide_eq_false_iff_not]

/-! ## Allocation -/

structure Pmm where
  pageCount : ℕ
  bitmap : Bitmap
  freePages : ℕ
  lastUsedIndex : ℕ
  memory : Memory

/-- The loop of `inner_alloc`; `p` counts the clear bits right before the
cursor.  Each round moves the cursor, so the distance to the limit is enough
fuel. -/
def innerAllocLoop (count limit : ℕ) : ℕ → ℕ → Pmm → Pmm × ℕ
  | 0, _, s => (s, 0)
  | fuel + 1, p, s =>
    if s.lastUsedIndex < limit then
      let next := { s with lastUsedIndex := s.lastUsedIndex + 1 }
      if !bitmapTestbit s.bitmap s.lastUsedIndex then
        if p + 1 = count then
          let page := next.lastUsedIndex - count
          ({ next with bitmap := setRange s.bitmap page count }, page * pageSize)
        else
          innerAllocLoop count limit fuel (p + 1) next
      else
        innerAllocLoop count limit fuel 0 next
    else (s, 0)

def innerAlloc (count limit : ℕ) (s : Pmm) : Pmm × ℕ :=
  innerAllocLoop count limit (limit - s.lastUsedIndex) 0 s

/-- The two passes of `pmm_alloc`. -/
def pmmSearch (count : ℕ) (s : Pmm) : Pmm × ℕ :=
  let first := innerAlloc count s.pageCount s
  if first.2 = 0 then innerAlloc count s.lastUsedIndex { first.1 with lastUsedIndex := 0 }
  else first

def pmmAlloc (count : ℕ) (s : Pmm) : Option (Pmm × ℕ) :=
  let (found, ret) := pmmSearch count s
  if ret = 0 then none
  else some ({ found with
    freePages := (found.freePages + 2 ^ 64 - count) % 2 ^ 64
    memory := memset found.memory (ret + higherHalf) 0 (count * pageSize) }, ret)

def pmmFree (ptr count : ℕ) (s : Pmm) : Pmm :=
  { s with
    bitmap := resetRange s.bitmap (ptr / pageSize) count
    freePages := (s.freePages + count) % 2 ^ 64 }

end Cottage.Mem
