import Cottage.Mem.Heap

/-!
# The layout of the heap

Where the pieces of the heap lie, independently of what memory holds: the runs
of pages it owns are apart, a slab page is one of them and has one slab, a
block is an entry of a slab page or lies behind the metadata of a run of its
own.  It follows that no byte belongs to two blocks, and that the bytes the
allocator itself relies on (`Reserved`) belong to none.
-/

namespace Cottage.Malloc

open ByteMemory LinkedList Mem

variable {owned : List PageRun} {slabs : List (ℕ × ℕ)} {live : List Block} {b b' : Block}
  {a a' c c' i j p x : ℕ}

def entries (c : ℕ) : ℕ :=
  (pageSize - entSize c) / entSize c

def entAddr (p c i : ℕ) : ℕ :=
  p + higherHalf + entSize c * (i + 1)

lemma entSize_spec : ∀ c, c < slabCount →
    8 ≤ entSize c ∧ entSize c / 8 * 8 = entSize c ∧ alignUp 8 (entSize c) = entSize c ∧
      1 ≤ entries c := by
  decide

lemma entry_bounds (hc : c < slabCount) (hi : i < entries c) :
    entSize c * (i + 1) + entSize c ≤ pageSize ∧ 8 ≤ entSize c ∧
      entSize c ≤ entSize c * (i + 1) := by
  obtain ⟨hsize, _, _, _⟩ := entSize_spec c hc
  have hmul : (i + 1) * entSize c ≤ pageSize - entSize c :=
    (Nat.le_div_iff_mul_le (by omega)).mp hi
  have hle : entSize c ≤ entSize c * (i + 1) := Nat.le_mul_of_pos_right _ (Nat.succ_pos i)
  rw [Nat.mul_comm] at hmul
  refine ⟨?_, hsize, hle⟩
  omega

lemma entry_spacing (hij : i < j) :
    entSize c * (i + 1) + entSize c ≤ entSize c * (j + 1) := by
  calc
    entSize c * (i + 1) + entSize c = entSize c * (i + 1 + 1) := (Nat.mul_succ _ _).symm
    _ ≤ entSize c * (j + 1) := Nat.mul_le_mul_left _ (by omega)

def IsEntry (slabs : List (ℕ × ℕ)) (c a : ℕ) : Prop :=
  ∃ p i, (p, c) ∈ slabs ∧ i < entries c ∧ a = entAddr p c i

lemma entAddr_injective (p : ℕ) (hc : c < slabCount) : Function.Injective (entAddr p c) := by
  intro i j heq
  have hsize := (entSize_spec c hc).1
  have hmul : entSize c * (i + 1) = entSize c * (j + 1) := Nat.add_left_cancel heq
  exact Nat.succ.inj (Nat.eq_of_mul_eq_mul_left (by omega) hmul)

lemma isEntry_cons : IsEntry ((p, i) :: slabs) c a ↔
    (c = i ∧ ∃ k, k < entries i ∧ a = entAddr p i k) ∨ IsEntry slabs c a := by
  constructor
  · rintro ⟨p', k, hp', hk, rfl⟩
    rcases List.mem_cons.mp hp' with heq | hp'
    · cases heq
      exact .inl ⟨rfl, k, hk, rfl⟩
    · exact .inr ⟨p', k, hp', hk, rfl⟩
  · rintro (⟨rfl, k, hk, rfl⟩ | ⟨p', k, hp', hk, rfl⟩)
    · exact ⟨p, k, .head _, hk, rfl⟩
    · exact ⟨p', k, List.mem_cons_of_mem _ hp', hk, rfl⟩

lemma IsEntry.mono {slabs' : List (ℕ × ℕ)} (ha : IsEntry slabs c a) (hsub : slabs ⊆ slabs') :
    IsEntry slabs' c a := by
  obtain ⟨p, i, hp, hi, rfl⟩ := ha
  exact ⟨p, i, hsub hp, hi, rfl⟩

def Block.pages (b : Block) : ℕ :=
  divRoundup b.len pageSize

def PageRun.Has (r : PageRun) (x : ℕ) : Prop :=
  r.base + higherHalf ≤ x ∧ x < r.base + higherHalf + r.count * pageSize

structure Layout (owned : List PageRun) (slabs : List (ℕ × ℕ)) (live : List Block) : Prop where
  valid : ∀ r ∈ owned, r.Valid
  apart : ∀ r ∈ owned, ∀ r' ∈ owned, r ≠ r' → r.Apart r'
  slab_owned : ∀ p c, (p, c) ∈ slabs → ⟨p, 1⟩ ∈ owned ∧ c < slabCount
  slab_unique : ∀ p c c', (p, c) ∈ slabs → (p, c') ∈ slabs → c = c'
  nodup : (live.map Block.ptr).Nodup
  slab_block : ∀ b ∈ live, b.big = false → ∃ c, IsEntry slabs c b.ptr ∧ b.len ≤ entSize c
  big_block : ∀ b ∈ live, b.big = true → ∃ p, b.ptr = p + higherHalf + pageSize ∧
    ⟨p, b.pages + 1⟩ ∈ owned ∧ 1 ≤ b.len ∧ b.len ≤ 2 ^ 63

def Covers (slabs : List (ℕ × ℕ)) (b : Block) (x : ℕ) : Prop :=
  if b.big then b.ptr ≤ x ∧ x < b.ptr + b.pages * pageSize
  else ∃ c, IsEntry slabs c b.ptr ∧ b.ptr ≤ x ∧ x < b.ptr + entSize c

/-- The bytes the allocator relies on: page headers, metadata, and the links
of free entries. -/
inductive Reserved (slabs : List (ℕ × ℕ)) (live : List Block) (x : ℕ) : Prop
  | header (p c : ℕ) : (p, c) ∈ slabs → p + higherHalf ≤ x → x < p + higherHalf + 8 →
      Reserved slabs live x
  | metadata (b : Block) : b ∈ live → b.big = true → b.ptr - pageSize ≤ x →
      x < b.ptr - pageSize + 16 → Reserved slabs live x
  | link (c a : ℕ) : IsEntry slabs c a → (∀ b ∈ live, b.ptr ≠ a) → a ≤ x → x < a + 8 →
      Reserved slabs live x

lemma PageRun.Apart.not_has {r r' : PageRun} (hapart : r.Apart r') (hr : r.Has x) :
    ¬ r'.Has x := by
  rintro ⟨hlo, hhi⟩
  obtain ⟨hlo', hhi'⟩ := hr
  rcases hapart with hle | hle <;> omega

lemma PageRun.not_apart {p' n n' : ℕ} (hn : 1 ≤ n) (hn' : 1 ≤ n') (hbase : p = p') :
    ¬ PageRun.Apart ⟨p, n⟩ ⟨p', n'⟩ := by
  simp only [PageRun.Apart, pageSize] at *
  omega

lemma mem_without {ptr : ℕ} : b ∈ without live ptr ↔ b ∈ live ∧ b.ptr ≠ ptr := by
  simp [without]

namespace Layout

protected lemma without (hl : Layout owned slabs live) (ptr : ℕ) :
    Layout owned slabs (without live ptr) where
  valid := hl.valid
  apart := hl.apart
  slab_owned := hl.slab_owned
  slab_unique := hl.slab_unique
  nodup := hl.nodup.sublist (List.filter_sublist.map Block.ptr)
  slab_block b hb := hl.slab_block b (mem_without.mp hb).1
  big_block b hb := hl.big_block b (mem_without.mp hb).1

section

variable (hl : Layout owned slabs live)

include hl

lemma ptr_inj (hb : b ∈ live) (hb' : b' ∈ live) (hptr : b.ptr = b'.ptr) : b = b' :=
  List.inj_on_of_nodup_map hl.nodup hb hb' hptr

lemma run_eq {r r' : PageRun} (hr : r ∈ owned) (hr' : r' ∈ owned) (hx : r.Has x)
    (hx' : r'.Has x) : r = r' := by
  by_contra hne
  exact (hl.apart r hr r' hr' hne).not_has hx hx'

lemma has_of_entry (hp : (p, c) ∈ slabs) (hi : i < entries c) (hlo : entAddr p c i ≤ x)
    (hhi : x < entAddr p c i + entSize c) : PageRun.Has ⟨p, 1⟩ x ∧ p + higherHalf + 8 ≤ x := by
  obtain ⟨hend, hsize, hfirst⟩ := entry_bounds (hl.slab_owned p c hp).2 hi
  simp only [entAddr] at hlo hhi
  simp only [PageRun.Has]
  omega

lemma entry_eq (ha : IsEntry slabs c a) (ha' : IsEntry slabs c' a') (hlo : a ≤ x)
    (hhi : x < a + entSize c) (hlo' : a' ≤ x) (hhi' : x < a' + entSize c') : a = a' ∧ c = c' := by
  obtain ⟨p, i, hp, hi, rfl⟩ := ha
  obtain ⟨p', i', hp', hi', rfl⟩ := ha'
  have hrun := hl.run_eq (hl.slab_owned p c hp).1 (hl.slab_owned p' c' hp').1
    (hl.has_of_entry hp hi hlo hhi).1 (hl.has_of_entry hp' hi' hlo' hhi').1
  obtain rfl : p = p' := congrArg PageRun.base hrun
  obtain rfl : c = c' := hl.slab_unique p c c' hp hp'
  obtain rfl : i = i' := by
    simp only [entAddr] at hlo hhi hlo' hhi'
    rcases Nat.lt_trichotomy i i' with hlt | heq | hlt
    · have := entry_spacing (c := c) hlt
      omega
    · exact heq
    · have := entry_spacing (c := c) hlt
      omega
  exact ⟨rfl, rfl⟩

lemma entry_class_eq (ha : IsEntry slabs c a) (ha' : IsEntry slabs c' a) : c = c' := by
  have hpos : ∀ c, IsEntry slabs c a → a < a + entSize c := by
    rintro c ⟨p, i, hp, hi, _⟩
    have := (entSize_spec c (hl.slab_owned p c hp).2).1
    omega
  exact (hl.entry_eq ha ha' le_rfl (hpos c ha) le_rfl (hpos c' ha')).2

end

lemma has_of_big {p : ℕ} (hptr : b.ptr = p + higherHalf + pageSize)
    (hlo : b.ptr - pageSize ≤ x) (hhi : x < b.ptr + b.pages * pageSize) :
    PageRun.Has ⟨p, b.pages + 1⟩ x := by
  simp only [PageRun.Has, Nat.succ_mul]
  omega

lemma pages_pos (hlen : 1 ≤ b.len) (hle : b.len ≤ 2 ^ 63) : 1 ≤ b.pages := by
  rw [Block.pages, divRoundup_eq hle]
  omega

lemma has_ptr_of_big (hptr : b.ptr = p + higherHalf + pageSize) (hlen : 1 ≤ b.len)
    (hle : b.len ≤ 2 ^ 63) : PageRun.Has ⟨p, b.pages + 1⟩ b.ptr := by
  have hpos : 1 * pageSize ≤ b.pages * pageSize :=
    Nat.mul_le_mul_right _ (pages_pos hlen hle)
  apply has_of_big hptr (by omega)
  simp only [pageSize] at *
  omega

lemma covers_of_lt (hl : Layout owned slabs live) (hb : b ∈ live) (hlo : b.ptr ≤ x)
    (hhi : x < b.ptr + b.len) : Covers slabs b x := by
  cases hbig : b.big with
  | false =>
    obtain ⟨c, hentry, hlen⟩ := hl.slab_block b hb hbig
    simp only [Covers, hbig, Bool.false_eq_true, if_false]
    exact ⟨c, hentry, hlo, by omega⟩
  | true =>
    obtain ⟨p, _, _, _, hle⟩ := hl.big_block b hb hbig
    have hpages : b.pages = (b.len + 4095) / 4096 := divRoundup_eq hle
    simp only [Covers, hbig, if_true, hpages, pageSize]
    omega

lemma slab_run_ne (hlen : 1 ≤ b.len) (hle : b.len ≤ 2 ^ 63) (p p' : ℕ) :
    PageRun.mk p 1 ≠ PageRun.mk p' (b.pages + 1) := by
  have := pages_pos hlen hle
  simp only [ne_eq, PageRun.mk.injEq]
  omega

section

variable (hl : Layout owned slabs live)

include hl

lemma slab_of_covers (hbig : b.big = false) (hx : Covers slabs b x) :
    ∃ p c, (p, c) ∈ slabs ∧ IsEntry slabs c b.ptr ∧ b.ptr ≤ x ∧ x < b.ptr + entSize c ∧
      PageRun.Has ⟨p, 1⟩ x ∧ p + higherHalf + 8 ≤ x := by
  simp only [Covers, hbig, Bool.false_eq_true, if_false] at hx
  obtain ⟨c, hentry, hlo, hhi⟩ := hx
  obtain ⟨p, i, hp, hi, hptr⟩ := id hentry
  exact ⟨p, c, hp, hentry, hlo, hhi, hl.has_of_entry hp hi (hptr ▸ hlo) (hptr ▸ hhi)⟩

lemma big_of_covers (hb : b ∈ live) (hbig : b.big = true) (hx : Covers slabs b x) :
    ∃ p, b.ptr = p + higherHalf + pageSize ∧ ⟨p, b.pages + 1⟩ ∈ owned ∧ 1 ≤ b.len ∧
      b.len ≤ 2 ^ 63 ∧ b.ptr ≤ x ∧ PageRun.Has ⟨p, b.pages + 1⟩ x := by
  simp only [Covers, hbig, if_true] at hx
  obtain ⟨p, hptr, howned, hlen, hle⟩ := hl.big_block b hb hbig
  exact ⟨p, hptr, howned, hlen, hle, hx.1, has_of_big hptr (by omega) hx.2⟩

lemma run_of_reserved (hres : Reserved slabs live x) :
    (∃ p c, (p, c) ∈ slabs ∧ PageRun.Has ⟨p, 1⟩ x ∧
      (x < p + higherHalf + 8 ∨
        ∃ a, IsEntry slabs c a ∧ (∀ b ∈ live, b.ptr ≠ a) ∧ a ≤ x ∧ x < a + entSize c)) ∨
    ∃ b ∈ live, b.big = true ∧ ∃ p, b.ptr = p + higherHalf + pageSize ∧
      ⟨p, b.pages + 1⟩ ∈ owned ∧ 1 ≤ b.len ∧ b.len ≤ 2 ^ 63 ∧
        PageRun.Has ⟨p, b.pages + 1⟩ x ∧ x < b.ptr := by
  cases hres with
  | header p c hp hlo hhi =>
    refine .inl ⟨p, c, hp, ?_, .inl hhi⟩
    simp only [PageRun.Has, pageSize]
    omega
  | metadata b hb hbig hlo hhi =>
    obtain ⟨p, hptr, howned, hlen, hle⟩ := hl.big_block b hb hbig
    have hlt : x < b.ptr := by
      simp only [pageSize] at *
      omega
    refine .inr ⟨b, hb, hbig, p, hptr, howned, hlen, hle, ?_, hlt⟩
    exact has_of_big hptr hlo (by omega)
  | link c a hentry hfree hlo hhi =>
    obtain ⟨p, i, hp, hi, rfl⟩ := id hentry
    have hsize := (entSize_spec c (hl.slab_owned p c hp).2).1
    refine .inl ⟨p, c, hp, (hl.has_of_entry hp hi hlo (by omega)).1, .inr ?_⟩
    exact ⟨_, hentry, hfree, hlo, by omega⟩

lemma not_reserved (hb : b ∈ live) (hx : Covers slabs b x) : ¬ Reserved slabs live x := by
  intro hres
  cases hbig : b.big with
  | false =>
    obtain ⟨p, c, hp, hentry, hlo, hhi, hrun, hbehind⟩ := hl.slab_of_covers hbig hx
    have howned := (hl.slab_owned p c hp).1
    rcases hl.run_of_reserved hres with
      ⟨p', c', hp', hrun', hheader | ⟨a, hentry', hfree, hlo', hhi'⟩⟩ |
      ⟨b', hb', _, p', hptr', howned', hlen', hle', hrun', _⟩
    · obtain rfl : p = p' :=
        congrArg PageRun.base (hl.run_eq howned (hl.slab_owned p' c' hp').1 hrun hrun')
      omega
    · exact hfree b hb (hl.entry_eq hentry hentry' hlo hhi hlo' hhi').1
    · exact slab_run_ne hlen' hle' p p' (hl.run_eq howned howned' hrun hrun')
  | true =>
    obtain ⟨p, hptr, howned, hlen, hle, hlo, hrun⟩ := hl.big_of_covers hb hbig hx
    rcases hl.run_of_reserved hres with ⟨p', c', hp', hrun', _⟩ |
      ⟨b', hb', _, p', hptr', howned', hlen', hle', hrun', hlt⟩
    · exact slab_run_ne hlen hle p' p (hl.run_eq (hl.slab_owned p' c' hp').1 howned hrun' hrun)
    · obtain rfl : p = p' := congrArg PageRun.base (hl.run_eq howned howned' hrun hrun')
      omega

lemma block_eq (hb : b ∈ live) (hb' : b' ∈ live) (hx : Covers slabs b x)
    (hx' : Covers slabs b' x) : b = b' := by
  apply hl.ptr_inj hb hb'
  cases hbig : b.big with
  | false =>
    obtain ⟨p, c, hp, hentry, hlo, hhi, hrun, _⟩ := hl.slab_of_covers hbig hx
    cases hbig' : b'.big with
    | false =>
      obtain ⟨_, c', _, hentry', hlo', hhi', _, _⟩ := hl.slab_of_covers hbig' hx'
      exact (hl.entry_eq hentry hentry' hlo hhi hlo' hhi').1
    | true =>
      obtain ⟨p', _, howned', hlen', hle', _, hrun'⟩ := hl.big_of_covers hb' hbig' hx'
      exact absurd (hl.run_eq (hl.slab_owned p c hp).1 howned' hrun hrun')
        (slab_run_ne hlen' hle' p p')
  | true =>
    obtain ⟨p, hptr, howned, hlen, hle, _, hrun⟩ := hl.big_of_covers hb hbig hx
    cases hbig' : b'.big with
    | false =>
      obtain ⟨p', c', hp', _, _, _, hrun', _⟩ := hl.slab_of_covers hbig' hx'
      exact absurd (hl.run_eq (hl.slab_owned p' c' hp').1 howned hrun' hrun)
        (slab_run_ne hlen hle p' p)
    | true =>
      obtain ⟨p', hptr', howned', _, _, _, hrun'⟩ := hl.big_of_covers hb' hbig' hx'
      obtain rfl : p = p' := congrArg PageRun.base (hl.run_eq howned howned' hrun hrun')
      exact hptr.trans hptr'.symm

lemma big_ne_entry (hb : b ∈ live) (hbig : b.big = true) (ha : IsEntry slabs c a) :
    b.ptr ≠ a := by
  rintro rfl
  obtain ⟨p, hptr, howned, hlen, hle⟩ := hl.big_block b hb hbig
  obtain ⟨p', i, hp', hi, heq⟩ := ha
  obtain ⟨howned', hc⟩ := hl.slab_owned p' c hp'
  have hsize := (entSize_spec c hc).1
  have hrun := has_ptr_of_big hptr hlen hle
  have hrun' := (hl.has_of_entry hp' hi heq.ge (by omega)).1
  exact slab_run_ne hlen hle p' p (hl.run_eq howned' howned hrun' hrun)

end

lemma run_lt (hl : Layout owned slabs live) {r : PageRun} (hr : r ∈ owned) :
    r.base + higherHalf + r.count * pageSize ≤ 2 ^ 64 := by
  have hend := (hl.valid r hr).2.2
  simp only [directMapSize, higherHalf] at *
  omega

lemma entry_page (hl : Layout owned slabs live) (hp : (p, c) ∈ slabs) (hi : i < entries c) :
    entAddr p c i < 2 ^ 64 ∧ entAddr p c i % pageSize ≠ 0 ∧
      entAddr p c i / pageSize * pageSize = p + higherHalf := by
  obtain ⟨howned, hc⟩ := hl.slab_owned p c hp
  obtain ⟨hend, hsize, hfirst⟩ := entry_bounds hc hi
  have hlt := hl.run_lt howned
  obtain ⟨k, hk⟩ := (hl.valid _ howned).1
  simp only [entAddr, pageSize, higherHalf] at *
  omega

end Layout

/-! ## Runs not in use -/

def Unused (slabs : List (ℕ × ℕ)) (live : List Block) (r : PageRun) : Prop :=
  (∀ c, (r.base, c) ∉ slabs) ∧ ∀ b ∈ live, b.big = true → b.ptr ≠ r.base + higherHalf + pageSize

namespace Unused

variable {r : PageRun}

variable (hu : Unused slabs live r)

include hu

lemma ne_slab (hp : (p, c) ∈ slabs) : r ≠ ⟨p, 1⟩ := by
  rintro rfl
  exact hu.1 c hp

lemma ne_big (hb : b ∈ live) (hbig : b.big = true) (hptr : b.ptr = p + higherHalf + pageSize) :
    r ≠ ⟨p, b.pages + 1⟩ := by
  rintro rfl
  exact hu.2 b hb hbig hptr

variable (hl : Layout owned slabs live) (hr : r ∈ owned)

include hl hr

lemma not_reserved (hx : r.Has x) : ¬ Reserved slabs live x := by
  intro hres
  rcases hl.run_of_reserved hres with ⟨p, c, hp, hrun, _⟩ |
    ⟨b, hb, hbig, p, hptr, howned, _, _, hrun, _⟩
  · exact hu.ne_slab hp (hl.run_eq hr (hl.slab_owned p c hp).1 hx hrun)
  · exact hu.ne_big hb hbig hptr (hl.run_eq hr howned hx hrun)

lemma not_entry (ha : IsEntry slabs c a) : ¬ r.Has a := by
  intro hx
  obtain ⟨p, i, hp, hi, rfl⟩ := ha
  obtain ⟨howned, hc⟩ := hl.slab_owned p c hp
  have hsize := (entSize_spec c hc).1
  have hrun := (hl.has_of_entry hp hi le_rfl (by omega)).1
  exact hu.ne_slab hp (hl.run_eq hr howned hx hrun)

lemma not_ptr (hb : b ∈ live) : ¬ r.Has b.ptr := by
  intro hx
  cases hbig : b.big with
  | false =>
    obtain ⟨c, hentry, _⟩ := hl.slab_block b hb hbig
    exact hu.not_entry hl hr hentry hx
  | true =>
    obtain ⟨p, hptr, howned, hlen, hle⟩ := hl.big_block b hb hbig
    exact hu.ne_big hb hbig hptr (hl.run_eq hr howned hx (Layout.has_ptr_of_big hptr hlen hle))

end Unused

end Cottage.Malloc
