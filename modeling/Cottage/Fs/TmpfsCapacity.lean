import Cottage.Fs.TmpfsResize
import Cottage.Fs.Vfs

/-!
# The loops that double the capacity of a file

`tmpfs_resource_write` and `tmpfs_resource_grow` double the capacity of a
resource until it is large enough.  `tmpfs_create_node` sets the capacity only
for regular files; all other resources, and those of `tmpfs_symlink`, have
capacity zero because `malloc` returns zeroed memory.  The loops end when
nothing is wanted, and else only for regular files and for at most 2^63 bytes.

Here a resource is by itself: what `realloc` returns is part of the call.
-/

namespace Cottage.Tmpfs

open Malloc Mem Transition Vfs

inductive Origin
  | createNode (mode : ℕ)
  | symlink (target : Name)
  deriving DecidableEq, Repr

/-- The new resource; `storage` is what `malloc` returns. -/
def Origin.resource (storage : ℕ) : Origin → Resource
  | .createNode mode =>
    if statIsReg mode then ⟨storage, 4096, 0, 0, 512⟩ else ⟨0, 0, 0, 0, 512⟩
  | .symlink target => ⟨0, 0, target.length, 0, 512⟩

def Origin.Sized : Origin → Prop
  | .createNode mode => statIsReg mode = true
  | .symlink _ => False

/-- `tmpfs_resource_grow` on the resource; `newStorage` is what `realloc`
returns. -/
def growResource (r : Resource) (size newStorage : ℕ) : Option Resource :=
  (growCapacity size 64 r.capacity).map fun newCapacity =>
    if newStorage = 0 then r
    else
      { r with
        storage := newStorage
        capacity := newCapacity
        size := size
        blocks := divRoundup size r.blockSize }

def extendSize (r : Resource) (wanted : ℕ) : Resource :=
  if wanted > r.size then { r with size := wanted, blocks := divRoundup wanted r.blockSize } else r

/-- `tmpfs_resource_write` on the resource. -/
def writeResource (r : Resource) (loc count newStorage : ℕ) : Option Resource :=
  let wanted := (loc + count) % 2 ^ 64
  if wanted > r.capacity then
    (growCapacity wanted 64 r.capacity).map fun newCapacity =>
      if newStorage = 0 then r
      else extendSize { r with storage := newStorage, capacity := newCapacity } wanted
  else some (extendSize r wanted)

inductive Call
  | write (loc count newStorage : ℕ)
  | grow (size newStorage : ℕ)
  deriving DecidableEq, Repr

def Call.apply (r : Resource) : Call → Option Resource
  | .write loc count newStorage => writeResource r loc count newStorage
  | .grow size newStorage => growResource r size newStorage

def calls (o : Origin) : System Resource Call where
  init r := ∃ storage, r = o.resource storage
  step := Call.apply

variable {s s' : State}

lemma file_ensureCapacity {wanted page : ℕ} {grown : Bool}
    (hcall : ensureCapacity s wanted page = some (s', grown)) :
    (wanted ≤ s.file.capacity ∧ s' = s ∧ grown = true) ∨
    (s.file.capacity < wanted ∧ ∃ newCapacity newStorage,
      growCapacity wanted 64 s.file.capacity = some newCapacity ∧
      s'.file = (if newStorage = 0 then s.file
        else { s.file with storage := newStorage, capacity := newCapacity }) ∧
      (grown = true ↔ newStorage ≠ 0)) := by
  rw [ensureCapacity] at hcall
  split_ifs at hcall with hgrow
  · obtain ⟨newCapacity, hloop, hrest⟩ := Option.bind_eq_some_iff.mp hcall
    obtain ⟨⟨heap, newStorage⟩, _, hrest⟩ := Option.bind_eq_some_iff.mp hrest
    refine .inr ⟨hgrow, newCapacity, newStorage, hloop, ?_⟩
    dsimp only at hrest
    split_ifs at hrest with hzero
    · cases hrest
      exact ⟨(if_pos hzero).symm, by simp [hzero]⟩
    · cases hrest
      exact ⟨(if_neg hzero).symm, by simp [hzero]⟩
  · cases hcall
    exact .inl ⟨by omega, rfl, rfl⟩

lemma storeData_file_eq (s : State) (loc : ℕ) (data : List UInt8) :
    (storeData s loc data).file = extendSize s.file ((loc + data.length) % 2 ^ 64) :=
  rfl

lemma file_tmpfsResourceWrite {loc page ret : ℕ} {data : List UInt8}
    (hcall : tmpfsResourceWrite s loc data page = some (s', ret)) :
    ∃ newStorage, writeResource s.file loc data.length newStorage = some s'.file := by
  obtain ⟨⟨s₁, grown⟩, hensure, heq⟩ := Option.map_eq_some_iff.mp hcall
  cases heq
  rcases file_ensureCapacity hensure with
    ⟨hle, rfl, rfl⟩ | ⟨hlt, newCapacity, newStorage, hloop, hfile, hgrown⟩
  · refine ⟨0, ?_⟩
    rw [writeResource, if_neg (Nat.not_lt.mpr hle), if_pos rfl, storeData_file_eq]
  · refine ⟨newStorage, ?_⟩
    rw [writeResource, if_pos hlt, hloop, Option.map_some, Option.some.injEq]
    by_cases hzero : newStorage = 0
    · have hfalse : ¬ grown = true := by
        rw [hgrown]
        exact not_not.mpr hzero
      rw [if_pos hzero, if_neg hfalse, hfile, if_pos hzero]
    · rw [if_neg hzero, if_pos (hgrown.mpr hzero), storeData_file_eq, hfile, if_neg hzero]

lemma file_tmpfsResourceGrow {size page : ℕ} {ok : Bool}
    (hcall : tmpfsResourceGrow s size page = some (s', ok)) :
    ∃ newStorage, growResource s.file size newStorage = some s'.file := by
  obtain ⟨newCapacity, hloop, hrest⟩ := Option.bind_eq_some_iff.mp hcall
  obtain ⟨⟨heap, newStorage⟩, _, hrest⟩ := Option.bind_eq_some_iff.mp hrest
  refine ⟨newStorage, ?_⟩
  rw [growResource, hloop, Option.map_some, Option.some.injEq]
  dsimp only at hrest
  split_ifs at hrest with hzero
  · cases hrest
    exact if_pos hzero
  · cases hrest
    exact if_neg hzero

/-- The resource of a file in the heap goes through calls on resources. -/
theorem reachable_file {t : Tracked} {mode : ℕ} (hmode : statIsReg mode = true)
    (h : resizing.Reachable t) : (calls (.createNode mode)).Reachable t.state.file := by
  apply h.invariant (I := fun t : Tracked => (calls (.createNode mode)).Reachable t.state.file)
  · rintro t ⟨⟨heap, page, _, hcreate⟩, _⟩
    obtain ⟨⟨h, storage⟩, _, heq⟩ := Option.map_eq_some_iff.mp hcreate
    refine .init ⟨storage, ?_⟩
    rw [← heq, Origin.resource, if_pos hmode]
  · intro t e t' hfile hstep
    obtain ⟨s', hcall, rfl⟩ := Option.map_eq_some_iff.mp hstep
    cases e with
    | write loc data page =>
      simp only [resizeStep, Tmpfs.step, Option.ite_none_right_eq_some,
        Option.map_eq_some_iff] at hcall
      obtain ⟨_, ⟨s₁, ret⟩, hwrite, rfl⟩ := hcall
      obtain ⟨newStorage, hresource⟩ := file_tmpfsResourceWrite hwrite
      exact .step (a := .write loc data.length newStorage) hfile trivial hresource
    | grow size page =>
      simp only [resizeStep, Option.ite_none_right_eq_some, Option.map_eq_some_iff] at hcall
      obtain ⟨_, ⟨s₁, ok⟩, hgrow, rfl⟩ := hcall
      obtain ⟨newStorage, hresource⟩ := file_tmpfsResourceGrow hgrow
      exact .step (a := .grow size newStorage) hfile trivial hresource
    | other e =>
      simp only [resizeStep, Tmpfs.step] at hcall
      split_ifs at hcall
      obtain ⟨heap, _, rfl⟩ := Option.map_eq_some_iff.mp hcall
      exact hfile

theorem reachable_file_written :
    ∃ t, resizing.Reachable t ∧ t.state.file.size = 6 ∧
      (calls (.createNode (0o644 ||| statIfreg))).Reachable t.state.file := by
  obtain ⟨t, hreach, ht⟩ := exists_reachable_of_run_any (S := resizing) (fun _ => resizing_init)
    [.write 0 [0x61] 0, .grow 6 0] (fun t => decide (t.state.file.size = 6)) (by decide +kernel)
  exact ⟨t, hreach, of_decide_eq_true ht, reachable_file (by decide) hreach⟩

/-- Zero without a capacity of its own, else a number of pages that is a power of
two. -/
def Capacity (o : Origin) (capacity : ℕ) : Prop :=
  ¬ o.Sized ∧ capacity = 0 ∨ o.Sized ∧ ∃ k ≤ 51, capacity = 4096 * 2 ^ k

lemma growCapacity_zero {wanted : ℕ} (hwanted : 0 < wanted) (fuel : ℕ) :
    growCapacity wanted fuel 0 = none := by
  induction fuel with
  | zero => rfl
  | succ fuel ih =>
    rw [growCapacity, if_pos hwanted]
    exact ih

lemma growCapacity_large {wanted k : ℕ} (hwanted : 2 ^ 63 < wanted) (hk : k ≤ 51) (fuel : ℕ) :
    growCapacity wanted fuel (4096 * 2 ^ k) = none := by
  induction fuel generalizing k with
  | zero => rfl
  | succ fuel ih =>
    have hpow : 2 ^ k ≤ 2 ^ 51 := Nat.pow_le_pow_right (by decide) hk
    rw [growCapacity, if_pos (by omega)]
    rcases Nat.lt_or_eq_of_le hk with hlt | rfl
    · rw [double_mod hlt]
      exact ih hlt
    · exact growCapacity_zero (by omega) fuel

def LoopEnds (wanted capacity : ℕ) : Prop :=
  ∃ fuel, (growCapacity wanted fuel capacity).isSome = true

variable {o : Origin} {capacity wanted newCapacity : ℕ}

section

variable (h : Capacity o capacity)

include h

lemma Capacity.growCapacity_isSome (hends : wanted = 0 ∨ o.Sized ∧ wanted ≤ 2 ^ 63) :
    (growCapacity wanted 64 capacity).isSome = true := by
  rcases hends with rfl | ⟨hsized, hle⟩
  · rw [growCapacity, if_neg (Nat.not_lt_zero _), Option.isSome_some]
  · rcases h with ⟨hnot, _⟩ | ⟨_, k, hk, rfl⟩
    · exact absurd hsized hnot
    · obtain ⟨j, hloop, _⟩ := growCapacity_eq 64 hk le_rfl (by omega) hle
      rw [hloop, Option.isSome_some]

lemma Capacity.loopEnds_iff :
    LoopEnds wanted capacity ↔ wanted = 0 ∨ o.Sized ∧ wanted ≤ 2 ^ 63 := by
  constructor
  · rintro ⟨fuel, hends⟩
    by_contra hnot
    rw [not_or, not_and, Nat.not_le] at hnot
    rcases h with ⟨_, rfl⟩ | ⟨hsized, k, hk, rfl⟩
    · rw [growCapacity_zero (Nat.pos_of_ne_zero hnot.1)] at hends
      cases hends
    · rw [growCapacity_large (hnot.2 hsized) hk] at hends
      cases hends
  · intro hends
    exact ⟨64, h.growCapacity_isSome hends⟩

lemma Capacity.grow (hloop : growCapacity wanted 64 capacity = some newCapacity) :
    Capacity o newCapacity := by
  rcases h with ⟨hnot, rfl⟩ | ⟨hsized, k, hk, rfl⟩
  · have hzero : wanted = 0 := by
      by_contra hne
      rw [growCapacity_zero (Nat.pos_of_ne_zero hne)] at hloop
      cases hloop
    subst hzero
    rw [growCapacity, if_neg (Nat.lt_irrefl 0), Option.some.injEq] at hloop
    exact .inl ⟨hnot, hloop.symm⟩
  · have hle : wanted ≤ 2 ^ 63 := by
      by_contra hlt
      rw [growCapacity_large (by omega) hk] at hloop
      cases hloop
    obtain ⟨j, heq, _, hj, _⟩ := growCapacity_eq 64 hk le_rfl (by omega) hle
    rw [heq, Option.some.injEq] at hloop
    exact .inr ⟨hsized, j, hj, hloop.symm⟩

end

lemma capacity_resource (o : Origin) (storage : ℕ) :
    Capacity o (o.resource storage).capacity := by
  cases o with
  | createNode mode =>
    rw [Origin.resource]
    split_ifs with hmode
    · exact .inr ⟨hmode, 0, by decide, rfl⟩
    · exact .inl ⟨hmode, rfl⟩
  | symlink target => exact .inl ⟨id, rfl⟩

lemma extendSize_capacity (r : Resource) (wanted : ℕ) :
    (extendSize r wanted).capacity = r.capacity := by
  rw [extendSize]
  split_ifs <;> rfl

lemma Capacity.apply {r r' : Resource} {c : Call} (h : Capacity o r.capacity)
    (hcall : c.apply r = some r') : Capacity o r'.capacity := by
  cases c with
  | write loc count newStorage =>
    simp only [Call.apply, writeResource] at hcall
    by_cases hgrow : (loc + count) % 2 ^ 64 > r.capacity
    · rw [if_pos hgrow] at hcall
      obtain ⟨newCapacity, hloop, rfl⟩ := Option.map_eq_some_iff.mp hcall
      split_ifs
      · exact h
      · rw [extendSize_capacity]
        exact h.grow hloop
    · rw [if_neg hgrow] at hcall
      rw [← Option.some.inj hcall, extendSize_capacity]
      exact h
  | grow size newStorage =>
    obtain ⟨newCapacity, hloop, rfl⟩ := Option.map_eq_some_iff.mp hcall
    split_ifs
    · exact h
    · exact h.grow hloop

lemma capacity_of_reachable {r : Resource} (h : (calls o).Reachable r) :
    Capacity o r.capacity := by
  apply h.invariant (I := fun r : Resource => Capacity o r.capacity)
  · rintro _ ⟨storage, rfl⟩
    exact capacity_resource o storage
  · intro r c r' hcapacity hcall
    exact hcapacity.apply hcall

/-! ## The ends of the loops -/

/-- The loop of a write, which is only entered if the capacity is too small. -/
def WriteEnds (r : Resource) (loc count : ℕ) : Prop :=
  (loc + count) % 2 ^ 64 > r.capacity → LoopEnds ((loc + count) % 2 ^ 64) r.capacity

def GrowEnds (r : Resource) (size : ℕ) : Prop :=
  LoopEnds size r.capacity

lemma writeEnds_iff_loopEnds (r : Resource) (loc count : ℕ) :
    WriteEnds r loc count ↔ LoopEnds ((loc + count) % 2 ^ 64) r.capacity := by
  constructor
  · intro h
    by_cases hgrow : (loc + count) % 2 ^ 64 > r.capacity
    · exact h hgrow
    · refine ⟨1, ?_⟩
      rw [growCapacity, if_neg hgrow]
      rfl
  · exact fun h _ => h

/-- On every resource that writes and grows have led to, the loops end if and only
if nothing is wanted, or the resource is one of a regular file and not more than
2^63 bytes are wanted. -/
theorem loops_end_iff {o : Origin} {r : Resource} (h : (calls o).Reachable r) (loc count size : ℕ) :
    (WriteEnds r loc count ↔
      (loc + count) % 2 ^ 64 = 0 ∨ o.Sized ∧ (loc + count) % 2 ^ 64 ≤ 2 ^ 63) ∧
    (GrowEnds r size ↔ size = 0 ∨ o.Sized ∧ size ≤ 2 ^ 63) := by
  have hcapacity := capacity_of_reachable h
  exact ⟨(writeEnds_iff_loopEnds r loc count).trans hcapacity.loopEnds_iff, hcapacity.loopEnds_iff⟩

theorem loops_end_iff_regular :
    ∃ r, (calls (.createNode (0o644 ||| statIfreg))).Reachable r ∧ r.capacity = 8192 ∧
      WriteEnds r 8000 1000 ∧ GrowEnds r 9000 := by
  have hinit : (calls (.createNode (0o644 ||| statIfreg))).Reachable
      (Origin.resource 0x1000 (.createNode (0o644 ||| statIfreg))) := .init ⟨_, rfl⟩
  obtain ⟨r, hreach, hr⟩ := hinit.exists_of_run_any [.write 4096 1 0x9000]
    (fun r => decide (r.capacity = 8192)) (by decide)
  obtain ⟨hwrite, hgrow⟩ := loops_end_iff hreach 8000 1000 9000
  have hsized : Origin.Sized (.createNode (0o644 ||| statIfreg)) := by
    rw [Origin.Sized]
    decide
  exact ⟨r, hreach, of_decide_eq_true hr, hwrite.mpr (.inr ⟨hsized, by decide⟩),
    hgrow.mpr (.inr ⟨hsized, by decide⟩)⟩

theorem loops_do_not_end :
    (∃ r, (calls (.symlink [0x61])).Reachable r ∧ ¬ WriteEnds r 0 1) ∧
    ∃ r, (calls (.createNode (0o644 ||| statIfreg))).Reachable r ∧ ¬ GrowEnds r (2 ^ 63 + 1) := by
  refine ⟨⟨_, .init ⟨0, rfl⟩, ?_⟩, ⟨_, .init ⟨0x1000, rfl⟩, ?_⟩⟩
  · intro h
    obtain ⟨fuel, hends⟩ := h (by decide)
    have hnone : growCapacity ((0 + 1) % 2 ^ 64) fuel
        (Origin.resource 0 (.symlink [0x61])).capacity = none :=
      growCapacity_zero (by decide) fuel
    rw [hnone] at hends
    cases hends
  · rintro ⟨fuel, hends⟩
    have hcapacity : (Origin.resource 0x1000 (.createNode (0o644 ||| statIfreg))).capacity =
        4096 * 2 ^ 0 := by decide
    rw [hcapacity, growCapacity_large (by decide) (by decide)] at hends
    cases hends

end Cottage.Tmpfs
