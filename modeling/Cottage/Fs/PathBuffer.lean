import Cottage.Foundations.ByteString
import Cottage.Fs.Vfs
import Cottage.Mem.HeapSizes

/-!
# The buffers for the components of a path

`path2node` asks for `strlen(path)` bytes for each component of a path and
copies the component without a terminating byte.  The block is zeroed, so the
component is a string if the block is longer than the component.  Small blocks
are: `malloc` asks for eight more bytes.
-/

namespace Cottage.Vfs

open ByteMemory ByteString Malloc Mem Separated Transition

/-- The component `c`, copied to the block at `ptr`, is followed by a zero byte of
the block. -/
def Terminated (h : Malloc.Heap) (ptr : ℕ) (c : Name) : Prop :=
  c.length < usableAt h ptr ∧ storeBytes h.memory ptr c (ptr + c.length) = 0

variable {h : Malloc.Heap} {s : Malloc.State} {len page ptr : ℕ}

section

variable (hI : Malloc.Inv s.heap s.live) (hle : len ≤ 2 ^ 63)
  (hcall : malloc len page s.heap = some (h, ptr))

include hI hle hcall

lemma usableAt_malloc :
    len ≤ 1016 ∧ len < usableAt h ptr ∨
      1016 < len ∧ usableAt h ptr = (len + 4095) / 4096 * 4096 := by
  have hI' := hI.malloc hle hcall
  have husable := hI'.usableAt_eq (.head _)
  cases hfind : findSlab ((8 + len) % 2 ^ 64) with
  | none =>
    have hlarge := findSlab_none hfind
    have hbig : isBig len = true := by rw [isBig, hfind, Option.isNone_none]
    obtain ⟨hpages, _⟩ := hI'.contents.metadata _ (.head _) hbig
    refine .inr ⟨by omega, ?_⟩
    rw [husable]
    simp only [State.usable, hbig, if_true]
    rw [hpages, Block.pages, divRoundup_eq hle]
    rfl
  | some i =>
    obtain ⟨hi, hsize⟩ := findSlab_some hfind
    have hentries : ∀ i < slabCount, entSize i ≤ 1024 := by decide
    have hentry := hentries i hi
    rw [malloc, hfind] at hcall
    obtain ⟨hallocated, hslab⟩ := hI.allocated_slabAlloc hi (by omega : len ≤ entSize i) hcall
    obtain ⟨_, _, hoffset, hheader⟩ := hallocated.inv.entry_header hslab
    refine .inl ⟨by omega, ?_⟩
    rw [usableAt, if_neg hoffset, hheader]
    omega

lemma terminated_of_lt {c : Name} (hlt : c.length < usableAt h ptr) : Terminated h ptr c := by
  have hallocated := hI.allocated_malloc hle hcall
  refine ⟨hlt, (agreeOutside_storeBytes _ _ c _ (by omega)).trans ?_⟩
  apply hallocated.zero
  rw [Inv.covers_iff (s := ⟨h, _⟩) hallocated.inv (.head _),
    ← hallocated.inv.usableAt_eq (.head _)]
  dsimp only
  omega

end

lemma not_terminated_of_dvd (hI : Malloc.Inv s.heap s.live) {path : Name} (hne : path ≠ [])
    (hle : path.length ≤ 2 ^ 63) (hcall : malloc path.length page s.heap = some (h, ptr))
    (hsep : slash ∉ path) (hdvd : 4096 ∣ path.length) :
    path ∈ components slash path ∧ ¬ Terminated h ptr path := by
  have hpos := List.length_pos_iff.mpr hne
  refine ⟨?_, fun hterminated => ?_⟩
  · rw [components_eq_singleton hne hsep]
    exact List.mem_singleton_self path
  · have hlt := hterminated.1
    rcases usableAt_malloc hI hle hcall with ⟨hsmall, _⟩ | ⟨_, husable⟩ <;> omega

/-- All components of a path are strings in their buffers if and only if there is
a slash in it, or it does not fill whole pages. -/
theorem components_terminated_iff {s : Malloc.State} (hs : Malloc.system.Reachable s)
    {path : Name} (hlen : path.length ≤ 2 ^ 64 - 4096) {page ptr : ℕ} {h : Malloc.Heap}
    (hcall : malloc path.length page s.heap = some (h, ptr)) :
    (∀ c ∈ components slash path, Terminated h ptr c) ↔
      path = [] ∨ slash ∈ path ∨ ¬ 4096 ∣ path.length := by
  have hI := inv_of_reachable hs
  have hle : path.length ≤ 2 ^ 63 := by
    by_contra hlarge
    rw [malloc_eq_none (not_le.mp hlarge) hlen] at hcall
    cases hcall
  constructor
  · intro hall
    by_contra hnot
    rw [not_or, not_or, not_not] at hnot
    obtain ⟨hne, hsep, hdvd⟩ := hnot
    obtain ⟨hmem, hbad⟩ := not_terminated_of_dvd hI hne hle hcall hsep hdvd
    exact hbad (hall path hmem)
  · intro hok c hc
    obtain ⟨hshort, hshorter⟩ := length_of_mem_components hc
    apply terminated_of_lt hI hle hcall
    rcases usableAt_malloc hI hle hcall with ⟨_, hroom⟩ | ⟨_, husable⟩
    · omega
    · rcases hok with rfl | hsep | hdvd
      · cases hc
      · have hlt := hshorter hsep
        omega
      · omega

theorem components_terminated_iff_short :
    ∃ s h ptr, Malloc.system.Reachable s ∧ malloc 3 0xB000 s.heap = some (h, ptr) ∧
      ∀ c ∈ components slash [slash, 0x61, 0x62], Terminated h ptr c := by
  obtain ⟨heap, hinit, hsome⟩ := exists_initial_of_bootHeap_any
    (fun heap => (malloc 3 0xB000 heap).isSome) (by decide +kernel)
  obtain ⟨⟨h, ptr⟩, hcall⟩ := Option.isSome_iff_exists.mp hsome
  have hreach : Malloc.system.Reachable ⟨heap, []⟩ := .init hinit
  have hpath : malloc [slash, 0x61, 0x62].length 0xB000 heap = some (h, ptr) := hcall
  exact ⟨⟨heap, []⟩, h, ptr, hreach, hcall,
    (components_terminated_iff hreach (by decide) hpath).mpr (.inr (.inl (.head _)))⟩

theorem component_not_terminated :
    ∃ s h ptr, Malloc.system.Reachable s ∧ malloc 4096 0xB000 s.heap = some (h, ptr) ∧
      List.replicate 4096 0x61 ∈ components slash (List.replicate 4096 0x61) ∧
        ¬ Terminated h ptr (List.replicate 4096 0x61) := by
  obtain ⟨heap, hinit, hsome⟩ := exists_initial_of_bootHeap_any
    (fun heap => (malloc 4096 0xB000 heap).isSome) (by decide +kernel)
  obtain ⟨⟨h, ptr⟩, hcall⟩ := Option.isSome_iff_exists.mp hsome
  have hreach : Malloc.system.Reachable ⟨heap, []⟩ := .init hinit
  have hbad {path : Name} (hlength : path.length = 4096) (hsep : slash ∉ path) :
      path ∈ components slash path ∧ ¬ Terminated h ptr path := by
    have hne : path ≠ [] := List.ne_nil_of_length_pos (by omega)
    have hpath : malloc path.length 0xB000 heap = some (h, ptr) := by rw [hlength, hcall]
    exact not_terminated_of_dvd (inv_of_reachable hreach) hne (by omega) hpath hsep (by omega)
  refine ⟨⟨heap, []⟩, h, ptr, hreach, hcall, hbad List.length_replicate fun hmem => ?_⟩
  cases List.eq_of_mem_replicate hmem

end Cottage.Vfs
