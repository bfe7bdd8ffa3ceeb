import Mathlib.Algebra.Group.Nat.Defs
import Mathlib.Data.List.Basic

/-!
# Routing interrupts

The functions of `apic.c` on I/O APICs.  Such a controller has registers behind
a window: the number of a register is written to one address, and a second
address then stands for that register.  A `panic` is a missing result, and
`klog` is left out but for the register it reads.
-/

namespace Cottage.IoApic

open Function

/-- The fields of `madt_io_apic_t` that are used. -/
structure Entry where
  address : UInt32
  gsib : UInt32
  deriving DecidableEq, Repr

structure Chip where
  select : ℕ
  regs : ℕ → UInt32

abbrev State := UInt32 → Chip

/-- `madt_io_apics[i]` -/
def entryAt (madtIoApics : List Entry) (i : ℕ) : Entry :=
  madtIoApics.getD i ⟨0, 0⟩

/-- `mmout` to the first address of the window. -/
def selectReg (address : UInt32) (reg : ℕ) (s : State) : State :=
  update s address { s address with select := reg }

def ioApicRead (madtIoApics : List Entry) (ioApic reg : ℕ) (s : State) : UInt32 × State :=
  let base := (entryAt madtIoApics ioApic).address
  let s := selectReg base reg s
  ((s base).regs (s base).select, s)

def ioApicWrite (madtIoApics : List Entry) (ioApic reg : ℕ) (val : UInt32) (s : State) : State :=
  let base := (entryAt madtIoApics ioApic).address
  let s := selectReg base reg s
  update s base { s base with regs := update (s base).regs (s base).select val }

def ioApicGsiCount (madtIoApics : List Entry) (ioApic : ℕ) (s : State) : UInt32 × State :=
  let (x, s) := ioApicRead madtIoApics ioApic 1 s
  ((x &&& 0xff0000) >>> 16, s)

def fromGsiLoop (madtIoApics : List Entry) (gsi : UInt32) : ℕ → ℕ → State → Option ℕ × State
  | 0, _, s => (none, s)
  | turns + 1, i, s =>
    let (_, s) := ioApicGsiCount madtIoApics i s
    if (entryAt madtIoApics i).gsib ≤ gsi then
      let (count, s) := ioApicGsiCount madtIoApics i s
      if (entryAt madtIoApics i).gsib + count > gsi then (some i, s)
      else fromGsiLoop madtIoApics gsi turns (i + 1) s
    else fromGsiLoop madtIoApics gsi turns (i + 1) s

def ioApicFromGsi (madtIoApics : List Entry) (gsi : UInt32) (s : State) : Option ℕ × State :=
  fromGsiLoop madtIoApics gsi madtIoApics.length 0 s

/-- The arguments of `io_apic_set_gsi_redirect` but for the interrupt. -/
structure Redirect where
  lapicId : UInt32
  vector : UInt8
  flags : UInt16
  status : Bool
  deriving DecidableEq, Repr

/-- `uint64_t redirect` -/
def Redirect.word (r : Redirect) : UInt64 :=
  r.vector.toUInt64 ||| (if r.flags &&& 0x2 ≠ 0 then (0x2000 : UInt64) else 0) |||
    (if r.flags &&& 0x8 ≠ 0 then (0x8000 : UInt64) else 0) |||
    (if r.status then (0 : UInt64) else 0x10000) ||| r.lapicId.toUInt64 <<< 56

def ioApicSetGsiRedirect (madtIoApics : List Entry) (r : Redirect) (gsi : UInt32) (s : State) :
    Option State :=
  let (found, s) := ioApicFromGsi madtIoApics gsi s
  found.map fun ioApic =>
    let ioredtbl := ((gsi - (entryAt madtIoApics ioApic).gsib) * 2 + 16).toNat
    let s := ioApicWrite madtIoApics ioApic ioredtbl r.word.toUInt32 s
    ioApicWrite madtIoApics ioApic (ioredtbl + 1) (r.word >>> 32).toUInt32 s

def maxRedirection (s : State) (e : Entry) : ℕ :=
  (((s e.address).regs 1 &&& 0xff0000) >>> 16).toNat

def SameRegs (s s' : State) : Prop :=
  ∀ address, (s' address).regs = (s address).regs

section

variable {madtIoApics : List Entry} {gsi : UInt32} {s s' s'' : State} {i : ℕ}

lemma SameRegs.trans (h : SameRegs s s') (h' : SameRegs s' s'') : SameRegs s s'' :=
  fun address => (h' address).trans (h address)

lemma SameRegs.maxRedirection (h : SameRegs s s') (e : Entry) :
    maxRedirection s' e = IoApic.maxRedirection s e := by
  rw [IoApic.maxRedirection, IoApic.maxRedirection, h]

lemma sameRegs_selectReg (address : UInt32) (reg : ℕ) (s : State) :
    SameRegs s (selectReg address reg s) := by
  intro a
  unfold selectReg
  by_cases ha : a = address
  · rw [ha, update_self]
  · rw [update_of_ne ha]

lemma ioApicGsiCount_spec (madtIoApics : List Entry) (i : ℕ) (s : State) :
    (ioApicGsiCount madtIoApics i s).1.toNat = maxRedirection s (entryAt madtIoApics i) ∧
      SameRegs s (ioApicGsiCount madtIoApics i s).2 := by
  have hsame := sameRegs_selectReg (entryAt madtIoApics i).address 1 s
  refine ⟨?_, hsame⟩
  have hselect : (selectReg (entryAt madtIoApics i).address 1 s
      (entryAt madtIoApics i).address).select = 1 := by
    rw [selectReg, update_self]
  simp only [ioApicGsiCount, ioApicRead, hselect, maxRedirection]
  rw [hsame]

def Matches (madtIoApics : List Entry) (gsi : UInt32) (s : State) (i : ℕ) : Prop :=
  (entryAt madtIoApics i).gsib.toNat ≤ gsi.toNat ∧
    gsi.toNat < ((entryAt madtIoApics i).gsib.toNat +
      maxRedirection s (entryAt madtIoApics i)) % 2 ^ 32

instance : DecidablePred (Matches madtIoApics gsi s) :=
  fun _ => inferInstanceAs (Decidable (_ ∧ _))

lemma SameRegs.matches_iff (h : SameRegs s s') :
    Matches madtIoApics gsi s' i ↔ Matches madtIoApics gsi s i := by
  rw [Matches, Matches, h.maxRedirection]

lemma fromGsiLoop_spec (turns i : ℕ) (s : State) : ∃ s', SameRegs s s' ∧
    fromGsiLoop madtIoApics gsi turns i s =
      ((List.range' i turns).find? fun j => decide (Matches madtIoApics gsi s j), s') := by
  induction turns generalizing i s with
  | zero => exact ⟨s, fun _ => rfl, rfl⟩
  | succ turns ih =>
    obtain ⟨_, hfirst⟩ := ioApicGsiCount_spec madtIoApics i s
    obtain ⟨hcount, hsecond⟩ := ioApicGsiCount_spec madtIoApics i (ioApicGsiCount madtIoApics i s).2
    rw [hfirst.maxRedirection] at hcount
    have hrest (t : State) (hsame : SameRegs s t) (hno : ¬ Matches madtIoApics gsi s i) :
        ∃ s', SameRegs s s' ∧ fromGsiLoop madtIoApics gsi turns (i + 1) t =
          ((List.range' i (turns + 1)).find? fun j => decide (Matches madtIoApics gsi s j),
            s') := by
      obtain ⟨s', hsame', hloop⟩ := ih (i + 1) t
      refine ⟨s', hsame.trans hsame', ?_⟩
      rw [hloop, List.range'_succ, List.find?_cons_of_neg (by simpa using hno)]
      simp only [hsame.matches_iff]
    rw [fromGsiLoop]
    by_cases hle : (entryAt madtIoApics i).gsib ≤ gsi
    · dsimp only
      rw [if_pos hle]
      by_cases hlt : (entryAt madtIoApics i).gsib +
          (ioApicGsiCount madtIoApics i (ioApicGsiCount madtIoApics i s).2).1 > gsi
      · have hmatch : Matches madtIoApics gsi s i := by
          refine ⟨UInt32.le_iff_toNat_le.mp hle, ?_⟩
          have hlt' := UInt32.lt_iff_toNat_lt.mp hlt
          rwa [UInt32.toNat_add, hcount] at hlt'
        refine ⟨_, hfirst.trans hsecond, ?_⟩
        rw [if_pos hlt, List.range'_succ, List.find?_cons_of_pos (by simpa using hmatch)]
      · rw [if_neg hlt]
        apply hrest _ (hfirst.trans hsecond)
        rintro ⟨_, hmatch⟩
        apply hlt
        rw [gt_iff_lt, UInt32.lt_iff_toNat_lt, UInt32.toNat_add, hcount]
        exact hmatch
    · dsimp only
      rw [if_neg hle]
      exact hrest _ hfirst fun hmatch => hle (UInt32.le_iff_toNat_le.mpr hmatch.1)

/-! ## Routing -/

def Serves (madtIoApics : List Entry) (s : State) (gsi : UInt32) (i : ℕ) : Prop :=
  i < madtIoApics.length ∧ (entryAt madtIoApics i).gsib.toNat ≤ gsi.toNat ∧
    gsi.toNat ≤ (entryAt madtIoApics i).gsib.toNat + maxRedirection s (entryAt madtIoApics i)

def Disjoint (madtIoApics : List Entry) (s : State) : Prop :=
  ∀ gsi i j, Serves madtIoApics s gsi i → Serves madtIoApics s gsi j → i = j

def redirectReg (e : Entry) (gsi : UInt32) : ℕ :=
  16 + 2 * (gsi.toNat - e.gsib.toNat)

/-- The two registers hold the redirection, and no other register of any
controller has changed. -/
def Redirected (e : Entry) (gsi : UInt32) (r : Redirect) (s s' : State) : Prop :=
  ∀ address, (s' address).regs = if address = e.address then
    update (update (s address).regs (redirectReg e gsi) r.word.toUInt32)
      (redirectReg e gsi + 1) (r.word >>> 32).toUInt32
    else (s address).regs

structure Routes (madtIoApics : List Entry) (s : State) (gsi : UInt32) (i : ℕ) (r : Redirect) :
    Prop where
  found : (ioApicFromGsi madtIoApics gsi s).1 = some i
  redirected : ∃ s', ioApicSetGsiRedirect madtIoApics r gsi s = some s' ∧
    Redirected (entryAt madtIoApics i) gsi r s s'

lemma maxRedirection_le (s : State) (e : Entry) : maxRedirection s e ≤ 255 := by
  have hand : ((s e.address).regs 1 &&& 0xff0000).toNat ≤ 0xff0000 := by
    rw [UInt32.toNat_and]
    exact Nat.and_le_right
  have hsixteen : (16 : UInt32).toNat % 32 = 16 := rfl
  rw [maxRedirection, UInt32.toNat_shiftRight, hsixteen, Nat.shiftRight_eq_div_pow]
  omega

lemma matches_iff (h : Serves madtIoApics s gsi i) : Matches madtIoApics gsi s i ↔
    (entryAt madtIoApics i).gsib.toNat + maxRedirection s (entryAt madtIoApics i) < 2 ^ 32 ∧
      gsi.toNat ≠ (entryAt madtIoApics i).gsib.toNat +
        maxRedirection s (entryAt madtIoApics i) := by
  obtain ⟨_, hle, hge⟩ := h
  have hmax := maxRedirection_le s (entryAt madtIoApics i)
  rw [Matches]
  omega

lemma Matches.serves (h : Matches madtIoApics gsi s i) (hi : i < madtIoApics.length) :
    Serves madtIoApics s gsi i := by
  refine ⟨hi, h.1, ?_⟩
  have hlt := h.2
  omega

lemma find_matches (hdisjoint : Disjoint madtIoApics s) (hserves : Serves madtIoApics s gsi i) :
    ((List.range' 0 madtIoApics.length).find? fun j => decide (Matches madtIoApics gsi s j)) =
        some i ↔ Matches madtIoApics gsi s i := by
  constructor
  · intro hfind
    simpa using List.find?_some hfind
  · intro hmatch
    cases hfind : (List.range' 0 madtIoApics.length).find? fun j =>
        decide (Matches madtIoApics gsi s j) with
    | none =>
      have hi : i ∈ List.range' 0 madtIoApics.length :=
        List.mem_range'_1.mpr ⟨Nat.zero_le i, by simpa using hserves.1⟩
      exact absurd (decide_eq_true hmatch) (List.find?_eq_none.mp hfind i hi)
    | some j =>
      have hj : Matches madtIoApics gsi s j := by simpa using List.find?_some hfind
      have hlt : j < madtIoApics.length := by
        simpa using (List.mem_range'_1.mp (List.mem_of_find?_eq_some hfind)).2
      rw [hdisjoint gsi j i (hj.serves hlt) hserves]

lemma regs_ioApicWrite (madtIoApics : List Entry) (i reg : ℕ) (val : UInt32) (s : State)
    (address : UInt32) : (ioApicWrite madtIoApics i reg val s address).regs =
      if address = (entryAt madtIoApics i).address then
        update (s address).regs reg val else (s address).regs := by
  have hsame := sameRegs_selectReg (entryAt madtIoApics i).address reg s
  have hselect : (selectReg (entryAt madtIoApics i).address reg s
      (entryAt madtIoApics i).address).select = reg := by
    rw [selectReg, update_self]
  unfold ioApicWrite
  split_ifs with ha
  · rw [ha, update_self]
    rw [hselect, hsame]
  · rw [update_of_ne ha, hsame]

lemma toNat_redirectReg (h : Serves madtIoApics s gsi i) :
    ((gsi - (entryAt madtIoApics i).gsib) * 2 + 16).toNat =
      redirectReg (entryAt madtIoApics i) gsi := by
  obtain ⟨_, hle, hge⟩ := h
  have hmax := maxRedirection_le s (entryAt madtIoApics i)
  have hsub := UInt32.toNat_sub_of_le gsi _ (UInt32.le_iff_toNat_le.mpr hle)
  rw [redirectReg, UInt32.toNat_add, UInt32.toNat_mul, hsub]
  have htwo : (2 : UInt32).toNat = 2 := rfl
  have hsixteen : (16 : UInt32).toNat = 16 := rfl
  rw [htwo, hsixteen]
  omega

lemma redirected_write (hsame : SameRegs s s') (r : Redirect) :
    Redirected (entryAt madtIoApics i) gsi r s
      (ioApicWrite madtIoApics i (redirectReg (entryAt madtIoApics i) gsi + 1)
        (r.word >>> 32).toUInt32
        (ioApicWrite madtIoApics i (redirectReg (entryAt madtIoApics i) gsi) r.word.toUInt32
          s')) := by
  intro address
  rw [regs_ioApicWrite, regs_ioApicWrite, hsame]
  split_ifs <;> rfl

/-- An interrupt is routed through the I/O APIC that serves it, unless it is the
last one served or the range wraps. -/
theorem io_apic_routes_iff (hdisjoint : Disjoint madtIoApics s)
    (hserves : Serves madtIoApics s gsi i) (r : Redirect) :
    Routes madtIoApics s gsi i r ↔
      (entryAt madtIoApics i).gsib.toNat + maxRedirection s (entryAt madtIoApics i) < 2 ^ 32 ∧
        gsi.toNat ≠ (entryAt madtIoApics i).gsib.toNat +
          maxRedirection s (entryAt madtIoApics i) := by
  obtain ⟨s', hsame, hloop⟩ := @fromGsiLoop_spec madtIoApics gsi madtIoApics.length 0 s
  rw [← matches_iff hserves, ← find_matches hdisjoint hserves]
  constructor
  · intro h
    have hfound := h.found
    rwa [ioApicFromGsi, hloop] at hfound
  · intro hfind
    rw [hfind] at hloop
    refine ⟨congrArg Prod.fst hloop, _, ?_, redirected_write hsame r⟩
    simp only [ioApicSetGsiRedirect, ioApicFromGsi, hloop, Option.map_some,
      toNat_redirectReg hserves]

end

def soleController : List Entry :=
  [⟨0xfec00000, 0⟩]

def soleState : State :=
  fun _ => ⟨0, fun reg => if reg = 1 then 0x170011 else 0⟩

lemma disjoint_soleController (s : State) : Disjoint soleController s := by
  intro gsi i j hi hj
  exact (Nat.lt_one_iff.mp hi.1).trans (Nat.lt_one_iff.mp hj.1).symm

theorem io_apic_routes_keyboard :
    ∃ s', ioApicSetGsiRedirect soleController ⟨0, 0x21, 0, true⟩ 1 soleState = some s' ∧
      Redirected ⟨0xfec00000, 0⟩ 1 ⟨0, 0x21, 0, true⟩ soleState s' :=
  ((io_apic_routes_iff (disjoint_soleController soleState)
    (i := 0) ⟨by decide, by decide, by decide⟩ ⟨0, 0x21, 0, true⟩).mpr
      ⟨by decide, by decide⟩).redirected

/-- Interrupt 23 is served, and the search for its controller ends in a
panic. -/
theorem io_apic_misses_last :
    Serves soleController soleState 23 0 ∧ (ioApicFromGsi soleController 23 soleState).1 = none :=
  ⟨⟨by decide, by decide, by decide⟩, by decide⟩

end Cottage.IoApic
