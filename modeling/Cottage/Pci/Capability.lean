import Cottage.Foundations.Loop
import Cottage.Pci.Config
import Mathlib.Data.Fintype.Pigeonhole

/-!
# The capability list

`pci_find_capability` follows the pointers of the capability list until it
comes to an entry with the id asked for or to the null pointer.  It keeps no
record of where it has been, and so a list that leads back to one of its
entries is followed forever, unless the id is found before.
-/

namespace Cottage.Pci

open Function Loop

/-- One round of the `while` loop, on the pointer. -/
def capabilityRound (bus dev func : ℕ) (capId : UInt8) (s : UInt8 × Machine) :
    (UInt8 × Machine) ⊕ (UInt8 × Machine) :=
  let (capPtr, m) := s
  if capPtr = 0 then .inr (0, m)
  else
    let (id, m) := pciReadb bus dev func capPtr.toNat m
    if id = capId then .inr (capPtr, m)
    else
      let (next, m) := pciReadb bus dev func (capPtr.toNat + 1) m
      .inl (next &&& 0xFC, m)

def pciFindCapability (fuel bus dev func : ℕ) (capId : UInt8) (m : Machine) :
    Option (UInt8 × Machine) :=
  let (status, m) := pciReadw bus dev func 0x06 m
  if status &&& ((1 : UInt16) <<< 4) = 0 then some (0, m)
  else
    let (first, m) := pciReadb bus dev func 0x34 m
    run (capabilityRound bus dev func capId) fuel (first &&& 0xFC, m)

namespace Device

def HasList (d : Device) : Prop :=
  UInt16.ofNat (partOf (d.regs 1) 2) &&& ((1 : UInt16) <<< 4) ≠ 0

def firstPtr (d : Device) : UInt8 :=
  d.byteAt 0x34 &&& 0xFC

def nextPtr (d : Device) (p : UInt8) : UInt8 :=
  d.byteAt (p.toNat + 1) &&& 0xFC

def ptr (d : Device) (n : ℕ) : UInt8 :=
  d.nextPtr^[n] d.firstPtr

def Other (d : Device) (capId p : UInt8) : Prop :=
  p ≠ 0 ∧ d.byteAt p.toNat ≠ capId

def Passed (d : Device) (capId : UInt8) (n : ℕ) : Prop :=
  ∀ k < n, d.Other capId (d.ptr k)

/-- The list leads back to an entry before the id was found. -/
def Revisits (d : Device) (capId : UInt8) : Prop :=
  d.HasList ∧ ∃ i n, i < n ∧ d.ptr i = d.ptr n ∧ d.Passed capId n

/-- The offset of the first entry with the id; zero, if there is no list, or if
it leads to the null pointer or back to an entry and the id was not found. -/
inductive Finds (d : Device) (capId : UInt8) : UInt8 → Prop
  | found (n : ℕ) : d.HasList → d.Passed capId n → d.ptr n ≠ 0 →
      d.byteAt (d.ptr n).toNat = capId → Finds d capId (d.ptr n)
  | noList : ¬ d.HasList → Finds d capId 0
  | null (n : ℕ) : d.HasList → d.Passed capId n → d.ptr n = 0 → Finds d capId 0
  | revisit : d.Revisits capId → Finds d capId 0

variable {d : Device} {capId : UInt8}

lemma ptr_succ (n : ℕ) : d.ptr (n + 1) = d.nextPtr (d.ptr n) :=
  iterate_succ_apply' d.nextPtr n d.firstPtr

lemma toNat_and_fc (x : UInt8) : (x &&& 0xFC).toNat + 1 < 256 := by
  rw [UInt8.toNat_and]
  exact Nat.succ_lt_of_lt_pred (Nat.lt_of_le_of_lt Nat.and_le_right (by decide))

lemma ptr_toNat_lt (n : ℕ) : (d.ptr n).toNat + 1 < 256 := by
  cases n with
  | zero => exact toNat_and_fc (d.byteAt 0x34)
  | succ n =>
    rw [ptr_succ]
    exact toNat_and_fc _

lemma Revisits.other (h : d.Revisits capId) (k : ℕ) : d.Other capId (d.ptr k) := by
  obtain ⟨_, i, n, hin, hptr, hpassed⟩ := h
  have hback : ∃ j < n, d.ptr k = d.ptr j := by
    induction k with
    | zero => exact ⟨0, by omega, rfl⟩
    | succ k ih =>
      obtain ⟨j, hj, hk⟩ := ih
      rw [ptr_succ, hk, ← ptr_succ]
      rcases Nat.lt_or_eq_of_le (Nat.succ_le_of_lt hj) with hlt | heq
      · exact ⟨j + 1, hlt, rfl⟩
      · exact ⟨i, hin, by rw [hptr, ← heq]⟩
  obtain ⟨j, hj, hk⟩ := hback
  rw [hk]
  exact hpassed j hj

lemma exists_ptr_eq (d : Device) : ∃ i n, i < n ∧ d.ptr i = d.ptr n := by
  have hinj : Injective fun p : UInt8 => (⟨p.toNat, p.toNat_lt⟩ : Fin (2 ^ 8)) := by
    intro p q h
    exact UInt8.toNat_inj.mp (Fin.mk.inj h)
  have hfinite : Finite UInt8 := Finite.of_injective _ hinj
  obtain ⟨i, n, hne, heq⟩ := Finite.exists_ne_map_eq_of_infinite d.ptr
  rcases Nat.lt_or_gt_of_ne hne with hlt | hgt
  · exact ⟨i, n, hlt, heq⟩
  · exact ⟨n, i, hgt, heq.symm⟩

lemma exists_stop (hlist : d.HasList) (h : ¬ d.Revisits capId) :
    ∃ n, d.Passed capId n ∧ ¬ d.Other capId (d.ptr n) := by
  have hsome : ∃ n, ¬ d.Other capId (d.ptr n) := by
    by_contra hall
    obtain ⟨i, n, hlt, heq⟩ := exists_ptr_eq d
    exact h ⟨hlist, i, n, hlt, heq, fun k _ => not_exists_not.mp hall k⟩
  classical
  refine ⟨Nat.find hsome, fun k hk => ?_, Nat.find_spec hsome⟩
  exact not_not.mp (Nat.find_min hsome hk)

end Device

section

variable {bus dev func : ℕ} {capId p : UInt8} {m : Machine} {d : Device}

variable (hd : m.devices (locate bus dev func) = d)

include hd

lemma capabilityRound_other (hp : p.toNat + 1 < 256) (h : d.Other capId p) :
    ∃ m', m'.devices = m.devices ∧
      capabilityRound bus dev func capId (p, m) = .inl (d.nextPtr p, m') := by
  refine ⟨(m.accessed bus dev func p.toNat).accessed bus dev func (p.toNat + 1), rfl, ?_⟩
  have hid := pciReadb_eq bus dev func p.toNat m (by omega)
  have hnext := pciReadb_eq bus dev func (p.toNat + 1) (m.accessed bus dev func p.toNat) hp
  have hdevices : (m.accessed bus dev func p.toNat).devices = m.devices := rfl
  rw [hd] at hid
  rw [hdevices, hd] at hnext
  simp only [capabilityRound, if_neg h.1, hid, if_neg h.2, hnext, Device.nextPtr]

lemma capabilityRound_stop (hp : p.toNat + 1 < 256) (h : ¬ d.Other capId p) :
    ∃ m', capabilityRound bus dev func capId (p, m) = .inr (p, m') := by
  by_cases hzero : p = 0
  · exact ⟨m, by simp only [capabilityRound, hzero, if_true]⟩
  · have hid := pciReadb_eq bus dev func p.toNat m (by omega)
    rw [hd, not_not.mp fun hne => h ⟨hzero, hne⟩] at hid
    refine ⟨m.accessed bus dev func p.toNat, ?_⟩
    simp only [capabilityRound, if_neg hzero, hid, if_true]

lemma reaches_ptr {n : ℕ} (h : d.Passed capId n) :
    ∃ m', m'.devices (locate bus dev func) = d ∧
      Reaches (capabilityRound bus dev func capId) (d.firstPtr, m) (d.ptr n, m') := by
  induction n with
  | zero => exact ⟨m, hd, .refl⟩
  | succ n ih =>
    obtain ⟨m', hd', hreach⟩ := ih fun k hk => h k (Nat.lt_succ_of_lt hk)
    obtain ⟨m'', hdevices, hround⟩ :=
      capabilityRound_other hd' (Device.ptr_toNat_lt n) (h n (Nat.lt_succ_self n))
    rw [← Device.ptr_succ] at hround
    exact ⟨m'', hdevices ▸ hd', hreach.tail hround⟩

lemma not_ends_of_revisits (h : d.Revisits capId) (r : UInt8 × Machine) :
    ¬ Ends (capabilityRound bus dev func capId) (d.firstPtr, m) r := by
  apply not_ends (I := fun s => s.2.devices (locate bus dev func) = d ∧ ∃ k, s.1 = d.ptr k)
    ⟨hd, 0, rfl⟩
  rintro ⟨p, m'⟩ ⟨hd', k, hp⟩
  dsimp only at hp
  obtain ⟨m'', hdevices, hround⟩ :=
    capabilityRound_other hd' (Device.ptr_toNat_lt k) (h.other k)
  rw [← Device.ptr_succ] at hround
  rw [hp]
  exact ⟨_, hround, hdevices ▸ hd', k + 1, rfl⟩

end

/-! ## The result -/

section

variable {bus dev func : ℕ} {capId : UInt8} {m : Machine}

lemma pciFindCapability_of_not_hasList (fuel : ℕ)
    (h : ¬ (m.devices (locate bus dev func)).HasList) :
    pciFindCapability fuel bus dev func capId m = some (0, m.accessed bus dev func 0x06) := by
  have hread := pciReadd_eq bus dev func 0x06 m
  rw [pciReadd] at hread
  rw [Device.HasList, not_not] at h
  simp only [pciFindCapability, pciReadw, hread]
  exact if_pos h

lemma pciFindCapability_of_hasList (fuel : ℕ) (h : (m.devices (locate bus dev func)).HasList) :
    pciFindCapability fuel bus dev func capId m = run (capabilityRound bus dev func capId) fuel
      ((m.devices (locate bus dev func)).firstPtr,
        (m.accessed bus dev func 0x06).accessed bus dev func 0x34) := by
  have hread := pciReadd_eq bus dev func 0x06 m
  have hfirst := pciReadb_eq bus dev func 0x34 (m.accessed bus dev func 0x06) (by decide)
  rw [pciReadd] at hread
  simp only [pciFindCapability, pciReadw, hread, hfirst]
  exact if_neg h

lemma pciFindCapability_eq_none (fuel : ℕ) (h : (m.devices (locate bus dev func)).Revisits capId) :
    pciFindCapability fuel bus dev func capId m = none := by
  rw [pciFindCapability_of_hasList fuel h.1, Option.eq_none_iff_forall_ne_some]
  intro r hrun
  have hd : ((m.accessed bus dev func 0x06).accessed bus dev func 0x34).devices
      (locate bus dev func) = m.devices (locate bus dev func) := rfl
  exact not_ends_of_revisits hd h r (ends_of_run hrun)

end

def Searches (bus dev func : ℕ) (capId : UInt8) (m : Machine) : Prop :=
  ∃ fuel result m', pciFindCapability fuel bus dev func capId m = some (result, m') ∧
    (m.devices (locate bus dev func)).Finds capId result

/-- The search ends, and finds the first entry with the id if there is one,
unless the list leads back to an entry before that. -/
theorem pci_find_capability_iff (bus dev func : ℕ) (capId : UInt8) (m : Machine) :
    Searches bus dev func capId m ↔ ¬ (m.devices (locate bus dev func)).Revisits capId := by
  constructor
  · rintro ⟨fuel, result, m', hsearch, _⟩ hrevisits
    rw [pciFindCapability_eq_none fuel hrevisits] at hsearch
    exact Option.some_ne_none _ hsearch.symm
  · intro hrevisits
    by_cases hlist : (m.devices (locate bus dev func)).HasList
    · obtain ⟨n, hpassed, hstop⟩ := Device.exists_stop hlist hrevisits
      obtain ⟨m', hd, hreach⟩ :=
        reaches_ptr (m := (m.accessed bus dev func 0x06).accessed bus dev func 0x34) rfl hpassed
      obtain ⟨m'', hround⟩ := capabilityRound_stop hd (Device.ptr_toNat_lt n) hstop
      obtain ⟨fuel, hrun⟩ := ends_iff_run.mp (ends_of_reaches hreach (.done hround))
      refine ⟨fuel, _, m'', (pciFindCapability_of_hasList fuel hlist).trans hrun, ?_⟩
      by_cases hzero : (m.devices (locate bus dev func)).ptr n = 0
      · rw [hzero]
        exact .null n hlist hpassed hzero
      · exact .found n hlist hpassed hzero (not_not.mp fun hne => hstop ⟨hzero, hne⟩)
    · exact ⟨0, 0, _, pciFindCapability_of_not_hasList 0 hlist, .noList hlist⟩

def selfLinked : Device where
  regs := update (update (update (fun _ => 0) 1 0x100000) 13 0x40) 16 0x4001
  accept _ old _ := old

lemma revisits_selfLinked : selfLinked.Revisits 0x05 := by
  have hlist : selfLinked.HasList := by
    unfold Device.HasList
    decide
  refine ⟨hlist, 0, 1, Nat.one_pos, by decide, ?_⟩
  intro k hk
  obtain rfl := Nat.lt_one_iff.mp hk
  exact ⟨by decide, by decide⟩

theorem pci_find_capability_never_returns : ¬ ∃ fuel r,
    pciFindCapability fuel 0 3 0 0x05 ⟨fun _ => selfLinked, 0, []⟩ = some r := by
  rintro ⟨fuel, r, hsearch⟩
  have hrevisits :
      ((⟨fun _ => selfLinked, 0, []⟩ : Machine).devices (locate 0 3 0)).Revisits 0x05 :=
    revisits_selfLinked
  rw [pciFindCapability_eq_none fuel hrevisits] at hsearch
  exact Option.some_ne_none r hsearch.symm

end Cottage.Pci
