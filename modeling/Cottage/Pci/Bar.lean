import Cottage.Pci.Config

/-!
# Base address registers

`pci_get_bar` finds out what a base address register holds and how large its
region is: all ones are written to the register, what can be read back shows
which bits of the address are writable, and the old value is written again.

The function multiplies an index of words by four, so that its pointer into the
header of BAR `i` is at register `4 + 4 * i` instead of `4 + i`, and passes the
offset `4 * i` from the beginning of the configuration space to `read_bar`.
-/

namespace Cottage.Pci

inductive BarType
  | none
  | mmio64
  | mmio32
  | io
  deriving DecidableEq, Repr

/-- `pci_bar_t`; a field that was not set is missing. -/
structure Bar where
  type : BarType
  memAddress : Option UInt64
  ioAddress : Option UInt16
  size : Option UInt64
  deriving DecidableEq, Repr

/-- The value in `mask` afterwards. -/
def readBar (bus device function offset : ℕ) (m : Machine) : UInt32 × Machine :=
  let (data, m) := pciReadd bus device function offset m
  let m := pciWrited bus device function offset 0xffffffff m
  let (mask, m) := pciReadd bus device function offset m
  (mask, pciWrited bus device function offset data m)

def headerWord (bus device function index : ℕ) (m : Machine) : UInt32 :=
  (m.devices (locate bus device function)).regs (4 + index)

/-- The pointer `bar0` leads to the header of the function that is probed. -/
def pciGetBar (barNum bus device function : ℕ) (m : Machine) : Bar × Machine :=
  let barPtr := headerWord bus device function (barNum * 4)
  if barPtr m ≠ 0 then
    let (mask, m) := readBar bus device function (barNum * 4) m
    if barPtr m &&& 0x04 ≠ 0 then
      let barPtrHigh := headerWord bus device function (barNum * 4)
      let (maskHigh, m) := readBar bus device function (barNum * 4 + 0x4) m
      let high := (barPtrHigh m &&& ~~~0xf).toUInt64 <<< 32
      ({ type := .mmio64
         memAddress := some (high ||| (barPtr m &&& ~~~0xf).toUInt64)
         ioAddress := .none
         size := some ((maskHigh.toUInt64 <<< 32 ||| (mask &&& ~~~0xf).toUInt64) + 1) }, m)
    else if barPtr m &&& 0x01 ≠ 0 then
      ({ type := .io
         memAddress := .none
         ioAddress := some (barPtr m &&& ~~~0x3).toUInt16
         size := some (~~~(mask &&& ~~~0x3) + 1).toUInt16.toUInt64 }, m)
    else
      ({ type := .mmio32
         memAddress := some ((barPtr m).toUInt64 &&& ~~~0xf)
         ioAddress := .none
         size := some (~~~(mask &&& ~~~0xf) + 1).toUInt64 }, m)
  else (⟨.none, .none, .none, .none⟩, m)

namespace Device

def allOnes (d : Device) (register : ℕ) : UInt32 :=
  d.accept register (d.regs register) 0xffffffff

end Device

def lowestBit (x : UInt64) : UInt64 :=
  x &&& (0 - x)

/-- The type, the address and the size that register `n` of a function stands
for. -/
structure Decodes (d : Device) (n : ℕ) (bar : Bar) : Prop where
  none : d.regs n = 0 → bar.type = .none
  io : d.regs n &&& 1 ≠ 0 → bar.type = .io ∧
    bar.ioAddress.map UInt16.toNat = some (d.regs n &&& ~~~0x3).toNat ∧
    bar.size = some (lowestBit (d.allOnes n &&& ~~~0x3).toUInt64)
  mmio64 : d.regs n &&& 7 = 4 → bar.type = .mmio64 ∧
    bar.memAddress = some ((d.regs (n + 1)).toUInt64 <<< 32 ||| (d.regs n &&& ~~~0xf).toUInt64) ∧
    bar.size = some (lowestBit
      ((d.allOnes (n + 1)).toUInt64 <<< 32 ||| (d.allOnes n &&& ~~~0xf).toUInt64))
  mmio32 : d.regs n ≠ 0 → d.regs n &&& 1 = 0 → d.regs n &&& 7 ≠ 4 → bar.type = .mmio32 ∧
    bar.memAddress = some (d.regs n &&& ~~~0xf).toUInt64 ∧
    bar.size = some (lowestBit (d.allOnes n &&& ~~~0xf).toUInt64)

/-- The registers of BAR `i`: one, or two for a 64-bit region. -/
def BarOffset (d : Device) (i offset : ℕ) : Prop :=
  offset = 0x10 + 4 * i ∨ (d.regs (4 + i) &&& 7 = 4 ∧ offset = 0x14 + 4 * i)

/-- BAR `i` is decoded, only its registers are accessed, and all registers are
left as they were. -/
structure BarRead (location : Location) (i : ℕ) (m m' : Machine) (bar : Bar) : Prop where
  decodes : Decodes (m.devices location) (4 + i) bar
  probes : ∃ probes, m'.probes = m.probes ++ probes ∧ ∀ p ∈ probes,
    p.location = location ∧ BarOffset (m.devices location) i p.offset
  kept : ∀ other register, (m'.devices other).regs register = (m.devices other).regs register

/-! ## When it is right -/

section

variable (bus device function offset : ℕ) (m : Machine)

lemma probes_pciReadd : (pciReadd bus device function offset m).2.probes =
    m.probes ++ [⟨locate bus device function, offset % 256 / 4 * 4⟩] := by
  rw [pciReadd_eq, Machine.accessed]

lemma probes_pciWrited (val : UInt32) : (pciWrited bus device function offset val m).probes =
    m.probes ++ [⟨locate bus device function, offset % 256 / 4 * 4⟩] := by
  have hprobed := congrArg Machine.probes (probed_outCommand bus device function offset m)
  exact hprobed

lemma probes_readBar : (readBar bus device function offset m).2.probes =
    m.probes ++ List.replicate 4 ⟨locate bus device function, offset % 256 / 4 * 4⟩ := by
  simp only [readBar, probes_pciWrited, probes_pciReadd, List.append_assoc, List.cons_append,
    List.nil_append, List.replicate]

variable {bus device function m} {barNum : ℕ}

lemma pciGetBar_of_eq_zero (h : headerWord bus device function (barNum * 4) m = 0) :
    pciGetBar barNum bus device function m = (⟨.none, .none, .none, .none⟩, m) := by
  rw [pciGetBar]
  exact if_neg (not_not.mpr h)

lemma probes_pciGetBar (h : headerWord bus device function (barNum * 4) m ≠ 0) :
    ∃ rest, (pciGetBar barNum bus device function m).2.probes =
      m.probes ++ ⟨locate bus device function, barNum * 4 % 256 / 4 * 4⟩ :: rest := by
  have hfirst := probes_readBar bus device function (barNum * 4) m
  have hsecond := probes_readBar bus device function (barNum * 4 + 0x4)
    (readBar bus device function (barNum * 4) m).2
  rw [List.replicate_succ] at hfirst
  rw [hfirst, List.append_assoc, List.cons_append] at hsecond
  simp only [pciGetBar, if_pos h]
  split_ifs
  · exact ⟨_, hsecond⟩
  · exact ⟨_, hfirst⟩
  · exact ⟨_, hfirst⟩

lemma BarRead.headerWord_eq_zero (i : Fin 6)
    (h : BarRead (locate bus device function) i m (pciGetBar i bus device function m).2
      (pciGetBar i bus device function m).1) :
    headerWord bus device function (i * 4) m = 0 := by
  by_contra hne
  obtain ⟨rest, hrest⟩ := probes_pciGetBar hne
  obtain ⟨probes, hprobes, hall⟩ := h.probes
  obtain rfl := List.append_cancel_left (hprobes.symm.trans hrest)
  rcases (hall _ (.head _)).2 with hoffset | ⟨_, hoffset⟩
  · dsimp only at hoffset
    omega
  · dsimp only at hoffset
    omega

end

lemma Decodes.eq_zero {d : Device} {n : ℕ} {bar : Bar} (h : Decodes d n bar)
    (hbar : bar.type = .none) : d.regs n = 0 := by
  by_contra hne
  by_cases hio : d.regs n &&& 1 = 0
  · by_cases hmmio : d.regs n &&& 7 = 4
    · cases hbar.symm.trans (h.mmio64 hmmio).1
    · cases hbar.symm.trans (h.mmio32 hne hio hmmio).1
  · cases hbar.symm.trans (h.io hio).1

lemma decodes_none {d : Device} {n : ℕ} (h : d.regs n = 0) :
    Decodes d n ⟨.none, .none, .none, .none⟩ where
  none _ := rfl
  io hio := absurd (by rw [h]; decide) hio
  mmio64 hmmio := absurd hmmio (by rw [h]; decide)
  mmio32 hne := absurd h hne

/-- A BAR is read right only where it and the register at four times its number
are zero. -/
theorem pci_get_bar_iff (i : Fin 6) (bus device function : ℕ) (m : Machine) :
    BarRead (locate bus device function) i m (pciGetBar i bus device function m).2
        (pciGetBar i bus device function m).1 ↔
      (m.devices (locate bus device function)).regs (4 + i) = 0 ∧
        (m.devices (locate bus device function)).regs (4 + 4 * i) = 0 := by
  constructor
  · intro h
    have hzero := h.headerWord_eq_zero
    rw [pciGetBar_of_eq_zero hzero] at h
    rw [headerWord, Nat.mul_comm] at hzero
    exact ⟨h.decodes.eq_zero rfl, hzero⟩
  · rintro ⟨hbar, hzero⟩
    have hword : headerWord bus device function (i * 4) m = 0 := by
      rwa [headerWord, Nat.mul_comm]
    rw [pciGetBar_of_eq_zero hword]
    refine ⟨decodes_none hbar, ⟨[], (List.append_nil _).symm, ?_⟩, fun _ _ => rfl⟩
    exact nofun

def networkCard : Device where
  regs := Function.update (Function.update (fun _ => 0) 0 0x100e8086) 4 0xfebc0000
  accept n old val := if n = 4 then val &&& 0xfffe0000 else old

/-- The size is computed from the vendor and the device, and the registers
accessed are those, but not BAR0. -/
theorem pci_get_bar_probes_vendor :
    (pciGetBar 0 0 3 0 ⟨fun _ => networkCard, 0, []⟩).1 =
        ⟨.mmio32, some 0xfebc0000, none, some 0xeff17f80⟩ ∧
      lowestBit (networkCard.allOnes 4 &&& ~~~0xf).toUInt64 = 0x20000 ∧
      (pciGetBar 0 0 3 0 ⟨fun _ => networkCard, 0, []⟩).2.probes =
        List.replicate 4 ⟨⟨0, 3, 0⟩, 0⟩ := by
  refine ⟨by decide +kernel, by decide +kernel, by decide +kernel⟩

end Cottage.Pci
