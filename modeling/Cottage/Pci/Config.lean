import Mathlib.Data.Nat.Bitwise

/-!
# PCI configuration space

The accesses of `pci.c` to configuration registers.  The address of a register
is written to one port, and the other port then stands for that register.  A
function on the bus has registers of 32 bits and decides itself what a write
leaves in them; reading changes nothing.  Every access to the data port is
recorded.
-/

namespace Cottage.Pci

open Function

/-- A function on the bus; `accept` gives the value of a register after a
write, from the value before and the value written. -/
structure Device where
  regs : ℕ → UInt32
  accept : ℕ → UInt32 → UInt32 → UInt32

structure Location where
  bus : ℕ
  device : ℕ
  function : ℕ
  deriving DecidableEq, Repr

structure Probe where
  location : Location
  offset : ℕ
  deriving DecidableEq, Repr

/-- The functions on the bus, the value at the command port, and the registers
accessed so far. -/
structure Machine where
  devices : Location → Device
  command : ℕ
  probes : List Probe

/-! ## The ports -/

def selectedLocation (id : ℕ) : Location where
  bus := (id >>> 16) &&& 0xFF
  device := (id >>> 11) &&& 0x1F
  function := (id >>> 8) &&& 0x07

def outCommand (id : ℕ) (m : Machine) : Machine :=
  { m with command := id }

def Machine.probed (m : Machine) : Machine :=
  { m with probes := m.probes ++ [⟨selectedLocation m.command, m.command &&& 0xFC⟩] }

/-- `ind(DATA_PORT)`; the other widths read a part of it. -/
def inData (m : Machine) : UInt32 × Machine :=
  ((m.devices (selectedLocation m.command)).regs ((m.command &&& 0xFC) / 4), m.probed)

def outData (val : UInt32) (m : Machine) : Machine :=
  let location := selectedLocation m.command
  let register := (m.command &&& 0xFC) / 4
  let device := m.devices location
  let regs := update device.regs register (device.accept register (device.regs register) val)
  { m.probed with devices := update m.devices location { device with regs := regs } }

/-! ## Reading and writing registers -/

/-- `uint32_t id` -/
def configAddress (bus device function registeroffset : ℕ) : ℕ :=
  0x80000000 ||| ((bus &&& 0xFF) <<< 16) ||| ((device &&& 0x1F) <<< 11) |||
    ((function &&& 0x07) <<< 8) ||| (registeroffset &&& 0xFC)

/-- A part of a register, from byte `k` on. -/
def partOf (x : UInt32) (k : ℕ) : ℕ :=
  x.toNat / 2 ^ (8 * k)

def pciReadb (bus device function registeroffset : ℕ) (m : Machine) : UInt8 × Machine :=
  let (x, m) := inData (outCommand (configAddress bus device function registeroffset) m)
  (UInt8.ofNat (partOf x (registeroffset &&& 0x03)), m)

def pciReadw (bus device function registeroffset : ℕ) (m : Machine) : UInt16 × Machine :=
  let (x, m) := inData (outCommand (configAddress bus device function registeroffset) m)
  (UInt16.ofNat (partOf x (registeroffset &&& 0x02)), m)

def pciReadd (bus device function registeroffset : ℕ) (m : Machine) : UInt32 × Machine :=
  inData (outCommand (configAddress bus device function registeroffset) m)

def pciWrited (bus device function registeroffset : ℕ) (val : UInt32) (m : Machine) : Machine :=
  outData val (outCommand (configAddress bus device function registeroffset) m)

/-! ## The address of a register -/

def locate (bus device function : ℕ) : Location where
  bus := bus % 256
  device := device % 32
  function := function % 8

section

variable (bus device function registeroffset : ℕ)

lemma and_fc (n : ℕ) : n &&& 0xFC = n % 256 / 4 * 4 := by
  have hmask : 0xFC = (2 ^ 6 - 1) * 2 ^ 2 := rfl
  have hright : n % 256 / 4 * 4 = n % 2 ^ 8 / 2 ^ 2 * 2 ^ 2 := rfl
  rw [hmask, hright]
  apply Nat.eq_of_testBit_eq
  intro i
  rw [Nat.testBit_and, Nat.testBit_mul_two_pow, Nat.testBit_mul_two_pow,
    Nat.testBit_two_pow_sub_one, Nat.testBit_div_two_pow, Nat.testBit_mod_two_pow]
  grind

lemma or_eq_add {x y : ℕ} (i : ℕ) (hx : 2 ^ i ∣ x) (hy : y < 2 ^ i) : x ||| y = x + y := by
  obtain ⟨a, rfl⟩ := hx
  exact (Nat.two_pow_add_eq_or_of_lt hy a).symm

lemma configAddress_eq : configAddress bus device function registeroffset =
    2 ^ 31 + bus % 256 * 2 ^ 16 + device % 32 * 2 ^ 11 + function % 8 * 2 ^ 8 +
      registeroffset % 256 / 4 * 4 := by
  have hbus : bus &&& 0xFF = bus % 256 := Nat.and_two_pow_sub_one_eq_mod bus 8
  have hdevice : device &&& 0x1F = device % 32 := Nat.and_two_pow_sub_one_eq_mod device 5
  have hfunction : function &&& 0x07 = function % 8 := Nat.and_two_pow_sub_one_eq_mod function 3
  have hfirst : 0x80000000 ||| bus % 256 * 2 ^ 16 = 2 ^ 31 + bus % 256 * 2 ^ 16 :=
    or_eq_add 31 (by omega) (by omega)
  have hsecond := @or_eq_add (2 ^ 31 + bus % 256 * 2 ^ 16) (device % 32 * 2 ^ 11) 16
    (by omega) (by omega)
  have hthird := @or_eq_add (2 ^ 31 + bus % 256 * 2 ^ 16 + device % 32 * 2 ^ 11)
    (function % 8 * 2 ^ 8) 11 (by omega) (by omega)
  rw [configAddress, hbus, hdevice, hfunction, and_fc, Nat.shiftLeft_eq, Nat.shiftLeft_eq,
    Nat.shiftLeft_eq, hfirst, hsecond, hthird, or_eq_add 8 (by omega) (by omega)]

lemma selectedLocation_configAddress :
    selectedLocation (configAddress bus device function registeroffset) =
      locate bus device function := by
  have hbus (n : ℕ) : n &&& 0xFF = n % 256 := Nat.and_two_pow_sub_one_eq_mod n 8
  have hdevice (n : ℕ) : n &&& 0x1F = n % 32 := Nat.and_two_pow_sub_one_eq_mod n 5
  have hfunction (n : ℕ) : n &&& 0x07 = n % 8 := Nat.and_two_pow_sub_one_eq_mod n 3
  simp only [selectedLocation, locate, configAddress_eq, hbus, hdevice, hfunction,
    Nat.shiftRight_eq_div_pow, Location.mk.injEq]
  omega

lemma configAddress_and_fc : configAddress bus device function registeroffset &&& 0xFC =
    registeroffset % 256 / 4 * 4 := by
  rw [and_fc, configAddress_eq]
  omega

end

/-! ## What the accesses do -/

def Machine.accessed (m : Machine) (bus device function registeroffset : ℕ) : Machine where
  devices := m.devices
  command := configAddress bus device function registeroffset
  probes := m.probes ++ [⟨locate bus device function, registeroffset % 256 / 4 * 4⟩]

def Device.byteAt (d : Device) (offset : ℕ) : UInt8 :=
  UInt8.ofNat (partOf (d.regs (offset / 4)) (offset % 4))

section

variable (bus device function registeroffset : ℕ) (m : Machine)

lemma probed_outCommand :
    (outCommand (configAddress bus device function registeroffset) m).probed =
      m.accessed bus device function registeroffset := by
  simp only [outCommand, Machine.probed, Machine.accessed, selectedLocation_configAddress,
    configAddress_and_fc]

lemma pciReadd_eq : pciReadd bus device function registeroffset m =
    ((m.devices (locate bus device function)).regs (registeroffset % 256 / 4),
      m.accessed bus device function registeroffset) := by
  rw [pciReadd, inData, probed_outCommand]
  simp only [outCommand, selectedLocation_configAddress, configAddress_and_fc,
    Nat.mul_div_cancel _ (by decide : 0 < 4)]

lemma pciReadb_eq (h : registeroffset < 256) : pciReadb bus device function registeroffset m =
    ((m.devices (locate bus device function)).byteAt registeroffset,
      m.accessed bus device function registeroffset) := by
  have hand : registeroffset &&& 0x03 = registeroffset % 4 :=
    Nat.and_two_pow_sub_one_eq_mod registeroffset 2
  have hread := pciReadd_eq bus device function registeroffset m
  rw [pciReadd, Nat.mod_eq_of_lt h] at hread
  rw [pciReadb, hread, hand, Device.byteAt]

end

end Cottage.Pci
