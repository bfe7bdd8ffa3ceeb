import Cottage.Initramfs.Loader
import Mathlib.Data.List.Infix

/-!
# Archives

What a ustar archive in memory is, for archives of directories and regular
files: a header and the data of each member in blocks of 512 bytes, and at the
end a block without the signature.  Numbers are in octal, after blanks and
before blanks and zeros.  The name is in its field alone, the one for what
comes before it being empty.
-/

namespace Cottage.Initramfs

open ByteMemory Mem Separated Vfs

structure Member where
  name : Name
  mode : ℕ
  dir : Bool
  data : List UInt8
  deriving DecidableEq, Repr

def Member.path (m : Member) : Path :=
  components slash m.name

def Member.typeBits (m : Member) : ℕ :=
  if m.dir then statIfdir else statIfreg

def Member.filetype (m : Member) : UInt8 :=
  if m.dir then 0x35 else 0x30

def octalValue (digits : List ℕ) : ℕ :=
  digits.foldl (fun value d => value * 8 + d) 0

def digitByte (d : ℕ) : UInt8 :=
  UInt8.ofNat (0x30 + d)

def OctalField (field : List UInt8) (value : ℕ) : Prop :=
  ∃ blanks digits ending, field = blanks ++ (digits.map digitByte ++ ending) ∧
    (∀ c ∈ blanks, c = 0x20) ∧ (∀ d ∈ digits, d < 8) ∧ (∀ c ∈ ending, c = 0 ∨ c = 0x20) ∧
    octalValue digits = value

structure MemberAt (mem : Memory) (header : ℕ) (m : Member) : Prop where
  name : slice mem header (m.name.length + 1) = m.name ++ [0]
  mode : OctalField (slice mem (header + 100) 8) m.mode
  size : OctalField (slice mem (header + 124) 12) m.data.length
  filetype : mem (header + 156) = m.filetype
  signature : slice mem (header + 257) 5 = signature
  noPrefix : mem (header + 345) = 0
  data : slice mem (header + 512) m.data.length = m.data

def Member.blocks (m : Member) : ℕ :=
  1 + (m.data.length + 511) / 512

def ArchiveAt (mem : Memory) : ℕ → List Member → Prop
  | header, [] => slice mem (header + 257) 5 ≠ signature
  | header, m :: members =>
    MemberAt mem header m ∧ ArchiveAt mem (header + 512 * m.blocks) members

structure Member.Valid (m : Member) : Prop where
  length_pos : 1 ≤ m.name.length
  length_le : m.name.length ≤ 99
  terminated : 0 ∉ m.name
  no_alias : ∀ c ∈ m.path, ¬ Alias c
  permissions : m.mode < 0o10000
  data : m.data = [] ↔ m.dir = true

def Member.PlacedIn (m : Member) (members : List Member) : Prop :=
  m.path.dropLast = [] ∨ ∃ d ∈ members, d.dir = true ∧ d.path = m.path.dropLast

structure WellFormed (members : List Member) : Prop where
  valid : ∀ m ∈ members, m.Valid
  distinct : (members.map Member.path).Nodup
  parents : ∀ before m after, members = before ++ m :: after → m.PlacedIn before

lemma octalDigit_blank (value : ℕ) : octalDigit value 0x20 = value :=
  if_neg (by decide)

lemma foldl_octalDigit_blanks {blanks : List UInt8} (hblanks : ∀ c ∈ blanks, c = 0x20)
    (value : ℕ) : blanks.foldl octalDigit value = value := by
  induction blanks with
  | nil => rfl
  | cons c blanks ih =>
    rw [List.foldl_cons, hblanks c List.mem_cons_self, octalDigit_blank]
    exact ih fun c hc => hblanks c (List.mem_cons_of_mem _ hc)

lemma toNat_digitByte {d : ℕ} (hd : d < 8) : (digitByte d).toNat = 0x30 + d := by
  rw [digitByte, UInt8.toNat_ofNat']
  omega

lemma digitByte_ne_zero {d : ℕ} (hd : d < 8) : digitByte d ≠ 0 := by
  intro h
  have hnat := toNat_digitByte hd
  rw [h, UInt8.toNat_zero] at hnat
  omega

lemma octalDigit_digitByte {value d : ℕ} (hd : d < 8) (hvalue : value * 8 + d < 2 ^ 64) :
    octalDigit value (digitByte d) = value * 8 + d := by
  have hnat := toNat_digitByte hd
  have hrange : 0x30 ≤ digitByte d ∧ digitByte d ≤ 0x37 := by
    constructor
    · rw [UInt8.le_iff_toNat_le, hnat]
      exact Nat.le_add_right _ _
    · rw [UInt8.le_iff_toNat_le, hnat]
      have hle : 0x30 + d ≤ 0x37 := by omega
      exact hle
  rw [octalDigit, if_pos hrange, hnat, Nat.add_sub_cancel_left, Nat.mod_eq_of_lt hvalue]

lemma foldl_octalDigit_digits {digits : List ℕ} {value k : ℕ} (hdigits : ∀ d ∈ digits, d < 8)
    (hvalue : value < 8 ^ k) (hk : k + digits.length ≤ 20) :
    (digits.map digitByte).foldl octalDigit value =
        digits.foldl (fun value d => value * 8 + d) value ∧
      digits.foldl (fun value d => value * 8 + d) value < 8 ^ (k + digits.length) := by
  induction digits generalizing value k with
  | nil => exact ⟨rfl, hvalue⟩
  | cons d digits ih =>
    have hd := hdigits d List.mem_cons_self
    rw [List.length_cons] at hk
    have hnext : value * 8 + d < 8 ^ (k + 1) := by
      rw [pow_succ]
      omega
    have hwrap : (8 : ℕ) ^ (k + 1) ≤ 2 ^ 64 :=
      (Nat.pow_le_pow_right (by decide) (by omega : k + 1 ≤ 20)).trans (by decide)
    rw [List.map_cons, List.foldl_cons, List.foldl_cons, List.length_cons,
      octalDigit_digitByte hd (by omega), Nat.add_comm digits.length, ← Nat.add_assoc]
    exact ih (fun d hd => hdigits d (List.mem_cons_of_mem _ hd)) hnext (by omega)

lemma OctalField.octal2int {field : List UInt8} {value : ℕ} (h : OctalField field value)
    (hlength : field.length ≤ 20) :
    Initramfs.octal2int field = value ∧ value < 8 ^ field.length := by
  obtain ⟨blanks, digits, ending, rfl, hblanks, hdigits, hending, rfl⟩ := h
  rw [List.length_append, List.length_append, List.length_map] at hlength ⊢
  obtain ⟨hfold, hlt⟩ := @foldl_octalDigit_digits digits 0 0 hdigits (by decide) (by omega)
  have hsome : ∀ c ∈ blanks, decide (c ≠ 0) = true := by
    intro c hc
    rw [hblanks c hc]
    decide
  have hsome' : ∀ c ∈ digits.map digitByte, decide (c ≠ 0) = true := by
    intro c hc
    obtain ⟨d, hd, rfl⟩ := List.mem_map.mp hc
    exact decide_eq_true (digitByte_ne_zero (hdigits d hd))
  have hrest : ∀ c ∈ ending.takeWhile (fun c => decide (c ≠ 0)), c = 0x20 := by
    intro c hc
    have hne : c ≠ 0 := of_decide_eq_true (List.mem_takeWhile_imp (p := fun c => decide (c ≠ 0)) hc)
    exact (hending c ((List.takeWhile_sublist _).subset hc)).resolve_left hne
  constructor
  · rw [Initramfs.octal2int, List.takeWhile_append_of_pos hsome,
      List.takeWhile_append_of_pos hsome', List.foldl_append, List.foldl_append,
      foldl_octalDigit_blanks hblanks, hfold, foldl_octalDigit_blanks hrest]
    rfl
  · rw [Nat.zero_add] at hlt
    exact hlt.trans_le (Nat.pow_le_pow_right (by decide) (by omega))

lemma length_slice (mem : Memory) (p n : ℕ) : (slice mem p n).length = n := by
  rw [slice, List.length_map, List.length_range]

lemma slice_succ (mem : Memory) (p n : ℕ) :
    slice mem p (n + 1) = mem p :: slice mem (p + 1) n := by
  rw [slice, List.range_succ_eq_map, List.map_cons, List.map_map, slice]
  congr 1
  apply List.map_congr_left
  intro i _
  exact congrArg mem (by omega)

lemma cString_of_slice {mem : Memory} {name : Name} {p n : ℕ} (hzero : 0 ∉ name)
    (hname : slice mem p (name.length + 1) = name ++ [0]) (hlength : name.length < n) :
    cString mem p n = some name := by
  induction name generalizing p n with
  | nil =>
    obtain ⟨n, rfl⟩ : ∃ k, n = k + 1 := ⟨n - 1, by omega⟩
    rw [List.length_nil, slice_succ, List.nil_append] at hname
    rw [cString, if_pos (List.cons.inj hname).1]
  | cons c name ih =>
    rw [List.length_cons] at hlength
    obtain ⟨n, rfl⟩ : ∃ k, n = k + 1 := ⟨n - 1, by omega⟩
    rw [List.length_cons, slice_succ, List.cons_append] at hname
    obtain ⟨hc, hrest⟩ := List.cons.inj hname
    rw [List.mem_cons, not_or] at hzero
    rw [cString, hc, if_neg (Ne.symm hzero.1), ih hzero.2 hrest (by omega), Option.map_some]

lemma OctalField.step_eq {mem : Memory} {p size : ℕ} (h : OctalField (slice mem p 12) size) :
    512 + alignUp size 512 = 512 * (1 + (size + 511) / 512) := by
  have hlt := (h.octal2int (by rw [length_slice]; decide)).2
  rw [length_slice] at hlt
  have hwrap : size + (512 - 1) < 2 ^ 64 := by
    omega
  rw [alignUp, Nat.mod_eq_of_lt hwrap]
  omega

/-! ## Headers -/

namespace MemberAt

variable {mem : Memory} {header : ℕ} {m : Member}

variable (h : MemberAt mem header m)

include h

lemma readName (hvalid : m.Valid) : cString mem header maxLongFilenameLen = some m.name := by
  apply cString_of_slice hvalid.terminated h.name
  have hlength := hvalid.length_le
  rw [maxLongFilenameLen]
  omega

lemma readMode : octal2int (slice mem (header + 100) 8) = m.mode :=
  (h.mode.octal2int (by rw [length_slice]; decide)).1

lemma readSize : octal2int (slice mem (header + 124) 12) = m.data.length :=
  (h.size.octal2int (by rw [length_slice]; decide)).1

lemma readFiletype :
    Filetype.ofByte (mem (header + 156)) = if m.dir then .directory else .regularFile := by
  rw [h.filetype, Member.filetype]
  cases m.dir <;> rfl

lemma next_eq : 512 + alignUp m.data.length 512 = 512 * m.blocks :=
  h.size.step_eq

end MemberAt

lemma Member.Valid.not_isSkipped {m : Member} (hvalid : m.Valid) :
    isSkipped m.name = false := by
  have hcases : ∀ name : Name, isSkipped name = true →
      name = [] ∨ name = [0x2E] ∨ name = [0x2E, slash] := by
    intro name h
    have hmem := (List.mem_inits _ _).mpr (List.isPrefixOf_iff_prefix.mp h)
    simpa only [List.inits_cons, List.inits, List.map_cons, List.map_nil, List.mem_cons,
      List.not_mem_nil, or_false] using hmem
  by_contra hskip
  have halias := hvalid.no_alias dot
  rcases hcases m.name (Bool.eq_true_of_not_eq_false hskip) with h | h | h
  · have hpos := hvalid.length_pos
    rw [h] at hpos
    cases hpos
  · rw [Member.path, h] at halias
    exact halias (by decide) (.inl rfl)
  · rw [Member.path, h] at halias
    exact halias (by decide) (.inl rfl)

end Cottage.Initramfs
