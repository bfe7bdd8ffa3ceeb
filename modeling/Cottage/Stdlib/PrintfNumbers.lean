import Cottage.Stdlib.PrintfBounds
import Mathlib.Data.List.GetD
import Mathlib.Data.Nat.Digits.Lemmas

/-!
# Numbers in text

What `vsnprintf_unsigned` and `vsnprintf_signed` write for a number and return
for it.  The digits are those of the number, the highest one first, and for the
lowest number of 64 bits, too, whose magnitude is no signed number.

Behind the digits of a number other than zero the loop writes the byte in front
of its buffer, and counts it.
-/

namespace Cottage.Printf

variable {below : ℕ → UInt8}

def signedNumeral (radix : ℕ) (v : ℤ) : List UInt8 :=
  (if v < 0 then [0x2D] else []) ++ numeral radix false v.natAbs

def digitValue (c : UInt8) : ℕ :=
  if c ≤ 0x39 then c.toNat - 0x30 else c.toNat - 0x61 + 10

def readNumeral (radix : ℕ) (text : List UInt8) : ℕ :=
  text.foldl (fun v c => digitValue c + radix * v) 0

def readSigned (radix : ℕ) (text : List UInt8) : ℤ :=
  if text.head? = some 0x2D then -(readNumeral radix text.tail : ℤ) else readNumeral radix text

lemma hexChars_eq {d : ℕ} (hd : d < 16) : hexChars.getD d 0 = digitChar false d := by
  interval_cases d <;> rfl

lemma digitValue_digitChar {d : ℕ} (hd : d < 16) : digitValue (digitChar false d) = d := by
  interval_cases d <;> rfl

lemma digitChar_ne_minus {d : ℕ} (hd : d < 16) : digitChar false d ≠ 0x2D := by
  interval_cases d <;> decide

lemma readNumeral_digits (radix : ℕ) {digits : List ℕ} (hdigits : ∀ d ∈ digits, d < 16) :
    readNumeral radix (digits.reverse.map (digitChar false)) = Nat.ofDigits radix digits := by
  induction digits with
  | nil => rfl
  | cons d digits ih =>
    obtain ⟨hd, hrest⟩ := List.forall_mem_cons.mp hdigits
    rw [List.reverse_cons, List.map_append, readNumeral, List.foldl_append, Nat.ofDigits_cons,
      ← ih hrest, List.map_singleton, List.foldl_cons, List.foldl_nil, digitValue_digitChar hd]
    rfl

variable {radix : ℕ}

section

variable (hradix : 2 ≤ radix ∧ radix ≤ 16)

include hradix

lemma digits_lt (v : ℕ) : ∀ d ∈ Nat.digits radix v, d < 16 :=
  fun _ hd => (Nat.digits_lt_base hradix.1 hd).trans_le hradix.2

lemma readNumeral_numeral (v : ℕ) : readNumeral radix (numeral radix false v) = v := by
  rw [numeral]
  split_ifs with hzero
  · rw [hzero]
    rfl
  · rw [readNumeral_digits radix (digits_lt hradix v), Nat.ofDigits_digits]

lemma head_numeral (v : ℕ) : (numeral radix false v).head? ≠ some 0x2D := by
  rw [numeral]
  split_ifs with hzero
  · decide
  · intro hhead
    obtain ⟨d, hd, heq⟩ := List.mem_map.mp (List.mem_of_mem_head? hhead)
    exact digitChar_ne_minus (digits_lt hradix v d (List.mem_reverse.mp hd)) heq

lemma readSigned_signedNumeral (v : ℤ) : readSigned radix (signedNumeral radix v) = v := by
  rw [signedNumeral, readSigned]
  by_cases hneg : v < 0
  · rw [if_pos hneg, List.singleton_append, List.head?_cons, if_pos rfl, List.tail_cons,
      readNumeral_numeral hradix]
    omega
  · rw [if_neg hneg, List.nil_append, if_neg (head_numeral hradix _), readNumeral_numeral hradix]
    omega

end

lemma convert_eq_digits (hradix : 2 ≤ radix ∧ radix ≤ 16) (fuel : ℕ) {number : ℕ}
    (hpos : 0 < number) (hlt : number < radix ^ fuel) :
    convert radix fuel number = (Nat.digits radix number).map (digitChar false) := by
  rw [convert_eq_map hradix.1 fuel hpos hlt]
  refine List.map_congr_left fun d hd => hexChars_eq ?_
  exact (Nat.digits_lt_base hradix.1 hd).trans_le hradix.2

lemma printReversed_take (buffer : List UInt8) (b : UInt8) {n : ℕ} (hn : 0 < n) {pos : ℕ}
    (hpos : pos ≤ buffer.length) (out : List UInt8) :
    printReversed buffer b n (pos + 1) out = out ++ (buffer.take pos).reverse ++ [b] := by
  induction pos generalizing out with
  | zero => rw [printReversed, printReversed, if_pos rfl, snputc_pos hn, List.take_zero,
      List.reverse_nil, List.append_nil]
  | succ pos ih =>
    rw [printReversed, if_neg (Nat.succ_ne_zero pos), snputc_pos hn, Nat.add_sub_cancel,
      ih (Nat.le_of_succ_le hpos), List.take_succ_eq_append_getElem hpos, List.reverse_append,
      List.reverse_singleton, List.getD_eq_getElem _ _ hpos]
    simp only [List.append_assoc]

lemma vsnprintfUnsigned_pos (hradix : 2 ≤ radix ∧ radix ≤ 16) {n v : ℕ} (hn : 0 < n)
    (hv : v ≠ 0) (hlt : v < 2 ^ 64) (out : List UInt8) :
    vsnprintfUnsigned below out n v radix =
      (out ++ numeral radix false v ++ [below out.length], (numeral radix false v).length + 1) := by
  have hfuel : v < radix ^ 64 := hlt.trans_le (Nat.pow_le_pow_left hradix.1 64)
  have hbuffer := convert_eq_digits hradix 64 (Nat.pos_of_ne_zero hv) hfuel
  rw [vsnprintfUnsigned, if_neg hv]
  rw [if_pos hn, printReversed_take _ _ hn (Nat.le_refl _), List.take_length, hbuffer,
    ← List.map_reverse, numeral, if_neg hv, List.length_map, List.length_map, List.length_reverse]

lemma vsnprintfUnsigned_zero (out : List UInt8) (n radix : ℕ) :
    vsnprintfUnsigned below out n 0 radix = (out ++ numeral radix false 0, 1) :=
  rfl

/-- The digits of the number and nothing else, and how many there are. -/
def FormatsUnsigned (below : ℕ → UInt8) (out : List UInt8) (n v radix : ℕ) : Prop :=
  vsnprintfUnsigned below out n v radix =
    (out ++ numeral radix false v, (numeral radix false v).length)

/-- The sign and the digits and nothing else, which are read as the number. -/
def FormatsSigned (below : ℕ → UInt8) (out : List UInt8) (n : ℕ) (v : ℤ) (radix : ℕ) : Prop :=
  ∃ text, (vsnprintfSigned below out n v radix).1 = out ++ text ∧ text = signedNumeral radix v ∧
    readSigned radix text = v

section

variable (hradix : 2 ≤ radix ∧ radix ≤ 16)

include hradix

lemma formatsUnsigned_iff {n v : ℕ} (hn : 0 < n) (hlt : v < 2 ^ 64) (out : List UInt8) :
    FormatsUnsigned below out n v radix ↔ v = 0 := by
  rw [FormatsUnsigned]
  constructor
  · intro h
    by_contra hv
    rw [vsnprintfUnsigned_pos hradix hn hv hlt] at h
    exact absurd (Prod.mk.inj h).2 (Nat.succ_ne_self _)
  · rintro rfl
    exact vsnprintfUnsigned_zero out n radix

lemma length_vsnprintfSigned {n : ℕ} {v : ℤ} (hn : 0 < n) (hv : v ≠ 0) (hlt : v.natAbs < 2 ^ 64)
    (out : List UInt8) :
    (vsnprintfSigned below out n v radix).1.length = (out ++ signedNumeral radix v).length + 1 := by
  have habs : v.natAbs ≠ 0 := Int.natAbs_ne_zero.mpr hv
  rw [vsnprintfSigned, signedNumeral]
  by_cases hneg : v < 0
  · have hmagnitude : (-v).toNat = v.natAbs := by omega
    simp only [if_pos hneg, hmagnitude, vsnprintfUnsigned_pos hradix hn habs hlt, snputc_pos hn,
      List.length_append, List.length_singleton]
    omega
  · have hmagnitude : v.toNat = v.natAbs := by omega
    simp only [if_neg hneg, hmagnitude, vsnprintfUnsigned_pos hradix hn habs hlt, List.nil_append,
      List.length_append, List.length_singleton]

lemma formatsSigned_iff {n : ℕ} {v : ℤ} (hn : 0 < n) (hlt : v.natAbs < 2 ^ 64)
    (out : List UInt8) : FormatsSigned below out n v radix ↔ v = 0 := by
  rw [FormatsSigned]
  constructor
  · rintro ⟨text, hwritten, htext, -⟩
    by_contra hv
    have hlength := @length_vsnprintfSigned below radix hradix n v hn hv hlt out
    rw [hwritten, htext] at hlength
    exact absurd hlength (Nat.succ_ne_self _).symm
  · rintro rfl
    exact ⟨_, rfl, rfl, readSigned_signedNumeral hradix 0⟩

end

/-- Zero is the only number that is formatted as it should be, with or without a
sign. -/
theorem number_formatting_iff {n : ℕ} (hradix : radix = 8 ∨ radix = 10 ∨ radix = 16)
    (out : List UInt8) :
    (∀ v : BitVec 64, (Nat.digits radix v.toNat).length < n →
        (FormatsUnsigned below out n v.toNat radix ↔ v = 0)) ∧
      ∀ v : BitVec 64, (Nat.digits radix v.toInt.natAbs).length < n →
        (FormatsSigned below out n v.toInt radix ↔ v = 0) := by
  have hradix' : 2 ≤ radix ∧ radix ≤ 16 := by omega
  constructor
  · intro v hn
    rw [formatsUnsigned_iff hradix' (Nat.zero_lt_of_lt hn) v.isLt, ← BitVec.toNat_inj]
    rfl
  · intro v hn
    have hlow := v.le_toInt
    have hhigh := v.toInt_lt
    have hlt : v.toInt.natAbs < 2 ^ 64 := by omega
    rw [formatsSigned_iff hradix' (Nat.zero_lt_of_lt hn) hlt, ← BitVec.toInt_inj]
    rfl

theorem number_formatting_zero :
    FormatsUnsigned (fun _ => 0xFF) [] 16 0 10 ∧ FormatsSigned (fun _ => 0xFF) [] 16 0 10 := by
  obtain ⟨hunsigned, hsigned⟩ :=
    @number_formatting_iff (fun _ => 0xFF) 10 16 (.inr (.inl rfl)) []
  exact ⟨(hunsigned 0 (by decide)).mpr rfl, (hsigned 0 (by decide)).mpr rfl⟩

/-- The text `4`, as in the boot log, and `-8`, each with a byte more. -/
theorem number_formatting_wrong :
    vsnprintfUnsigned (fun _ => 0xFF) [] 16 4 10 = ([0x34, 0xFF], 2) ∧
      ¬ FormatsUnsigned (fun _ => 0xFF) [] 16 4 10 ∧
      vsnprintfSigned (fun _ => 0xFF) [] 16 (-8) 10 = ([0x2D, 0x38, 0xFF], 3) ∧
      ¬ FormatsSigned (fun _ => 0xFF) [] 16 (-8) 10 := by
  refine ⟨by decide, ?_, by decide, ?_⟩
  · rw [formatsUnsigned_iff (by decide) (by decide) (by decide)]
    decide
  · rw [formatsSigned_iff (by decide) (by decide) (by decide)]
    decide

end Cottage.Printf
