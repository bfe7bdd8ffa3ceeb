import Cottage.Stdlib.PrintfItems

/-!
# What `vsnprintf` writes

As long as the room lasts and no number other than zero is printed, the machine
writes the expansion and counts its bytes.  One byte too many wraps the room,
and the next one, the terminating byte at the latest, goes behind the end of the
buffer.  A number other than zero is followed by a byte that does not belong to
it.
-/

namespace Cottage.Printf

variable (below : ℕ → UInt8)

def finish (w : Writer) : List UInt8 :=
  snputc w.1 w.2 0

variable {n radix : ℕ} {out : List UInt8} {w : Writer} {items : List Item}

lemma decrease_of_le {count : ℕ} (hn : n < 2 ^ 64) (hle : count ≤ n) :
    decrease n count = n - count := by
  rw [decrease]
  omega

lemma decrease_zero_one : decrease 0 1 = 2 ^ 64 - 1 := by
  decide

lemma snputc_pos {c : UInt8} (hn : 0 < n) : snputc out n c = out ++ [c] :=
  if_pos hn

lemma snputc_zero (out : List UInt8) (c : UInt8) : snputc out 0 c = out :=
  if_neg (lt_irrefl 0)

lemma isPrefix_snputc (out : List UInt8) (n : ℕ) (c : UInt8) : out <+: snputc out n c := by
  rw [snputc]
  split_ifs
  · exact List.prefix_append _ _
  · exact List.prefix_rfl

lemma isPrefix_printReversed (buffer : List UInt8) (b : UInt8) (n pos : ℕ) (out : List UInt8) :
    out <+: printReversed buffer b n pos out := by
  induction pos generalizing out with
  | zero => exact List.prefix_rfl
  | succ pos ih => exact (isPrefix_snputc _ _ _).trans (ih _)

lemma isPrefix_vsnprintfUnsigned (out : List UInt8) (n number radix : ℕ) :
    out <+: (vsnprintfUnsigned below out n number radix).1 := by
  rw [vsnprintfUnsigned]
  split_ifs
  · exact isPrefix_snputc out 1 0x30
  · exact isPrefix_printReversed _ _ _ _ _
  · exact List.prefix_rfl

lemma isPrefix_foldl_putc (s : List UInt8) (w : Writer) : w.1 <+: (s.foldl putc w).1 := by
  induction s generalizing w with
  | nil => exact List.prefix_rfl
  | cons c s ih => exact (isPrefix_snputc w.1 w.2 c).trans (ih (putc w c))

lemma isPrefix_emit (w : Writer) (item : Item) : w.1 <+: (emit below w item).1 := by
  cases item with
  | text s => exact isPrefix_foldl_putc s w
  | number negative magnitude radix upper =>
    rw [emit, putNumber]
    split_ifs
    · exact (isPrefix_snputc _ _ _).trans (isPrefix_vsnprintfUnsigned below _ _ _ _)
    · exact isPrefix_vsnprintfUnsigned below _ _ _ _

lemma isPrefix_foldl_emit (items : List Item) (w : Writer) :
    w.1 <+: (items.foldl (emit below) w).1 := by
  induction items generalizing w with
  | nil => exact List.prefix_rfl
  | cons item items ih => exact (isPrefix_emit below w item).trans (ih _)

lemma isPrefix_finish (items : List Item) (w : Writer) :
    w.1 <+: finish (items.foldl (emit below) w) :=
  (isPrefix_foldl_emit below items w).trans (isPrefix_snputc _ _ _)

lemma convert_eq_map (hradix : 2 ≤ radix) (fuel : ℕ) {number : ℕ} (hpos : 0 < number)
    (hlt : number < radix ^ fuel) :
    convert radix fuel number = (Nat.digits radix number).map (hexChars.getD · 0) := by
  induction fuel generalizing number with
  | zero =>
    rw [pow_zero] at hlt
    omega
  | succ fuel ih =>
    rw [convert, Nat.digits_def' hradix hpos, List.map_cons]
    congr 1
    split_ifs with hrest
    · apply ih hrest
      exact Nat.div_lt_of_lt_mul (by rwa [Nat.mul_comm])
    · have hzero : number / radix = 0 := Nat.eq_zero_of_not_pos hrest
      rw [hzero, Nat.digits_zero]
      rfl

lemma printReversed_eq (buffer : List UInt8) (b : UInt8) (hn : 0 < n) (pos : ℕ) (out : List UInt8) :
    ∃ digits : List UInt8, digits.length = pos ∧
      printReversed buffer b n (pos + 1) out = out ++ digits ++ [b] := by
  induction pos generalizing out with
  | zero =>
    refine ⟨[], rfl, ?_⟩
    rw [printReversed, printReversed, if_pos rfl, snputc_pos hn, List.append_nil]
  | succ pos ih =>
    rw [printReversed, if_neg (Nat.succ_ne_zero pos), snputc_pos hn]
    obtain ⟨digits, hlength, heq⟩ := ih (out ++ [buffer.getD (pos + 1 - 1) 0])
    refine ⟨buffer.getD (pos + 1 - 1) 0 :: digits, by rw [List.length_cons, hlength], ?_⟩
    rw [heq, List.append_assoc out, List.singleton_append]

lemma putNumber_pos {magnitude : ℕ} (hw : 0 < w.2) (hpos : magnitude ≠ 0)
    (hlt : magnitude < 2 ^ 64) (hradix : 2 ≤ radix) (negative upper : Bool) :
    ∃ text b, text.length = (Item.number negative magnitude radix upper).expansion.length ∧
      (∃ i, b = below i) ∧ (putNumber below w negative magnitude radix).1 = w.1 ++ text ++ [b] := by
  have hfuel : magnitude < radix ^ 64 := hlt.trans_le (Nat.pow_le_pow_left hradix 64)
  have hlength := congrArg List.length
    (convert_eq_map hradix 64 (Nat.pos_of_ne_zero hpos) hfuel)
  rw [List.length_map] at hlength
  have hnumber (out : List UInt8) : ∃ digits : List UInt8,
      digits.length = (Nat.digits radix magnitude).length ∧
        (vsnprintfUnsigned below out w.2 magnitude radix).1 =
          out ++ digits ++ [below out.length] := by
    obtain ⟨digits, hdigits, heq⟩ := printReversed_eq (convert radix 64 magnitude)
      (below out.length) hw (convert radix 64 magnitude).length out
    refine ⟨digits, hdigits.trans hlength, ?_⟩
    rw [vsnprintfUnsigned, if_neg hpos]
    rw [if_pos hw]
    exact heq
  have hnumeral : (numeral radix upper magnitude).length = (Nat.digits radix magnitude).length := by
    rw [numeral, if_neg hpos, List.length_map, List.length_reverse]
  cases negative with
  | false =>
    obtain ⟨digits, hdigits, heq⟩ := hnumber w.1
    refine ⟨digits, _, ?_, ⟨_, rfl⟩, heq⟩
    rw [hdigits, ← hnumeral]
    rfl
  | true =>
    obtain ⟨digits, hdigits, heq⟩ := hnumber (w.1 ++ [0x2D])
    refine ⟨0x2D :: digits, below (w.1 ++ [0x2D]).length, ?_, ⟨_, rfl⟩, ?_⟩
    · rw [List.length_cons, hdigits, ← hnumeral]
      simp only [Item.expansion, if_true, List.length_append, List.length_singleton]
      omega
    · rw [putNumber, if_pos rfl, snputc_pos hw]
      rw [heq, List.append_assoc w.1, List.singleton_append]

lemma putNumber_zero {negative : Bool} {magnitude : ℕ} (hpos : magnitude ≠ 0) :
    putNumber below (out, 0) negative magnitude radix =
      (out, if negative then 2 ^ 64 - 1 else 0) := by
  have hnumber (out : List UInt8) :
      vsnprintfUnsigned below out 0 magnitude radix = (out, 0) := by
    rw [vsnprintfUnsigned, if_neg hpos]
    rfl
  cases negative with
  | false =>
    simp only [putNumber, Bool.false_eq_true, if_false, hnumber]
    rfl
  | true =>
    simp only [putNumber, if_true, snputc_zero, hnumber]
    rfl

def Item.Plain : Item → Prop
  | .text _ => True
  | .number _ magnitude _ _ => magnitude = 0

instance : DecidablePred Item.Plain
  | .text _ => inferInstanceAs (Decidable True)
  | .number _ _ _ _ => inferInstanceAs (Decidable (_ = _))

def putUnit (w : Writer) (u : UInt8 × Bool) : Writer :=
  (if u.2 then w.1 ++ [u.1] else snputc w.1 w.2 u.1, decrease w.2 1)

def Item.units : Item → List (UInt8 × Bool)
  | .text s => s.map fun c => (c, false)
  | .number _ _ _ _ => [(0x30, true)]

lemma emit_eq_units {item : Item} (hplain : item.Plain) (hsmall : item.Small) (w : Writer) :
    emit below w item = item.units.foldl putUnit w ∧ item.units.map Prod.fst = item.expansion := by
  cases item with
  | text s =>
    refine ⟨?_, ?_⟩
    · rw [Item.units, List.foldl_map]
      rfl
    · rw [Item.units, List.map_map]
      exact List.map_id s
  | number negative magnitude radix upper =>
    obtain rfl : magnitude = 0 := hplain
    have hsign : negative = false := by
      by_contra hneg
      exact hsmall.2.2 (by simpa using hneg) rfl
    subst hsign
    exact ⟨rfl, rfl⟩

lemma foldl_emit_eq_units (hplain : ∀ item ∈ items, item.Plain)
    (hsmall : ∀ item ∈ items, item.Small) (w : Writer) :
    items.foldl (emit below) w = (items.flatMap Item.units).foldl putUnit w ∧
      (items.flatMap Item.units).map Prod.fst = expansion items := by
  induction items generalizing w with
  | nil => exact ⟨rfl, rfl⟩
  | cons item items ih =>
    obtain ⟨hp, hplain⟩ := List.forall_mem_cons.mp hplain
    obtain ⟨hs, hsmall⟩ := List.forall_mem_cons.mp hsmall
    obtain ⟨hemit, htext⟩ := emit_eq_units below hp hs w
    obtain ⟨hrest, hrestText⟩ := ih hplain hsmall (emit below w item)
    refine ⟨?_, ?_⟩
    · rw [List.foldl_cons, hrest, List.flatMap_cons, List.foldl_append, hemit]
    · rw [List.flatMap_cons, List.map_append, htext, hrestText]
      rfl

lemma foldl_putUnit_of_le {units : List (UInt8 × Bool)} (hn : n < 2 ^ 64) (hle : units.length ≤ n) :
    units.foldl putUnit (out, n) = (out ++ units.map Prod.fst, n - units.length) := by
  induction units generalizing out n with
  | nil => simp
  | cons u units ih =>
    rw [List.length_cons] at hle
    have hput : putUnit (out, n) u = (out ++ [u.1], n - 1) := by
      have hwritten : snputc out n u.1 = out ++ [u.1] := snputc_pos (by omega)
      simp only [putUnit, hwritten, ite_self, decrease_of_le hn (by omega : 1 ≤ n)]
    rw [List.foldl_cons, hput, ih (by omega) (by omega)]
    refine Prod.ext ?_ ?_
    · simp
    · simp only [List.length_cons]
      omega

lemma isPrefix_foldl_putUnit (units : List (UInt8 × Bool)) (w : Writer) :
    w.1 <+: (units.foldl putUnit w).1 := by
  induction units generalizing w with
  | nil => exact List.prefix_rfl
  | cons u units ih =>
    refine List.IsPrefix.trans ?_ (ih (putUnit w u))
    simp only [putUnit]
    split_ifs
    · exact List.prefix_append _ _
    · exact isPrefix_snputc _ _ _

lemma length_lt_foldl_putUnit {units : List (UInt8 × Bool)} (hne : units ≠ []) (hw : 0 < w.2) :
    w.1.length < (units.foldl putUnit w).1.length := by
  obtain ⟨u, rest, rfl⟩ := List.exists_cons_of_ne_nil hne
  have hwritten : (putUnit w u).1 = w.1 ++ [u.1] := by
    simp only [putUnit, snputc_pos hw, ite_self]
  have hle := (isPrefix_foldl_putUnit rest (putUnit w u)).length_le
  rwa [hwritten, List.length_append] at hle

lemma foldl_putUnit_of_lt {units : List (UInt8 × Bool)} (hn : n < 2 ^ 64)
    (hlt : n < units.length) (out : List UInt8) :
    out.length + n < (units.foldl putUnit (out, n)).1.length ∨
      (units.foldl putUnit (out, n)).1.length = out.length + n ∧
        0 < (units.foldl putUnit (out, n)).2 := by
  obtain ⟨u, rest, hdrop⟩ := List.exists_cons_of_ne_nil (l := units.drop n) (by simpa using hlt)
  have htake : (units.take n).length = n := List.length_take_of_le hlt.le
  obtain ⟨full, hfull, hlength⟩ : ∃ full : List UInt8,
      (units.take n).foldl putUnit (out, n) = (full, 0) ∧ full.length = out.length + n := by
    refine ⟨out ++ (units.take n).map Prod.fst, ?_, ?_⟩
    · rw [foldl_putUnit_of_le hn htake.le, htake, Nat.sub_self]
    · rw [List.length_append, List.length_map, htake]
  have hsplit : units.foldl putUnit (out, n) = rest.foldl putUnit (putUnit (full, 0) u) := by
    conv_lhs => rw [← List.take_append_drop n units, hdrop, List.foldl_append, hfull,
      List.foldl_cons]
  rw [hsplit, ← hlength]
  cases hforced : u.2 with
  | true =>
    left
    have hwritten : (putUnit (full, 0) u).1 = full ++ [u.1] := by
      simp only [putUnit, hforced, if_true]
    have hle := (isPrefix_foldl_putUnit rest (putUnit (full, 0) u)).length_le
    rwa [hwritten, List.length_append] at hle
  | false =>
    have hput : putUnit (full, 0) u = (full, 2 ^ 64 - 1) := by
      simp only [putUnit, hforced, Bool.false_eq_true, if_false, snputc_zero, decrease_zero_one]
    have hroom : (0 : ℕ) < 2 ^ 64 - 1 := by decide
    rw [hput]
    by_cases hrest : rest = []
    · rw [hrest]
      exact .inr ⟨rfl, hroom⟩
    · exact .inl (length_lt_foldl_putUnit (w := (full, 2 ^ 64 - 1)) hrest hroom)

/-! ## Behind the end -/

lemma length_lt_finish (hsmall : ∀ item ∈ items, item.Small) (hw : 0 < w.2) :
    w.1.length < (finish (items.foldl (emit below) w)).length := by
  induction items generalizing w with
  | nil =>
    rw [List.foldl_nil, finish, snputc_pos hw, List.length_append]
    exact Nat.lt_succ_self _
  | cons item items ih =>
    obtain ⟨hs, hrest⟩ := List.forall_mem_cons.mp hsmall
    rw [List.foldl_cons]
    have hle := (isPrefix_finish below items (emit below w item)).length_le
    by_cases hplain : item.Plain
    · have hemit := (emit_eq_units below hplain hs w).1
      by_cases hunits : item.units = []
      · rw [hunits, List.foldl_nil] at hemit
        rw [hemit]
        exact ih hrest hw
      · have hlt := length_lt_foldl_putUnit hunits hw
        rw [← hemit] at hlt
        exact hlt.trans_le hle
    · cases item with
      | text s => exact absurd trivial hplain
      | number negative magnitude radix upper =>
        obtain ⟨text, b, _, _, heq⟩ :=
          putNumber_pos below hw hplain hs.1 hs.2.1 negative upper
        rw [emit, heq, List.length_append, List.length_append, List.length_singleton] at hle
        rw [emit]
        omega

lemma finish_of_zero (hsmall : ∀ item ∈ items, item.Small) (out : List UInt8) :
    out.length < (finish (items.foldl (emit below) (out, 0))).length ∨
      (items.foldl (emit below) (out, 0)).2 = 0 := by
  induction items with
  | nil => exact .inr rfl
  | cons item items ih =>
    obtain ⟨hs, hrest⟩ := List.forall_mem_cons.mp hsmall
    rw [List.foldl_cons]
    by_cases hplain : item.Plain
    · have hemit := (emit_eq_units below hplain hs (out, 0)).1
      by_cases hunits : item.units = []
      · rw [hunits, List.foldl_nil] at hemit
        rw [hemit]
        exact ih hrest
      · left
        rw [hemit]
        rcases foldl_putUnit_of_lt (by decide : 0 < 2 ^ 64) (List.length_pos_iff.mpr hunits) out
          with hlt | ⟨heq, hroom⟩
        · exact hlt.trans_le (isPrefix_finish below items _).length_le
        · have hlt := length_lt_finish below hrest hroom
          rwa [heq] at hlt
    · cases item with
      | text s => exact absurd trivial hplain
      | number negative magnitude radix upper =>
        rw [emit, putNumber_zero below hplain]
        cases negative with
        | false => exact ih hrest
        | true =>
          have hroom : (0 : ℕ) < 2 ^ 64 - 1 := by decide
          exact .inl (length_lt_finish below (w := (out, 2 ^ 64 - 1)) hrest hroom)

end Cottage.Printf
