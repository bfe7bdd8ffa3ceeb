import Cottage.Stdlib.PrintfBounds
import Mathlib.Data.List.GetD

/-!
# When `vsnprintf` is right

The result is right exactly if every number of the format is zero and the
expansion is shorter than the buffer, or as long as it with a zero byte at the
end.  The byte behind the digits of another number is in the place of a
character of the text or of the terminating byte; without room for it the number
is not counted.
-/

namespace Cottage.Printf

variable (below : ℕ → UInt8)

def buffer (original : ℕ → UInt8) (out : List UInt8) (i : ℕ) : UInt8 :=
  out.getD i (original i)

/-- What was written stays in the first `n` bytes; they begin with the text as
far as there is room for it and a terminating byte; and the length of the text
is returned. -/
structure Formatted (n : ℕ) (text : List UInt8) (original : ℕ → UInt8) (out : List UInt8)
    (ret : ℤ) : Prop where
  inside : out.length ≤ n
  stored : ∀ i, i < min text.length (n - 1) → buffer original out i = text.getD i 0
  terminated : buffer original out (min text.length (n - 1)) = 0
  ret_eq : ret = text.length

/-- The call is right, whatever is in the buffer before and in front of the
digits of numbers. -/
def Correct (n : ℕ) (fmt : List UInt8) (args : List Arg) (text : List UInt8) : Prop :=
  ∀ below original, ∃ out ret, vsnprintf below n fmt args = some (out, ret) ∧
    Formatted n text original out ret

/-- Every number is zero, and there is room for the text. -/
structure Harmless (n : ℕ) (items : List Item) : Prop where
  plain : ∀ item ∈ items, item.Plain
  fits_int : (expansion items).length < 2 ^ 31
  fits : (expansion items).length < n ∨
    (expansion items).length = n ∧ (expansion items).getLast? = some 0

lemma toInt_le (v : ℕ) : toInt v ≤ v := by
  have hle : (BitVec.ofNat 32 v).toInt ≤ (BitVec.ofNat 32 v).toNat := by
    rw [BitVec.toInt_eq_toNat_cond]
    split_ifs <;> omega
  have hmod : (BitVec.ofNat 32 v).toNat ≤ v := by
    rw [BitVec.toNat_ofNat]
    exact Nat.mod_le _ _
  rw [toInt]
  omega

lemma toInt_eq_iff {v : ℕ} : toInt v = v ↔ v < 2 ^ 31 := by
  constructor
  · intro heq
    have hlt := (BitVec.ofNat 32 v).toInt_lt
    rw [← toInt, heq] at hlt
    omega
  · intro hlt
    have hnat : (BitVec.ofNat 32 v).toNat = v := by
      rw [BitVec.toNat_ofNat]
      omega
    rw [toInt, BitVec.toInt_eq_toNat_cond, hnat, if_pos (by omega)]

section

variable {n : ℕ} {fmt : List UInt8} {args : List Arg} {items pre post : List Item}

lemma foldl_emit_plain (hn : n < 2 ^ 64) (hplain : ∀ item ∈ items, item.Plain)
    (hsmall : ∀ item ∈ items, item.Small) (hle : (expansion items).length ≤ n) :
    items.foldl (emit below) ([], n) = (expansion items, n - (expansion items).length) := by
  obtain ⟨hemit, htext⟩ := foldl_emit_eq_units below hplain hsmall ([], n)
  have hlength := congrArg List.length htext
  rw [List.length_map] at hlength
  rw [hemit, foldl_putUnit_of_le hn (hlength.trans_le hle), htext, hlength, List.nil_append]

lemma length_lt_of_plain (hn : n < 2 ^ 64) (hplain : ∀ item ∈ pre, item.Plain)
    (hsmall : ∀ item ∈ pre ++ post, item.Small) (hlt : n < (expansion pre).length) :
    n < (finish ((pre ++ post).foldl (emit below) ([], n))).length := by
  obtain ⟨hpre, hpost⟩ := List.forall_mem_append.mp hsmall
  obtain ⟨hemit, htext⟩ := foldl_emit_eq_units below hplain hpre ([], n)
  have hlength := congrArg List.length htext
  rw [List.length_map] at hlength
  rw [List.foldl_append, hemit]
  rcases foldl_putUnit_of_lt hn (hlt.trans_eq hlength.symm) [] with hout | ⟨hout, hroom⟩
  · rw [List.length_nil, Nat.zero_add] at hout
    exact hout.trans_le (isPrefix_finish below post _).length_le
  · rw [List.length_nil, Nat.zero_add] at hout
    have hmore := length_lt_finish below hpost hroom
    rwa [hout] at hmore

/-- The pieces are printed right, whatever is in the buffer before and in front
of the digits. -/
def Prints (n : ℕ) (items : List Item) : Prop :=
  ∀ below original, Formatted n (expansion items) original
    (finish (items.foldl (emit below) ([], n)))
    (toInt (decrease n (items.foldl (emit below) ([], n)).2))

lemma correct_iff (hitems : interpret (conversions fmt) args = some items) :
    Correct n fmt args (expansion items) ↔ Prints n items := by
  refine forall_congr' fun below => forall_congr' fun original => ?_
  rw [vsnprintf_eq n hitems]
  constructor
  · rintro ⟨out, ret, heq, hformatted⟩
    cases heq
    exact hformatted
  · intro hformatted
    exact ⟨_, _, rfl, hformatted⟩

lemma Harmless.prints (h : Harmless n items) (hn : n < 2 ^ 64)
    (hsmall : ∀ item ∈ items, item.Small) : Prints n items := by
  intro below original
  have hle : (expansion items).length ≤ n := by
    rcases h.fits with hlt | ⟨heq, _⟩ <;> omega
  have hret : toInt (decrease n (n - (expansion items).length)) = (expansion items).length := by
    have hcount : decrease n (n - (expansion items).length) = (expansion items).length := by
      rw [decrease_of_le hn (Nat.sub_le _ _)]
      omega
    rw [hcount]
    exact toInt_eq_iff.mpr h.fits_int
  rw [foldl_emit_plain below hn h.plain hsmall hle]
  rcases h.fits with hlt | ⟨heq, hlast⟩
  · have hmin : min (expansion items).length (n - 1) = (expansion items).length := by omega
    have hfinish : finish (expansion items, n - (expansion items).length) =
        expansion items ++ [0] := snputc_pos (Nat.sub_pos_of_lt hlt)
    rw [hfinish]
    refine ⟨?_, ?_, ?_, hret⟩
    · rw [List.length_append]
      exact hlt
    · intro i hi
      rw [hmin] at hi
      rw [buffer, List.getD_append _ _ _ _ hi, List.getD_eq_getElem _ _ hi,
        List.getD_eq_getElem _ _ hi]
    · rw [hmin, buffer, List.getD_append_right _ _ _ _ le_rfl, Nat.sub_self]
      rfl
  · have hfinish : finish (expansion items, n - (expansion items).length) = expansion items := by
      rw [heq, Nat.sub_self]
      exact snputc_zero _ _
    rw [hfinish]
    refine ⟨hle, ?_, ?_, hret⟩
    · intro i hi
      have hi : i < (expansion items).length := by omega
      rw [buffer, List.getD_eq_getElem _ _ hi, List.getD_eq_getElem _ _ hi]
    · rw [List.getLast?_eq_getElem?] at hlast
      have hmin : min (expansion items).length (n - 1) = (expansion items).length - 1 := by omega
      rw [hmin, buffer, List.getD_eq_getElem?_getD, hlast]
      rfl

/-! ## When there is not -/

lemma exists_first_number (hnot : ¬ ∀ item ∈ items, item.Plain) :
    ∃ pre negative magnitude radix upper post,
      items = pre ++ .number negative magnitude radix upper :: post ∧
        (∀ item ∈ pre, item.Plain) ∧ magnitude ≠ 0 := by
  induction items with
  | nil => exact absurd (nofun) hnot
  | cons item items ih =>
    by_cases hitem : item.Plain
    · have hrest : ¬ ∀ item ∈ items, item.Plain := by
        intro hall
        exact hnot (List.forall_mem_cons.mpr ⟨hitem, hall⟩)
      obtain ⟨pre, negative, magnitude, radix, upper, post, rfl, hpre, hpos⟩ := ih hrest
      exact ⟨item :: pre, negative, magnitude, radix, upper, post, rfl,
        List.forall_mem_cons.mpr ⟨hitem, hpre⟩, hpos⟩
    · cases item with
      | text s => exact absurd trivial hitem
      | number negative magnitude radix upper =>
        exact ⟨[], negative, magnitude, radix, upper, items, rfl,
          nofun, hitem⟩

lemma exists_ne_byte (c : UInt8) : ∃ b : UInt8, b ≠ c := by
  by_cases hc : c = 0
  · exact ⟨1, by simp [hc]⟩
  · exact ⟨0, Ne.symm hc⟩

section number

variable {negative upper : Bool} {magnitude radix : ℕ}

lemma length_expansion_append (pre : List Item) (item : Item) (post : List Item) :
    (expansion (pre ++ item :: post)).length =
      (expansion pre).length + item.expansion.length + (expansion post).length := by
  simp only [expansion, List.flatMap_append, List.flatMap_cons, List.length_append, Nat.add_assoc]

variable (hn : n < 2 ^ 64) (hpre : ∀ item ∈ pre, item.Plain)
  (hsmall : ∀ item ∈ pre ++ .number negative magnitude radix upper :: post, item.Small)

include hn hpre hsmall

lemma finish_number (hpos : magnitude ≠ 0) (hlt : (expansion pre).length < n) (b : UInt8) :
    (finish ((pre ++ .number negative magnitude radix upper :: post).foldl
      (emit fun _ => b) ([], n)))[(expansion pre).length +
        (Item.number negative magnitude radix upper).expansion.length]? = some b := by
  obtain ⟨hsmallPre, hsmallRest⟩ := List.forall_mem_append.mp hsmall
  obtain ⟨hsmallNumber, _⟩ := List.forall_mem_cons.mp hsmallRest
  have hroom : 0 < n - (expansion pre).length := Nat.sub_pos_of_lt hlt
  obtain ⟨text, c, hlength, ⟨_, hc⟩, heq⟩ :=
    putNumber_pos (fun _ => b) (w := (expansion pre, n - (expansion pre).length)) hroom hpos
      hsmallNumber.1 hsmallNumber.2.1 negative upper
  rw [List.foldl_append, foldl_emit_plain _ hn hpre hsmallPre hlt.le, List.foldl_cons]
  obtain ⟨more, hmore⟩ := isPrefix_finish (fun _ => b) post
    (emit (fun _ => b) (expansion pre, n - (expansion pre).length)
      (.number negative magnitude radix upper))
  rw [← hmore, emit, heq, hc, ← hlength, List.append_assoc, ← List.length_append,
    List.getElem?_append_right le_rfl, Nat.sub_self]
  rfl

lemma not_prints_of_room (hpos : magnitude ≠ 0) (hlt : (expansion pre).length < n) :
    ¬ Prints n (pre ++ .number negative magnitude radix upper :: post) := by
  intro hprints
  have hle := length_expansion_append pre (.number negative magnitude radix upper) post
  have hbyte := finish_number hn hpre hsmall hpos hlt
  generalize (expansion pre).length +
    (Item.number negative magnitude radix upper).expansion.length = q at hle hbyte
  have hq : q < n := by
    obtain ⟨hq, _⟩ := List.getElem?_eq_some_iff.mp (hbyte 0)
    exact hq.trans_le (hprints (fun _ => 0) (fun _ => 0)).inside
  have hend : q ≤ min
      (expansion (pre ++ .number negative magnitude radix upper :: post)).length (n - 1) := by
    omega
  rcases Nat.lt_or_eq_of_le hend with hstored | hterminated
  · obtain ⟨b, hb⟩ := exists_ne_byte
      ((expansion (pre ++ .number negative magnitude radix upper :: post)).getD q 0)
    have heq := (hprints (fun _ => b) (fun _ => 0)).stored q hstored
    rw [buffer, List.getD_eq_getElem?_getD, hbyte b] at heq
    exact hb heq
  · have heq := (hprints (fun _ => 1) (fun _ => 0)).terminated
    rw [← hterminated, buffer, List.getD_eq_getElem?_getD, hbyte 1] at heq
    cases heq

lemma not_prints_of_full (hpos : magnitude ≠ 0) (hfull : (expansion pre).length = n) :
    ¬ Prints n (pre ++ .number negative magnitude radix upper :: post) := by
  intro hprints
  obtain ⟨hinside, _, _, hret⟩ := hprints (fun _ => 0) (fun _ => 0)
  obtain ⟨hsmallPre, hsmallRest⟩ := List.forall_mem_append.mp hsmall
  obtain ⟨_, hsmallPost⟩ := List.forall_mem_cons.mp hsmallRest
  rw [length_expansion_append] at hret
  rw [List.foldl_append, foldl_emit_plain _ hn hpre hsmallPre hfull.le, hfull, Nat.sub_self,
    List.foldl_cons, emit, putNumber_zero _ hpos] at hinside hret
  cases negative with
  | true =>
    have hroom : (0 : ℕ) < 2 ^ 64 - 1 := by decide
    have hlt := length_lt_finish (fun _ => 0) (w := (expansion pre, 2 ^ 64 - 1)) hsmallPost hroom
    simp only [if_true] at hinside hlt
    omega
  | false =>
    simp only [Bool.false_eq_true, if_false] at hinside hret
    rcases finish_of_zero (fun _ => 0) hsmallPost (expansion pre) with hlt | hzero
    · omega
    · have hcount : decrease n 0 = n := decrease_of_le hn (Nat.zero_le n)
      have hdigits : 0 < (Item.number false magnitude radix upper).expansion.length := by
        simp [Item.expansion, numeral, hpos, List.length_pos_iff, Nat.digits_ne_nil_iff_ne_zero]
      have hle := toInt_le n
      rw [hzero, hcount] at hret
      omega

end number

lemma Prints.plain (h : Prints n items) (hn : n < 2 ^ 64)
    (hsmall : ∀ item ∈ items, item.Small) : ∀ item ∈ items, item.Plain := by
  by_contra hnot
  obtain ⟨pre, negative, magnitude, radix, upper, post, rfl, hpre, hpos⟩ :=
    exists_first_number hnot
  rcases lt_trichotomy (expansion pre).length n with hlt | heq | hgt
  · exact not_prints_of_room hn hpre hsmall hpos hlt h
  · exact not_prints_of_full hn hpre hsmall hpos heq h
  · have hout := length_lt_of_plain (fun _ => 0) hn hpre hsmall hgt
    have hinside := (h (fun _ => 0) (fun _ => 0)).inside
    omega

lemma Prints.harmless (h : Prints n items) (hn : 0 < n) (hn' : n < 2 ^ 64)
    (hsmall : ∀ item ∈ items, item.Small) : Harmless n items := by
  have hplain := h.plain hn' hsmall
  obtain ⟨hinside, _, hterminated, hret⟩ := h (fun _ => 0) (fun _ => 1)
  have hle : (expansion items).length ≤ n := by
    by_contra hnot
    have hall : ∀ item ∈ items ++ [], item.Small := by
      rwa [List.append_nil]
    have hout := length_lt_of_plain (fun _ => 0) hn' hplain hall (Nat.lt_of_not_le hnot)
    rw [List.append_nil] at hout
    omega
  rw [foldl_emit_plain _ hn' hplain hsmall hle] at hterminated hret
  refine ⟨hplain, ?_, ?_⟩
  · have hcount : decrease n (n - (expansion items).length) = (expansion items).length := by
      rw [decrease_of_le hn' (Nat.sub_le _ _)]
      omega
    rw [hcount] at hret
    exact toInt_eq_iff.mp hret
  · rcases Nat.lt_or_eq_of_le hle with hlt | heq
    · exact .inl hlt
    · right
      refine ⟨heq, ?_⟩
      have hmin : min (expansion items).length (n - 1) = (expansion items).length - 1 := by omega
      have hlt : (expansion items).length - 1 < (expansion items).length := by omega
      rw [hmin, heq, Nat.sub_self, finish, snputc_zero, buffer, ← heq,
        List.getD_eq_getElem _ _ hlt] at hterminated
      rw [List.getLast?_eq_getElem?, List.getElem?_eq_getElem hlt, hterminated]

end

/-- `vsnprintf` does what it is for exactly if every number is zero and there is
room for the text. -/
theorem vsnprintf_correct_iff {n : ℕ} (hn : 0 < n) (hn' : n < 2 ^ 64) {fmt : List UInt8}
    {args : List Arg} {items : List Item}
    (hitems : interpret (conversions fmt) args = some items) :
    Correct n fmt args (expansion items) ↔ Harmless n items := by
  rw [correct_iff hitems]
  have hsmall := small_of_interpret hitems
  constructor
  · intro h
    exact h.harmless hn hn' hsmall
  · intro h
    exact h.prints hn' hsmall

theorem vsnprintf_correct_zero :
    interpret (conversions [0x61, 0x25, 0x73, 0x25, 0x64]) [.string [0x62, 0x63], .int 0] =
        some [.text [0x61], .text [0x62, 0x63], .number false 0 10 false] ∧
      Correct 6 [0x61, 0x25, 0x73, 0x25, 0x64] [.string [0x62, 0x63], .int 0]
        [0x61, 0x62, 0x63, 0x30] := by
  have hitems : interpret (conversions [0x61, 0x25, 0x73, 0x25, 0x64])
      [.string [0x62, 0x63], .int 0] =
        some [.text [0x61], .text [0x62, 0x63], .number false 0 10 false] := by
    decide
  refine ⟨hitems, (vsnprintf_correct_iff (by decide) (by decide) hitems).mpr ⟨?_, ?_, ?_⟩⟩
  · decide
  · decide
  · decide

theorem vsnprintf_incorrect :
    ¬ Correct 2 [0x25, 0x73] [.string [0x61, 0x62, 0x63]] [0x61, 0x62, 0x63] ∧
      ¬ Correct 16 [0x25, 0x64] [.int 5] [0x35] := by
  constructor
  · intro hcorrect
    obtain ⟨out, ret, heq, hformatted⟩ := hcorrect (fun _ => 0) (fun _ => 0)
    have hout : vsnprintf (fun _ => 0) 2 [0x25, 0x73] [.string [0x61, 0x62, 0x63]] =
        some ([0x61, 0x62, 0], 3) := by
      decide
    cases hout.symm.trans heq
    exact absurd hformatted.inside (by decide)
  · intro hcorrect
    obtain ⟨out, ret, heq, hformatted⟩ := hcorrect (fun _ => 0) (fun _ => 0)
    have hout : vsnprintf (fun _ => 0) 16 [0x25, 0x64] [.int 5] = some ([0x35, 0, 0], 2) := by
      decide
    cases hout.symm.trans heq
    exact absurd hformatted.ret_eq (by decide)

end Cottage.Printf
