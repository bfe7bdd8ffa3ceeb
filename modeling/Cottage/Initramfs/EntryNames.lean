import Cottage.Initramfs.Walk

/-!
# The names of entries

The name of an entry, as the format has it: the name field up to a zero byte or
its end, after the prefix field and a slash if there is a prefix, unless the
entry before it is a long name, which is then the name.

The loader reads the string that begins at the name field, without regard to
the end of the field and to the prefix.
-/

namespace Cottage.Initramfs

open ByteMemory Vfs

def fieldString (field : List UInt8) : Name :=
  field.takeWhile (· ≠ 0)

def tarName (mem : Memory) (header : ℕ) : Name :=
  let name := fieldString (slice mem header 100)
  let dir := fieldString (slice mem (header + 345) 155)
  if dir = [] then name else dir ++ slash :: name

def IsLongName (mem : Memory) (header : ℕ) : Prop :=
  Filetype.ofByte (mem (header + 156)) = .gnuLongPath ∧ sizeAt mem header ≤ maxLongFilenameLen

instance (mem : Memory) (header : ℕ) : Decidable (IsLongName mem header) :=
  inferInstanceAs (Decidable (_ ∧ _))

/-- The name of an entry, with the header of the entry before it. -/
def tarPath (mem : Memory) (previous : Option ℕ) (header : ℕ) : Name :=
  match previous with
  | some q =>
    if IsLongName mem q then fieldString (slice mem (q + 512) (sizeAt mem q))
    else tarName mem header
  | none => tarName mem header

variable {mem : Memory} {p : ℕ}

lemma fieldString_cons (a : UInt8) (field : List UInt8) :
    fieldString (a :: field) = if a = 0 then [] else a :: fieldString field := by
  rw [fieldString, List.takeWhile_cons]
  by_cases ha : a = 0
  · rw [if_pos ha, if_neg (by simpa using ha)]
  · rw [if_neg ha, if_pos (by simpa using ha)]
    rfl

lemma fieldString_of_not_mem {field : List UInt8} (hzero : 0 ∉ field) :
    fieldString field = field := by
  rw [fieldString, List.takeWhile_eq_self_iff]
  intro c hc
  exact decide_eq_true (ne_of_mem_of_not_mem hc hzero)

lemma cString_add (mem : Memory) (p m n : ℕ) :
    cString mem p (m + n) =
      if 0 ∈ slice mem p m then some (fieldString (slice mem p m))
      else (cString mem (p + m) n).map (slice mem p m ++ ·) := by
  induction m generalizing p with
  | zero =>
    rw [Nat.zero_add, Nat.add_zero, if_neg (by simp [slice])]
    exact Option.map_id'.symm
  | succ m ih =>
    rw [Nat.succ_add, cString, slice_succ, fieldString_cons]
    by_cases hfirst : mem p = 0
    · rw [if_pos hfirst, if_pos hfirst, if_pos (by rw [hfirst]; exact List.mem_cons_self)]
    · have hmem : 0 ∈ mem p :: slice mem (p + 1) m ↔ 0 ∈ slice mem (p + 1) m := by
        rw [List.mem_cons]
        exact or_iff_right (Ne.symm hfirst)
      rw [if_neg hfirst, if_neg hfirst, ih (p + 1), if_congr hmem rfl rfl]
      split_ifs
      · rfl
      · rw [Option.map_map, Nat.add_right_comm]
        rfl

lemma cString_eq_some_iff {n : ℕ} {name : Name} :
    cString mem p n = some name ↔ 0 ∈ slice mem p n ∧ fieldString (slice mem p n) = name := by
  have h := cString_add mem p n 0
  rw [Nat.add_zero, cString, Option.map_none] at h
  rw [h]
  split_ifs with hzero
  · rw [Option.some.injEq, and_iff_right hzero]
  · exact iff_of_false not_false fun h => hzero h.1

lemma mem_slice {a : UInt8} {n : ℕ} : a ∈ slice mem p n ↔ ∃ i < n, mem (p + i) = a := by
  simp only [slice, List.mem_map, List.mem_range]

lemma fieldString_slice_eq_nil {n : ℕ} (hn : 0 < n) :
    fieldString (slice mem p n) = [] ↔ mem p = 0 := by
  obtain ⟨n, rfl⟩ : ∃ k, n = k + 1 := ⟨n - 1, by omega⟩
  rw [slice_succ, fieldString_cons]
  split_ifs with hfirst
  · exact iff_of_true rfl hfirst
  · exact iff_of_false not_false hfirst

lemma cString_eq_nil_iff {n : ℕ} (hn : 0 < n) : cString mem p n = some [] ↔ mem p = 0 := by
  rw [cString_eq_some_iff, fieldString_slice_eq_nil hn, mem_slice]
  exact and_iff_right_of_imp fun hzero => ⟨0, hn, hzero⟩

/-- The string at the name field is the name: there is no prefix and the string
ends with the field at the latest.  Or there is one and the name field is full,
and what follows it up to a zero byte completes it to the prefix, a slash and
the field once more. -/
def NameRead (mem : Memory) (header : ℕ) : Prop :=
  (mem (header + 345) = 0 ∧ ∃ i ≤ 100, mem (header + i) = 0) ∨
    (mem (header + 345) ≠ 0 ∧ (∀ i < 100, mem (header + i) ≠ 0) ∧
      ∃ rest, cString mem (header + 100) (maxLongFilenameLen - 100) = some rest ∧
        slice mem header 100 ++ rest =
          fieldString (slice mem (header + 345) 155) ++ slash :: slice mem header 100)

lemma cString_header (mem : Memory) (header : ℕ) :
    cString mem header maxLongFilenameLen =
      if 0 ∈ slice mem header 100 then some (fieldString (slice mem header 100))
      else (cString mem (header + 100) (maxLongFilenameLen - 100)).map
        (slice mem header 100 ++ ·) :=
  cString_add mem header 100 (maxLongFilenameLen - 100)

lemma cString_eq_field_iff (mem : Memory) (header : ℕ) :
    cString mem header maxLongFilenameLen = some (fieldString (slice mem header 100)) ↔
      ∃ i ≤ 100, mem (header + i) = 0 := by
  rw [cString_header]
  by_cases hfield : 0 ∈ slice mem header 100
  · rw [if_pos hfield]
    obtain ⟨i, hi, hzero⟩ := mem_slice.mp hfield
    exact iff_of_true rfl ⟨i, hi.le, hzero⟩
  · rw [if_neg hfield, fieldString_of_not_mem hfield, Option.map_eq_some_iff]
    constructor
    · rintro ⟨rest, hrest, hname⟩
      rw [List.append_right_eq_self.mp hname] at hrest
      exact ⟨100, Nat.le_refl _, (cString_eq_nil_iff (by decide)).mp hrest⟩
    · rintro ⟨i, hi, hzero⟩
      obtain rfl : i = 100 := by
        by_contra hne
        exact hfield (mem_slice.mpr ⟨i, by omega, hzero⟩)
      exact ⟨[], (cString_eq_nil_iff (by decide)).mpr hzero, List.append_nil _⟩

lemma cString_eq_tarName_iff (mem : Memory) (header : ℕ) :
    cString mem header maxLongFilenameLen = some (tarName mem header) ↔ NameRead mem header := by
  have hnoDir : fieldString (slice mem (header + 345) 155) = [] ↔ mem (header + 345) = 0 :=
    fieldString_slice_eq_nil (by decide)
  rw [tarName, NameRead]
  by_cases hnone : mem (header + 345) = 0
  · rw [if_pos (hnoDir.mpr hnone), cString_eq_field_iff, and_iff_right hnone]
    exact (or_iff_left fun h => h.1 hnone).symm
  · rw [if_neg (mt hnoDir.mp hnone), cString_header,
      or_iff_right (fun h : mem (header + 345) = 0 ∧ _ => hnone h.1), and_iff_right hnone]
    by_cases hfield : 0 ∈ slice mem header 100
    · rw [if_pos hfield]
      refine iff_of_false ?_ ?_
      · intro h
        have hlength := congrArg List.length (Option.some.inj h)
        rw [List.length_append, List.length_cons] at hlength
        omega
      · rintro ⟨hfull, _⟩
        obtain ⟨i, hi, hzero⟩ := mem_slice.mp hfield
        exact hfull i hi hzero
    · have hfull : ∀ i < 100, mem (header + i) ≠ 0 := fun i hi hzero =>
        hfield (mem_slice.mpr ⟨i, hi, hzero⟩)
      rw [if_neg hfield, and_iff_right hfull, fieldString_of_not_mem hfield, Option.map_eq_some_iff]

/-! ## Long names -/

def overrideFrom (mem : Memory) (start size : ℕ) : Memory :=
  fun i => if i < size then mem (start + i) else 0

lemma slice_overrideFrom (mem : Memory) (start size : ℕ) :
    slice (overrideFrom mem start size) 0 size = slice mem start size := by
  apply List.map_congr_left
  intro i hi
  rw [Nat.zero_add]
  exact if_pos (List.mem_range.mp hi)

lemma cString_overrideFrom {start size : ℕ} (hsize : size ≤ maxLongFilenameLen) {name : Name} :
    cString (overrideFrom mem start size) 0 maxLongFilenameLen = some name ↔
      fieldString (slice mem start size) = name ∧
        (size < maxLongFilenameLen ∨ 0 ∈ slice mem start size) := by
  have hsplit := cString_add (overrideFrom mem start size) 0 size (maxLongFilenameLen - size)
  rw [Nat.add_sub_of_le hsize, slice_overrideFrom, Nat.zero_add] at hsplit
  rw [hsplit]
  by_cases hzero : 0 ∈ slice mem start size
  · rw [if_pos hzero, Option.some.injEq]
    exact (and_iff_left (.inr hzero)).symm
  · rw [if_neg hzero, fieldString_of_not_mem hzero, Option.map_eq_some_iff]
    by_cases hroom : size < maxLongFilenameLen
    · have hend : cString (overrideFrom mem start size) size (maxLongFilenameLen - size) =
          some [] :=
        (cString_eq_nil_iff (by omega)).mpr (if_neg (Nat.lt_irrefl size))
      rw [hend, and_iff_left (.inl hroom)]
      simp only [Option.some.injEq, exists_eq_left', List.append_nil]
    · rw [Nat.sub_eq_zero_of_le (not_lt.mp hroom), cString]
      refine iff_of_false ?_ fun h => h.2.elim hroom hzero
      rintro ⟨rest, hrest, _⟩
      cases hrest

lemma overrideFrom_zero {start size : ℕ} :
    overrideFrom mem start size 0 = 0 ↔ fieldString (slice mem start size) = [] := by
  rcases Nat.eq_zero_or_pos size with rfl | hpos
  · exact iff_of_true rfl rfl
  · rw [fieldString_slice_eq_nil hpos, overrideFrom, if_pos hpos, Nat.add_zero]

def PassedOver (mem : Memory) (c : Cursor) : Prop :=
  (entryName mem c.header c.nameOverride).any isSkipped = true

instance (mem : Memory) (c : Cursor) : Decidable (PassedOver mem c) :=
  inferInstanceAs (Decidable (_ = true))

variable {fits : ℕ → Bool} {s : State} {c q : Cursor}

lemma nameOverride_handleEntry {header mode : ℕ} {name : Name} {s' : State} {nameOverride : Memory}
    (h : handleEntry fits mem header name (sizeAt mem header) mode s = some (s', nameOverride)) :
    nameOverride =
      if IsLongName mem header then overrideFrom mem (header + 512 * headerSize) (sizeAt mem header)
      else noOverride := by
  rw [handleEntry] at h
  cases htype : Filetype.ofByte (mem (header + 156)) with
  | gnuLongPath =>
    simp only [htype] at h
    split_ifs at h with hsize
    rw [if_pos ⟨htype, not_lt.mp hsize⟩]
    exact (Prod.mk.inj (Option.some.inj h)).2.symm
  | regularFile =>
    simp only [htype] at h
    obtain ⟨_, _, heq⟩ := Option.map_eq_some_iff.mp h
    rw [if_neg fun hlong => Filetype.noConfusion (htype.symm.trans hlong.1)]
    exact (Prod.mk.inj heq).2.symm
  | directory =>
    simp only [htype] at h
    obtain ⟨_, _, heq⟩ := Option.map_eq_some_iff.mp h
    rw [if_neg fun hlong => Filetype.noConfusion (htype.symm.trans hlong.1)]
    exact (Prod.mk.inj heq).2.symm
  | symLink =>
    simp only [htype] at h
    cases h
  | _ =>
    simp only [htype] at h
    rw [if_neg fun hlong => Filetype.noConfusion (htype.symm.trans hlong.1)]
    exact (Prod.mk.inj (Option.some.inj h)).2.symm

lemma nameOverride_advance (h : advance fits mem q = some c) :
    c.nameOverride =
      if IsLongName mem q.header ∧ ¬ PassedOver mem q then
        overrideFrom mem (q.header + 512 * headerSize) (sizeAt mem q.header)
      else noOverride := by
  rw [advance] at h
  split_ifs at h with hsigned
  obtain ⟨name, hname, h⟩ := Option.bind_eq_some_iff.mp h
  obtain ⟨⟨s', nameOverride⟩, hentry, rfl⟩ := Option.map_eq_some_iff.mp h
  have hpassed : PassedOver mem q ↔ isSkipped name = true := by
    rw [PassedOver, hname, Option.any_some]
  cases hskip : isSkipped name with
  | true =>
    rw [hskip, if_pos rfl] at hentry
    rw [if_neg (fun hlong => hlong.2 (hpassed.mpr hskip))]
    exact (Prod.mk.inj (Option.some.inj hentry)).2.symm
  | false =>
    have hnot : ¬ PassedOver mem q := by
      rw [hpassed, hskip]
      decide
    rw [hskip, if_neg Bool.false_ne_true] at hentry
    rw [nameOverride_handleEntry hentry]
    exact if_congr (and_iff_left hnot).symm rfl rfl

/-- What is copied as a long name is the name: the bytes at the place that is
copied are the same up to a zero byte as those of the data, and are not empty and
end in the buffer.  If nothing was copied, the name field of the next header has
to hold the name. -/
def LongNameRead (mem : Memory) (q : Cursor) (header : ℕ) : Prop :=
  let name := fieldString (slice mem (q.header + 512) (sizeAt mem q.header))
  let copied := slice mem (q.header + 512 * headerSize) (sizeAt mem q.header)
  if PassedOver mem q ∨ fieldString copied = [] then
    cString mem header maxLongFilenameLen = some name
  else
    fieldString copied = name ∧ (sizeAt mem q.header < maxLongFilenameLen ∨ 0 ∈ copied)

def Follows (fits : ℕ → Bool) (mem : Memory) (s : State) : Option Cursor → Cursor → Prop
  | none, c => c = firstCursor s
  | some q, c =>
    (∃ n, cursorFrom fits mem n (firstCursor s) = some q) ∧ advance fits mem q = some c

/-- The bytes of the archive are such that the loader reads the name. -/
def NameFound (mem : Memory) (previous : Option Cursor) (header : ℕ) : Prop :=
  match previous with
  | some q => if IsLongName mem q.header then LongNameRead mem q header else NameRead mem header
  | none => NameRead mem header

lemma entryName_noOverride (mem : Memory) (header : ℕ) :
    entryName mem header noOverride = cString mem header maxLongFilenameLen :=
  if_pos rfl

lemma entryName_overrideFrom_iff {header start size : ℕ} {name : Name}
    (hsize : size ≤ maxLongFilenameLen) :
    entryName mem header (overrideFrom mem start size) = some name ↔
      if fieldString (slice mem start size) = [] then
        cString mem header maxLongFilenameLen = some name
      else
        fieldString (slice mem start size) = name ∧
          (size < maxLongFilenameLen ∨ 0 ∈ slice mem start size) := by
  rw [entryName]
  by_cases hempty : overrideFrom mem start size 0 = 0
  · rw [if_pos hempty, if_pos (overrideFrom_zero.mp hempty)]
  · rw [if_neg hempty, if_neg (mt overrideFrom_zero.mpr hempty), cString_overrideFrom hsize]

/-- The name that the loader uses for an entry is the one that the format
defines, exactly if the bytes at the places where the loader looks for it are the
right ones. -/
theorem entry_name_iff {previous : Option Cursor} (h : Follows fits mem s previous c) :
    entryName mem c.header c.nameOverride =
        some (tarPath mem (previous.map Cursor.header) c.header) ↔
      NameFound mem previous c.header := by
  cases previous with
  | none =>
    obtain rfl : c = firstCursor s := h
    exact cString_eq_tarName_iff mem _
  | some q =>
    rw [nameOverride_advance h.2]
    simp only [Option.map_some, tarPath, NameFound]
    by_cases hlong : IsLongName mem q.header
    · rw [if_pos hlong, if_pos hlong, LongNameRead]
      by_cases hpassed : PassedOver mem q
      · rw [if_neg fun h => h.2 hpassed, entryName_noOverride]
        simp only [hpassed, true_or, if_true]
      · rw [if_pos ⟨hlong, hpassed⟩, entryName_overrideFrom_iff hlong.2]
        simp only [hpassed, false_or]
    · rw [if_neg fun h => hlong h.1, if_neg hlong, if_neg hlong, entryName_noOverride]
      exact cString_eq_tarName_iff mem _

theorem entry_name_singleFile :
    entryName singleFileArchive 0 noOverride = some (tarPath singleFileArchive none 0) := by
  have hfollows :
      Follows (fun _ => true) singleFileArchive emptyRoot none (firstCursor emptyRoot) := rfl
  exact (entry_name_iff hfollows).mpr (.inl ⟨by decide, 1, by decide, by decide⟩)

def prefixArchive : Memory :=
  fun i => if i = 345 then 0x64 else singleFileArchive i

def longNameArchive : Memory := fun i =>
  if i = 0 then 0x40
  else if 124 ≤ i ∧ i < 135 then if i = 134 then 0x32 else 0x30
  else if i = 156 then 0x4C
  else if 257 ≤ i ∧ i < 262 then signature.getD (i - 257) 0
  else if 512 ≤ i ∧ i < 514 then 0x62
  else if i = 1024 then 0x61
  else if 1281 ≤ i ∧ i < 1286 then signature.getD (i - 1281) 0
  else 0

lemma sizeAt_longNameArchive : sizeAt longNameArchive 0 = 2 := by
  decide

lemma cString_longNameArchive :
    cString longNameArchive 0 maxLongFilenameLen = some [0x40] ∧
      cString longNameArchive 1024 maxLongFilenameLen = some [0x61] := by
  rw [cString_header, cString_header, if_pos (by decide), if_pos (by decide)]
  decide

lemma exists_advance_longNameArchive (fits : ℕ → Bool) (s : State) :
    ∃ c, advance fits longNameArchive (firstCursor s) = some c ∧ c.header = 1024 ∧
      c.nameOverride = overrideFrom longNameArchive (512 * headerSize) 2 := by
  have hsigned : Signed longNameArchive (firstCursor s) := by
    change slice longNameArchive 257 5 = signature
    decide
  have hname : entryName longNameArchive (firstCursor s).header (firstCursor s).nameOverride =
      some [0x40] :=
    (entryName_noOverride _ _).trans cString_longNameArchive.1
  have htype : Filetype.ofByte (longNameArchive ((firstCursor s).header + 156)) = .gnuLongPath := by
    change Filetype.ofByte (longNameArchive 156) = .gnuLongPath
    decide
  have hsize : sizeAt longNameArchive (firstCursor s).header = 2 := sizeAt_longNameArchive
  have hlong : IsLongName longNameArchive (firstCursor s).header := by
    refine ⟨htype, ?_⟩
    rw [hsize]
    decide
  have hnot : ¬ PassedOver longNameArchive (firstCursor s) := by
    rw [PassedOver, hname]
    decide
  obtain ⟨c, hc⟩ : ∃ c, advance fits longNameArchive (firstCursor s) = some c := by
    rw [advance, if_pos hsigned, hname, Option.bind_some, if_neg (by decide), handleEntry]
    simp only [htype, hsize]
    exact ⟨_, rfl⟩
  refine ⟨c, hc, ?_, ?_⟩
  · rw [header_advance hc, hsize]
    exact (by decide : 0 + (512 + Mem.alignUp 2 512) = 1024)
  · rw [nameOverride_advance hc, if_pos ⟨hlong, hnot⟩, hsize]
    exact congrArg (fun start => overrideFrom longNameArchive start 2) (Nat.zero_add _)

/-- The loader leaves the prefix out, and does not find the long name. -/
theorem entry_name_wrong :
    (entryName prefixArchive 0 noOverride = some [0x61] ∧
        tarPath prefixArchive none 0 = [0x64, slash, 0x61]) ∧
      ∃ c, Follows (fun _ => true) longNameArchive emptyRoot (some (firstCursor emptyRoot)) c ∧
        entryName longNameArchive c.header c.nameOverride = some [0x61] ∧
        tarPath longNameArchive (some (firstCursor emptyRoot).header) c.header = [0x62, 0x62] := by
  refine ⟨⟨?_, by decide⟩, ?_⟩
  · rw [entryName_noOverride, cString_header, if_pos (by decide)]
    decide
  · obtain ⟨c, hc, hheader, hoverride⟩ :=
      exists_advance_longNameArchive (fun _ => true) emptyRoot
    refine ⟨c, ⟨⟨0, rfl⟩, hc⟩, ?_, ?_⟩
    · rw [hoverride, hheader, entryName_overrideFrom_iff (by decide), if_pos (by decide)]
      exact cString_longNameArchive.2
    · have hlong : IsLongName longNameArchive (firstCursor emptyRoot).header :=
        ⟨by decide, by rw [show (firstCursor emptyRoot).header = 0 from rfl,
          sizeAt_longNameArchive]; decide⟩
      rw [tarPath, if_pos hlong]
      decide

end Cottage.Initramfs
