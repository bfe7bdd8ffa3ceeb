import Cottage.Foundations.ByteReader
import Cottage.Foundations.Loop
import Mathlib.Algebra.Group.Nat.Defs
import Mathlib.Data.List.GetD

/-!
# The MADT

`madt_init` walks over the entries of the MADT.  Every entry begins with its
type and its length; entries of the types 0 to 3 are copied, with the size of
the structure for their type, into four arrays, and the length leads to the
next one.  The arrays grow without limit, and `klog` is left out.
-/

namespace Cottage.Madt

open ByteReader Reader Loop Function

/-- What the four arrays hold: `madt_local_apic_t`, `madt_io_apic_t`,
`madt_iso_t` and `madt_nmi_t`. -/
inductive Kind
  | localApic
  | ioApic
  | iso
  | nmi
  deriving DecidableEq, Repr

namespace Kind

/-- The cases of the `switch`. -/
def ofId (id : UInt8) : Option Kind :=
  if id = 0 then some localApic
  else if id = 1 then some ioApic
  else if id = 2 then some iso
  else if id = 3 then some nmi
  else none

def id : Kind → UInt8
  | localApic => 0
  | ioApic => 1
  | iso => 2
  | nmi => 3

lemma ofId_eq_some_iff {x : UInt8} {kind : Kind} : ofId x = some kind ↔ x = kind.id := by
  unfold ofId
  cases kind <;> grind [id]

def size : Kind → ℕ
  | localApic => 8
  | ioApic => 12
  | iso => 10
  | nmi => 6

end Kind

/-- An array that was grown by `realloc`, and its length. -/
structure Records where
  count : ℕ
  items : List (List UInt8)
  deriving DecidableEq, Repr

/-- `count++`, `realloc` and `memcpy` -/
def Records.push (r : Records) (item : List UInt8) : Records :=
  ⟨r.count + 1, r.items ++ [item]⟩

structure Scan where
  cur : ℕ
  found : Kind → Records

def Scan.keep (s : Scan) (kind : Kind) (item : List UInt8) : Scan :=
  { s with found := update s.found kind ((s.found kind).push item) }

/-- `cur += (uint64_t) header->len` -/
def Scan.advance (s : Scan) (len : UInt8) : Scan :=
  { s with cur := (s.cur + len.toNat) % 2 ^ 64 }

/-- `sizeof(madt_t) - 1`, the offset of `entries_begin`. -/
def entriesBegin : ℕ := 44

/-- `madt->header.length` -/
def headerLength : Reader ℕ := do
  let field ← bytes 4 4
  pure ((field.get 0).toNat + (field.get 1).toNat * 2 ^ 8 + (field.get 2).toNat * 2 ^ 16 +
    (field.get 3).toNat * 2 ^ 24)

def round (s : Scan) : Reader (Scan ⊕ Scan) := do
  let length ← headerLength
  if (s.cur + entriesBegin) % 2 ^ 64 ≥ length then pure (.inr s)
  else
    let header := entriesBegin + s.cur
    let id ← read header
    let len ← read (header + 1)
    match Kind.ofId id with
    | none => pure (.inl (s.advance len))
    | some kind =>
      let item ← bytes header kind.size
      pure (.inl ((s.keep kind item.toList).advance len))

def body (table : ℕ → UInt8) (s : Scan) : Scan ⊕ Scan :=
  (round s).run table

def start : Scan where
  cur := 0
  found _ := ⟨0, []⟩

inductive Outcome
  | panicked
  | parsed (found : Kind → Records)

/-- `table` is what `acpi_find_table` returns. -/
def madtInit (fuel : ℕ) : Option (ℕ → UInt8) → Option Outcome
  | none => some .panicked
  | some table => (run (body table) fuel start).map fun s => .parsed s.found

/-- `madt_local_apics` and `madt_local_apic_count` -/
def madtLocalApics (found : Kind → Records) : Records := found .localApic

/-- `madt_io_apics` and `madt_io_apic_count` -/
def madtIoApics (found : Kind → Records) : Records := found .ioApic

/-- `madt_isos` and `madt_iso_count` -/
def madtIsos (found : Kind → Records) : Records := found .iso

/-- `madt_nmis` and `madt_nmi_count` -/
def madtNmis (found : Kind → Records) : Records := found .nmi

def lenAt (table : ℕ → UInt8) (offset : ℕ) : ℕ :=
  (table (offset + 1)).toNat

def Scan.visit (s : Scan) (table : ℕ → UInt8) (offset : ℕ) : Scan :=
  match Kind.ofId (table offset) with
  | none => s
  | some kind => s.keep kind ((List.range kind.size).map fun i => table (offset + i))

section

variable {table : ℕ → UInt8} {s : Scan}

lemma headerLength_lt : headerLength.run table < 2 ^ 32 := by
  rw [headerLength, run_bind, run_pure]
  generalize (bytes 4 4).run table = field
  have h0 := (field.get 0).toNat_lt
  have h1 := (field.get 1).toNat_lt
  have h2 := (field.get 2).toNat_lt
  have h3 := (field.get 3).toNat_lt
  omega

lemma toList_run_bytes (offset n : ℕ) :
    ((bytes offset n).run table).toList = (List.range n).map fun i => table (offset + i) := by
  rw [run_bytes]
  apply List.ext_getElem
  · simp
  · intro i _ _
    simp

lemma body_of_le (hcur : s.cur < 2 ^ 33) (h : headerLength.run table ≤ entriesBegin + s.cur) :
    body table s = .inr s := by
  have hend : (s.cur + entriesBegin) % 2 ^ 64 ≥ headerLength.run table := by
    rw [Nat.mod_eq_of_lt (by simp only [entriesBegin]; omega), Nat.add_comm]
    exact h
  rw [body, round, run_bind, if_pos hend, run_pure]

lemma body_of_lt (h : entriesBegin + s.cur < headerLength.run table) :
    body table s = .inl ⟨s.cur + lenAt table (entriesBegin + s.cur),
      (s.visit table (entriesBegin + s.cur)).found⟩ := by
  have hlength := @headerLength_lt table
  have hlen := (table (entriesBegin + s.cur + 1)).toNat_lt
  have hcur : s.cur + (table (entriesBegin + s.cur + 1)).toNat < 2 ^ 64 := by omega
  have hend : ¬ (s.cur + entriesBegin) % 2 ^ 64 ≥ headerLength.run table := by
    rw [Nat.mod_eq_of_lt (by omega), Nat.add_comm]
    omega
  rw [body, round, run_bind, if_neg hend, run_bind, run_read, run_bind, run_read, Scan.visit]
  cases Kind.ofId (table (entriesBegin + s.cur)) with
  | none =>
    rw [run_pure, Scan.advance, Nat.mod_eq_of_lt hcur, lenAt]
  | some kind =>
    rw [run_bind, run_pure, Scan.advance, Scan.keep, toList_run_bytes, Nat.mod_eq_of_lt hcur, lenAt]
    rfl

end

def typeOf (e : List UInt8) : UInt8 :=
  e.getD 0 0

structure IsEntry (e : List UInt8) : Prop where
  two_le : 2 ≤ e.length
  len_eq : (e.getD 1 0).toNat = e.length
  size_eq : ∀ kind ∈ Kind.ofId (typeOf e), e.length = kind.size

/-- The entries fill the table from `entries_begin` to its end. -/
structure Tiles (table : ℕ → UInt8) (entries : List (List UInt8)) : Prop where
  isEntry : ∀ e ∈ entries, IsEntry e
  content : ∀ i < entries.flatten.length, table (entriesBegin + i) = entries.flatten.getD i 0
  length_eq : headerLength.run table = entriesBegin + entries.flatten.length

def Records.append (r : Records) (items : List (List UInt8)) : Records :=
  ⟨r.count + items.length, r.items ++ items⟩

lemma Records.append_nil (r : Records) : r.append [] = r := by
  rw [append, List.append_nil, List.length_nil, Nat.add_zero]

lemma Records.append_append (r : Records) (items items' : List (List UInt8)) :
    (r.append items).append items' = r.append (items ++ items') := by
  rw [append, append, append, List.append_assoc, List.length_append, Nat.add_assoc]

def kept (entries : List (List UInt8)) (kind : Kind) : List (List UInt8) :=
  entries.filter fun e => Kind.ofId (typeOf e) = some kind

lemma kept_cons (e : List UInt8) (entries : List (List UInt8)) (kind : Kind) :
    kept (e :: entries) kind = kept [e] kind ++ kept entries kind := by
  rw [kept, kept, kept, ← List.filter_append, List.singleton_append]

def Scan.after (s : Scan) (entries : List (List UInt8)) : Scan where
  cur := s.cur + entries.flatten.length
  found kind := (s.found kind).append (kept entries kind)

lemma Scan.after_nil (s : Scan) : s.after [] = s := by
  cases s with
  | mk cur found =>
    simp only [after, List.flatten_nil, List.length_nil, Nat.add_zero, mk.injEq, true_and]
    funext kind
    exact (found kind).append_nil

lemma Scan.after_cons (s : Scan) (e : List UInt8) (entries : List (List UInt8)) :
    s.after (e :: entries) = (s.after [e]).after entries := by
  simp only [after, List.flatten_cons, List.flatten_nil, List.append_nil, List.length_append,
    Nat.add_assoc, mk.injEq, true_and]
  funext kind
  rw [kept_cons, Records.append_append]

variable {table : ℕ → UInt8} {s : Scan} {offset : ℕ} {e : List UInt8} {entries : List (List UInt8)}

lemma visit_entry (he : IsEntry e) (hbytes : ∀ i < e.length, table (offset + i) = e.getD i 0) :
    (s.visit table offset).found = (s.after [e]).found := by
  have hid : table offset = typeOf e := hbytes 0 (by have := he.two_le; omega)
  rw [Scan.visit, hid]
  cases hkind : Kind.ofId (typeOf e) with
  | none =>
    funext kind
    have hnone : kept [e] kind = [] := by simp [kept, hkind]
    simp only [Scan.after, hnone, Records.append_nil]
  | some kind =>
    have hitem : (List.range kind.size).map (fun i => table (offset + i)) = e := by
      rw [← he.size_eq kind hkind]
      apply List.ext_getElem
      · simp
      · intro i hi hi'
        rw [List.getElem_map, List.getElem_range, hbytes i hi', List.getD_eq_getElem?_getD,
          List.getElem?_eq_getElem hi', Option.getD_some]
    funext kind'
    simp only [Scan.keep, Scan.after, hitem]
    by_cases heq : kind' = kind
    · have hsome : kept [e] kind' = [e] := by simp [kept, hkind, heq]
      rw [hsome, heq, update_self]
      rfl
    · have hnone : kept [e] kind' = [] := by simp [kept, hkind, Ne.symm heq]
      rw [hnone, update_of_ne heq, Records.append_nil]

lemma ends_of_entries (hentry : ∀ e ∈ entries, IsEntry e)
    (hbytes : ∀ i < entries.flatten.length,
      table (entriesBegin + s.cur + i) = entries.flatten.getD i 0)
    (hlength : headerLength.run table = entriesBegin + s.cur + entries.flatten.length) :
    Ends (body table) s (s.after entries) := by
  induction entries generalizing s with
  | nil =>
    have hlt := @headerLength_lt table
    rw [s.after_nil]
    exact .done (body_of_le (by omega) (Nat.le_of_eq hlength))
  | cons e entries ih =>
    obtain ⟨he, hentry⟩ := List.forall_mem_cons.mp hentry
    have htwo := he.two_le
    rw [List.flatten_cons, List.length_append] at hlength hbytes
    have hfirst : ∀ i < e.length, table (entriesBegin + s.cur + i) = e.getD i 0 := by
      intro i hi
      rw [hbytes i (by omega), List.getD_append _ _ _ _ hi]
    have hlen : lenAt table (entriesBegin + s.cur) = e.length := by
      rw [lenAt, hfirst 1 (by omega), he.len_eq]
    have hnext : ⟨s.cur + lenAt table (entriesBegin + s.cur),
        (s.visit table (entriesBegin + s.cur)).found⟩ = s.after [e] := by
      rw [visit_entry he hfirst, hlen]
      simp only [Scan.after, List.flatten_cons, List.flatten_nil, List.append_nil]
    rw [s.after_cons]
    refine .next ((body_of_lt (by omega)).trans (congrArg Sum.inl hnext)) (ih hentry ?_ ?_)
    · intro i hi
      have hcur : (s.after [e]).cur = s.cur + e.length := by simp [Scan.after]
      have hrest := hbytes (e.length + i) (by omega)
      rw [List.getD_append_right _ _ _ _ (Nat.le_add_right _ _), Nat.add_sub_cancel_left] at hrest
      rw [hcur, ← hrest]
      congr 1
      omega
    · have hcur : (s.after [e]).cur = s.cur + e.length := by simp [Scan.after]
      rw [hcur, hlength]
      omega

/-! ## Parsing -/

def ofType (entries : List (List UInt8)) (id : UInt8) : Records :=
  ⟨(entries.filter fun e => typeOf e = id).length, entries.filter fun e => typeOf e = id⟩

structure Holds (found : Kind → Records) (entries : List (List UInt8)) : Prop where
  localApics : madtLocalApics found = ofType entries 0
  ioApics : madtIoApics found = ofType entries 1
  isos : madtIsos found = ofType entries 2
  nmis : madtNmis found = ofType entries 3

lemma found_after_start (entries : List (List UInt8)) (kind : Kind) :
    (start.after entries).found kind = ofType entries kind.id := by
  have hkept : kept entries kind = entries.filter fun e => typeOf e = kind.id := by
    simp only [kept, Kind.ofId_eq_some_iff]
  rw [Scan.after, ofType, ← hkept]
  simp only [start, Records.append, Nat.zero_add, List.nil_append]

lemma holds_after_start (entries : List (List UInt8)) :
    Holds (start.after entries).found entries where
  localApics := found_after_start entries .localApic
  ioApics := found_after_start entries .ioApic
  isos := found_after_start entries .iso
  nmis := found_after_start entries .nmi

/-- All entries of a table that they fill are found, in their order. -/
theorem madt_init_parses (h : Tiles table entries) :
    ∃ fuel found, madtInit fuel (some table) = some (.parsed found) ∧ Holds found entries := by
  have hends : Ends (body table) start (start.after entries) :=
    ends_of_entries h.isEntry h.content h.length_eq
  obtain ⟨fuel, hrun⟩ := ends_iff_run.mp hends
  refine ⟨fuel, _, ?_, holds_after_start entries⟩
  rw [madtInit, hrun, Option.map_some]

def twoEntries : List (List UInt8) :=
  [[0, 8, 1, 1, 1, 0, 0, 0], [9, 2]]

def twoEntriesTable (i : ℕ) : UInt8 :=
  (List.replicate 4 0 ++ [54, 0, 0, 0] ++ List.replicate 36 0 ++ twoEntries.flatten).getD i 0

theorem madt_init_parses_two_entries :
    ∃ fuel found, madtInit fuel (some twoEntriesTable) = some (.parsed found) ∧
      Holds found twoEntries := by
  have hentry : ∀ e ∈ twoEntries, IsEntry e := by
    refine List.forall_mem_cons.mpr ⟨⟨by decide, by decide, by decide⟩, ?_⟩
    exact List.forall_mem_singleton.mpr ⟨by decide, by decide, by decide⟩
  exact madt_init_parses ⟨hentry, by decide, by decide⟩

end Cottage.Madt
