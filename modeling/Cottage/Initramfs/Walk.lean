import Cottage.Initramfs.Faithful

/-!
# The walk over the archive

The rounds of the loop of `initramfs_init` one by one, with what each of them
reads of the module.  A comparison reads up to the first difference, and the
conversion of an octal field up to a zero byte, which may be the one behind the
field.

The size of the module is not used by the loader.  The walk stays inside the
module if no header comes too close to its end: to the end of the data that is
copied, and of the 65536 bytes that are copied as a name.
-/

namespace Cottage.Initramfs

open ByteMemory Mem Vfs

def sizeAt (mem : Memory) (header : ℕ) : ℕ :=
  octal2int (slice mem (header + 124) 12)

def modeAt (mem : Memory) (header : ℕ) : ℕ :=
  octal2int (slice mem (header + 100) 8)

structure Cursor where
  header : ℕ
  nameOverride : Memory
  state : State

def Signed (mem : Memory) (c : Cursor) : Prop :=
  slice mem (c.header + 257) 5 = signature

instance (mem : Memory) (c : Cursor) : Decidable (Signed mem c) :=
  inferInstanceAs (Decidable (_ = _))

def advance (fits : ℕ → Bool) (mem : Memory) (c : Cursor) : Option Cursor :=
  if Signed mem c then
    (entryName mem c.header c.nameOverride).bind fun name =>
      (if isSkipped name then some (c.state, noOverride)
        else handleEntry fits mem c.header name (sizeAt mem c.header) (modeAt mem c.header)
          c.state).map fun (s, nameOverride) =>
            ⟨c.header + (512 + alignUp (sizeAt mem c.header) 512), nameOverride, s⟩
  else none

def cursorFrom (fits : ℕ → Bool) (mem : Memory) : ℕ → Cursor → Option Cursor
  | 0, c => some c
  | n + 1, c => (advance fits mem c).bind (cursorFrom fits mem n)

def firstCursor (s : State) : Cursor where
  header := 0
  nameOverride := noOverride
  state := s

variable {fits : ℕ → Bool} {mem : Memory} {c c' : Cursor}

lemma initramfsLoop_advance (fuel : ℕ) :
    initramfsLoop fits mem (fuel + 1) c.header c.nameOverride c.state =
      if Signed mem c then
        (advance fits mem c).bind fun c =>
          initramfsLoop fits mem fuel c.header c.nameOverride c.state
      else some c.state := by
  rw [initramfsLoop, advance]
  by_cases hsigned : Signed mem c
  · have hsigned' : slice mem (c.header + 257) 5 = signature := hsigned
    rw [if_neg (not_not.mpr hsigned'), if_pos hsigned, if_pos hsigned]
    cases entryName mem c.header c.nameOverride with
    | none => rfl
    | some name =>
      simp only [Option.bind_some, Option.bind_map, sizeAt, modeAt]
      rfl
  · have hsigned' : slice mem (c.header + 257) 5 ≠ signature := hsigned
    rw [if_pos hsigned', if_neg hsigned]

lemma header_advance (h : advance fits mem c = some c') :
    c'.header = c.header + (512 + alignUp (sizeAt mem c.header) 512) := by
  rw [advance] at h
  split_ifs at h with hsigned
  obtain ⟨name, _, h⟩ := Option.bind_eq_some_iff.mp h
  obtain ⟨_, _, rfl⟩ := Option.map_eq_some_iff.mp h
  rfl

lemma le_header_cursorFrom {n : ℕ} (h : cursorFrom fits mem n c = some c') :
    c.header + 512 * n ≤ c'.header := by
  induction n generalizing c with
  | zero =>
    cases h
    omega
  | succ n ih =>
    obtain ⟨c₁, hfirst, hrest⟩ := Option.bind_eq_some_iff.mp h
    have hle := ih hrest
    rw [header_advance hfirst] at hle
    omega

structure Span where
  start : ℕ
  length : ℕ
  deriving DecidableEq, Repr

def Span.Inside (size : ℕ) (r : Span) : Prop :=
  ∀ i < r.length, r.start + i < size

def comparedBytes : List UInt8 → List UInt8 → ℕ
  | a :: as, b :: bs => if a = b then comparedBytes as bs + 1 else 1
  | _, _ => 0

def octalBytes (str : List UInt8) : ℕ :=
  (str.takeWhile (· ≠ 0)).length + 1

/-- The data that is copied in the round: that of a file which has been created,
or what is taken for a long name. -/
def dataSpan (fits : ℕ → Bool) (mem : Memory) (c : Cursor) (name : Name) : Option Span :=
  match Filetype.ofByte (mem (c.header + 156)) with
  | .regularFile =>
    match fsCreateWithin fits name (modeAt mem c.header ||| statIfreg) c.state.heap with
    | some (_, some _) => some ⟨c.header + 512, sizeAt mem c.header⟩
    | _ => none
  | .gnuLongPath =>
    if sizeAt mem c.header > maxLongFilenameLen then none
    else some ⟨c.header + 512 * headerSize, sizeAt mem c.header⟩
  | _ => none

def entryReads (fits : ℕ → Bool) (mem : Memory) (c : Cursor) (name : Name) : List Span :=
  if isSkipped name then []
  else ⟨c.header + 156, 1⟩ :: (dataSpan fits mem c name).toList

def reads (fits : ℕ → Bool) (mem : Memory) (c : Cursor) : List Span :=
  ⟨c.header + 257, comparedBytes (slice mem (c.header + 257) 5) signature⟩ ::
    if Signed mem c then
      (if c.nameOverride 0 = 0 then [⟨c.header, maxLongFilenameLen⟩] else []) ++
        (⟨c.header + 124, octalBytes (slice mem (c.header + 124) 12)⟩ ::
          ⟨c.header + 100, octalBytes (slice mem (c.header + 100) 8)⟩ ::
            (entryName mem c.header c.nameOverride).elim [] (entryReads fits mem c))
    else []

lemma inside_iff {size : ℕ} {r : Span} :
    r.Inside size ↔ r.length = 0 ∨ r.start + r.length ≤ size := by
  constructor
  · intro h
    rcases Nat.eq_zero_or_pos r.length with hzero | hpos
    · exact .inl hzero
    · have hlast := h (r.length - 1) (by omega)
      exact .inr (by omega)
  · rintro (hzero | hle) i hi
    · omega
    · omega

lemma comparedBytes_self (as : List UInt8) : comparedBytes as as = as.length := by
  induction as with
  | nil => rfl
  | cons a as ih => rw [comparedBytes, if_pos rfl, ih, List.length_cons]

lemma comparedBytes_pos {as bs : List UInt8} (has : as ≠ []) (hbs : bs ≠ []) :
    0 < comparedBytes as bs := by
  cases as with
  | nil => exact absurd rfl has
  | cons a as =>
    cases bs with
    | nil => exact absurd rfl hbs
    | cons b bs =>
      rw [comparedBytes]
      split_ifs
      · exact Nat.succ_pos _
      · exact Nat.one_pos

lemma octalBytes_le (str : List UInt8) : octalBytes str ≤ str.length + 1 :=
  Nat.succ_le_succ (List.takeWhile_sublist _).length_le

/-! ## Staying inside -/

/-- The header is far enough from the end of the module: for the signature, for
a name, and for the data. -/
structure Contained (fits : ℕ → Bool) (mem : Memory) (size : ℕ) (c : Cursor) : Prop where
  compared : c.header + 257 + comparedBytes (slice mem (c.header + 257) 5) signature ≤ size
  name : Signed mem c → c.nameOverride 0 = 0 → c.header + maxLongFilenameLen ≤ size
  data : Signed mem c → ∀ name, entryName mem c.header c.nameOverride = some name →
    isSkipped name = false → ∀ r, dataSpan fits mem c name = some r →
      r.length = 0 ∨ r.start + r.length ≤ size

lemma header_lt_of_inside {size : ℕ}
    (h : Span.Inside size
      ⟨c.header + 257, comparedBytes (slice mem (c.header + 257) 5) signature⟩) :
    c.header + 257 + comparedBytes (slice mem (c.header + 257) 5) signature ≤ size := by
  have hpos : 0 < comparedBytes (slice mem (c.header + 257) 5) signature := by
    refine comparedBytes_pos ?_ (by decide)
    rw [slice_succ]
    exact List.cons_ne_nil _ _
  exact (inside_iff.mp h).resolve_left hpos.ne'

lemma mem_entryReads {r : Span} {name : Name} :
    r ∈ entryReads fits mem c name ↔
      isSkipped name = false ∧ (r = ⟨c.header + 156, 1⟩ ∨ dataSpan fits mem c name = some r) := by
  rw [entryReads]
  cases isSkipped name with
  | true => simp
  | false => simp [Option.mem_toList]

lemma mem_reads {r : Span} :
    r ∈ reads fits mem c ↔
      r = ⟨c.header + 257, comparedBytes (slice mem (c.header + 257) 5) signature⟩ ∨
        Signed mem c ∧
          ((c.nameOverride 0 = 0 ∧ r = ⟨c.header, maxLongFilenameLen⟩) ∨
            r = ⟨c.header + 124, octalBytes (slice mem (c.header + 124) 12)⟩ ∨
            r = ⟨c.header + 100, octalBytes (slice mem (c.header + 100) 8)⟩ ∨
            ∃ name, entryName mem c.header c.nameOverride = some name ∧
              r ∈ entryReads fits mem c name) := by
  rw [reads, List.mem_cons]
  refine or_congr_right ?_
  by_cases hsigned : Signed mem c
  · rw [if_pos hsigned, and_iff_right hsigned, List.mem_append, List.mem_cons, List.mem_cons]
    refine or_congr ?_ (or_congr_right (or_congr_right ?_))
    · split_ifs with hoverride
      · rw [List.mem_singleton, and_iff_right hoverride]
      · exact iff_of_false List.not_mem_nil fun h => hoverride h.1
    · cases entryName mem c.header c.nameOverride with
      | none => simp
      | some name => simp
  · rw [if_neg hsigned]
    exact iff_of_false List.not_mem_nil fun h => hsigned h.1

lemma Contained.reads_inside {size : ℕ} (h : Contained fits mem size c) :
    ∀ r ∈ reads fits mem c, r.Inside size := by
  have hsignature := h.compared
  intro r hr
  rw [inside_iff]
  rcases mem_reads.mp hr with rfl | ⟨hsigned, hr⟩
  · exact .inr hsignature
  · have hlength : comparedBytes (slice mem (c.header + 257) 5) signature = 5 := by
      rw [show slice mem (c.header + 257) 5 = signature from hsigned, comparedBytes_self]
      rfl
    rcases hr with ⟨hoverride, rfl⟩ | rfl | rfl | ⟨name, hname, hr⟩
    · exact .inr (h.name hsigned hoverride)
    · have hle := octalBytes_le (slice mem (c.header + 124) 12)
      rw [length_slice] at hle
      exact .inr (by dsimp only; omega)
    · have hle := octalBytes_le (slice mem (c.header + 100) 8)
      rw [length_slice] at hle
      exact .inr (by dsimp only; omega)
    · obtain ⟨hskipped, rfl | hdata⟩ := mem_entryReads.mp hr
      · exact .inr (by dsimp only; omega)
      · exact h.data hsigned name hname hskipped r hdata

lemma contained_of_reads {size : ℕ} (h : ∀ r ∈ reads fits mem c, r.Inside size) :
    Contained fits mem size c where
  compared := header_lt_of_inside (h _ (mem_reads.mpr (.inl rfl)))
  name hsigned hoverride :=
    (inside_iff.mp (h _ (mem_reads.mpr (.inr ⟨hsigned, .inl ⟨hoverride, rfl⟩⟩)))).resolve_left
      (show maxLongFilenameLen ≠ 0 by decide)
  data hsigned name hname hskipped r hdata := by
    have hentry : r ∈ entryReads fits mem c name := mem_entryReads.mpr ⟨hskipped, .inr hdata⟩
    exact inside_iff.mp
      (h r (mem_reads.mpr (.inr ⟨hsigned, .inr (.inr (.inr ⟨name, hname, hentry⟩))⟩)))

/-- The bytes that are read lie inside the module and the walk ends, exactly if
every header that is reached is far enough from its end. -/
theorem walk_inside_iff (fits : ℕ → Bool) (mem : Memory) (size : ℕ) (s : State) :
    ((∀ n c, cursorFrom fits mem n (firstCursor s) = some c →
          ∀ r ∈ reads fits mem c, r.Inside size) ∧
        ∃ n, cursorFrom fits mem n (firstCursor s) = none) ↔
      ∀ n c, cursorFrom fits mem n (firstCursor s) = some c → Contained fits mem size c := by
  constructor
  · intro h n c hc
    exact contained_of_reads (h.1 n c hc)
  · intro h
    refine ⟨fun n c hc => (h n c hc).reads_inside, size, ?_⟩
    cases hc : cursorFrom fits mem size (firstCursor s) with
    | none => rfl
    | some c =>
      have hle := le_header_cursorFrom hc
      have hsignature := (h size c hc).compared
      omega

/-- The archive with one file of one byte, of the size that `tar` makes it:
65536 bytes are copied as the name of the file. -/
theorem walk_leaves_module :
    ArchiveAt singleFileArchive 0 [singleFile] ∧
      ∃ r ∈ reads (fun _ => true) singleFileArchive (firstCursor emptyRoot), ¬ r.Inside 10240 := by
  have hsigned : Signed singleFileArchive (firstCursor emptyRoot) :=
    archiveAt_singleFile.1.signature
  refine ⟨archiveAt_singleFile, ⟨0, maxLongFilenameLen⟩, ?_, ?_⟩
  · exact mem_reads.mpr (.inr ⟨hsigned, .inl ⟨rfl, rfl⟩⟩)
  · rw [inside_iff]
    decide

end Cottage.Initramfs
