import Cottage.Fs.RootAliases
import Cottage.Initramfs.EntryNames

/-!
# Archives that are loaded to their end

The archives are those of directories and regular files, with any names in
their headers.  The loader gets to the end of such an archive exactly if each
entry that is not passed over can be created when its turn comes and its nodes
fit into the arrays of children, and no file is empty: `write` returns the
number of bytes, and zero is taken for an error.
-/

namespace Cottage.Initramfs

open ByteMemory Mem Separated Vfs

structure Item where
  dir : Bool
  mode : ℕ
  size : ℕ
  deriving DecidableEq, Repr

def Item.filetype (e : Item) : UInt8 :=
  if e.dir then 0x35 else 0x30

/-- The header of an item.  The signature is that of `ustar`, which ends with a
zero byte, or that of GNU, which has two blanks before it. -/
structure ItemAt (mem : Memory) (header : ℕ) (e : Item) : Prop where
  mode : OctalField (slice mem (header + 100) 8) e.mode
  permissions : e.mode < 0o10000
  size : OctalField (slice mem (header + 124) 12) e.size
  directory : e.dir = true → e.size = 0
  filetype : mem (header + 156) = e.filetype
  signature : slice mem (header + 257) 5 = signature
  terminated : mem (header + 262) = 0 ∨ mem (header + 264) = 0

def Item.next (header : ℕ) (e : Item) : ℕ :=
  header + 512 * (1 + (e.size + 511) / 512)

def ItemsAt (mem : Memory) : ℕ → List Item → Prop
  | header, [] => slice mem (header + 257) 5 ≠ signature
  | header, e :: es => ItemAt mem header e ∧ ItemsAt mem (e.next header) es

structure Listed where
  name : Name
  dir : Bool
  size : ℕ
  deriving DecidableEq, Repr

def listing (nameAt : ℕ → Name) : ℕ → List Item → List Listed
  | _, [] => []
  | header, e :: es => ⟨nameAt header, e.dir, e.size⟩ :: listing nameAt (e.next header) es

def nameAt (mem : Memory) (header : ℕ) : Name :=
  fieldString (slice mem header maxLongFilenameLen)

def Listed.path (e : Listed) : Path :=
  resolved e.name

def Listed.Kept (e : Listed) : Prop :=
  isSkipped e.name = false

instance (e : Listed) : Decidable e.Kept :=
  inferInstanceAs (Decidable (_ = _))

def Listed.PlacedAfter (e : Listed) (before : List Listed) : Prop :=
  e.path ≠ [] ∧ (¬ ∃ b ∈ before, b.Kept ∧ b.path = e.path) ∧
    (e.path.dropLast = [] ∨ ∃ b ∈ before, b.Kept ∧ b.dir = true ∧ b.path = e.path.dropLast)

instance (e : Listed) (before : List Listed) : Decidable (e.PlacedAfter before) :=
  inferInstanceAs (Decidable (_ ∧ _ ∧ _))

/-- The paths are different and parents come before what is in them. -/
def Ordered : List Listed → List Listed → Prop
  | _, [] => True
  | before, e :: es => (e.Kept → e.PlacedAfter before) ∧ Ordered (before ++ [e]) es

def NoEmptyFile (es : List Listed) : Prop :=
  ∀ e ∈ es, e.Kept → e.dir = false → e.size ≠ 0

/-- The index at which the entry is stored in the array of its parent.  The
root starts with two aliases, another directory counts none. -/
def Listed.index (e : Listed) (before : List Listed) : ℕ :=
  (if e.path.dropLast = [] then 2 else 0) +
    before.countP fun b => b.Kept ∧ b.path.dropLast = e.path.dropLast

/-- There is room for the entry, and for the two aliases of a directory. -/
def Listed.Fits (fits : ℕ → Bool) (e : Listed) (before : List Listed) : Prop :=
  fits (e.index before) = true ∧ (e.dir = true → fits 0 = true ∧ fits 1 = true)

def StoresFit (fits : ℕ → Bool) : List Listed → List Listed → Prop
  | _, [] => True
  | before, e :: es => (e.Kept → e.Fits fits before) ∧ StoresFit fits (before ++ [e]) es

variable {fits : ℕ → Bool} {mem : Memory} {header : ℕ} {e : Item} {s : State} {before : List Listed}

namespace ItemAt

variable (h : ItemAt mem header e)

include h

lemma readName : entryName mem header noOverride = some (nameAt mem header) := by
  rw [entryName_noOverride, cString_eq_some_iff, mem_slice]
  refine ⟨?_, rfl⟩
  rcases h.terminated with hzero | hzero
  · exact ⟨262, by decide, hzero⟩
  · exact ⟨264, by decide, hzero⟩

lemma readMode : modeAt mem header = e.mode :=
  (h.mode.octal2int (by rw [length_slice]; decide)).1

lemma readSize : sizeAt mem header = e.size :=
  (h.size.octal2int (by rw [length_slice]; decide)).1

lemma readFiletype :
    Filetype.ofByte (mem (header + 156)) = if e.dir then .directory else .regularFile := by
  rw [h.filetype, Item.filetype]
  cases e.dir <;> rfl

lemma next_eq : header + (512 + alignUp e.size 512) = e.next header := by
  rw [h.size.step_eq, Item.next]

lemma initramfsLoop_succ (fits : ℕ → Bool) (fuel : ℕ) :
    initramfsLoop fits mem (fuel + 1) header noOverride s =
      (if isSkipped (nameAt mem header) then some (s, noOverride)
        else handleEntry fits mem header (nameAt mem header) e.size e.mode s).bind
          fun (s, nameOverride) => initramfsLoop fits mem fuel (e.next header) nameOverride s := by
  have hmode : octal2int (slice mem (header + 100) 8) = e.mode := h.readMode
  have hsize : octal2int (slice mem (header + 124) 12) = e.size := h.readSize
  rw [initramfsLoop, if_neg (not_not.mpr h.signature), h.readName, Option.bind_some]
  simp only [hmode, hsize, h.next_eq]

end ItemAt

lemma nameAt_of_nameRead (h : ItemAt mem header e) (hread : NameRead mem header) :
    nameAt mem header = tarName mem header := by
  have hname := h.readName
  rw [entryName_noOverride, (cString_eq_tarName_iff mem header).mpr hread] at hname
  exact (Option.some.inj hname).symm

def Built (s : State) (before : List Listed) : Prop :=
  ((before.filter (·.Kept)).map Listed.path).Nodup ∧
    ∃ t L, Dotted s.heap t L ∧ (∀ p, t.Exists p ↔ ∃ b ∈ before, b.Kept ∧ b.path = p) ∧
      ∀ p, t.IsDir p ↔ p = [] ∨ ∃ b ∈ before, b.Kept ∧ b.dir = true ∧ b.path = p

lemma built_emptyRoot : Built emptyRoot [] := by
  refine ⟨List.nodup_nil, [], mountLayout, dotted_mounted, fun p => ?_, fun p => ?_⟩
  · simp only [Tree.Exists, List.not_mem_nil, false_and, exists_false]
  · simp only [Tree.IsDir, List.not_mem_nil, false_and, exists_false]

lemma mode_and_statIfmt {mode : ℕ} (hmode : mode < 0o10000) (dir : Bool) :
    (mode ||| if dir then statIfdir else statIfreg) &&& statIfmt =
      if dir then statIfdir else statIfreg := by
  rw [Nat.and_or_distrib_right, and_statIfmt hmode, Nat.zero_or]
  cases dir <;> decide

lemma count_eq_index {t : Tree} {L : Layout} {h : Heap} (hd : Dotted h t L)
    (hnodup : ((before.filter (·.Kept)).map Listed.path).Nodup)
    (hexists : ∀ p, t.Exists p ↔ ∃ b ∈ before, b.Kept ∧ b.path = p) {e : Listed}
    (hdir : t.IsDir e.path.dropLast) : h.count (L.loc e.path.dropLast) = e.index before := by
  have hcount := hd.count_eq hdir (hnodup.filter fun p => p.dropLast = e.path.dropLast) (by
    intro p
    simp only [List.mem_filter, List.mem_map, decide_eq_true_eq, hexists, and_assoc])
  rw [hcount, Listed.index, ← List.countP_eq_length_filter, List.countP_map, List.countP_filter]
  congr 2
  funext b
  simp [Bool.and_comm]

lemma all_storedAt (fits : ℕ → Bool) {mode : ℕ} {dir : Bool} (parent : NodePtr) (h : Heap)
    (hdir : statIsDir mode = dir) :
    (storedAt parent mode h).all fits = true ↔
      fits (h.count parent) = true ∧ (dir = true → fits 0 = true ∧ fits 1 = true) := by
  rw [storedAt, hdir]
  cases dir <;> simp

section

variable {t : Tree} {L : Layout} {h : Heap} {name : Name} {mode : ℕ}

lemma fsCreateWithin_of_creatable (hd : Dotted h t L) (hnew : t.Creatable (resolved name)) :
    fsCreateWithin fits name mode h =
      if (storedAt (L.loc (resolved name).dropLast) mode h).all fits then
        (fsCreate (name.length + 2) name mode h).map fun (h, node, _) => (h, node)
      else none := by
  have hne : name ≠ [] := by
    rintro rfl
    exact hnew.1 rfl
  obtain ⟨found, hfound, hleads⟩ := hd.path2node hne (Nat.le_refl _)
  rw [Leads, if_neg hnew.1] at hleads
  have hnode : found.node = none := hleads.node.trans (if_neg hnew.2.1)
  have hparent := hleads.parent.trans (if_pos hnew.2.2)
  rw [fsCreateWithin, hfound]
  simp only [Option.bind_eq_bind, Option.bind_some, hnode, if_true, hparent, Option.all_some]

lemma fsCreateWithin_of_not_creatable (hd : Dotted h t L)
    (hnot : ¬ t.Creatable (resolved name)) (heap : Heap) (node : NodePtr) :
    fsCreateWithin fits name mode h ≠ some (heap, some node) := by
  obtain ⟨errno, hfails⟩ : ∃ errno, fsCreate _ name mode h = some (h, none, errno) :=
    hd.fsCreate_fails (Nat.le_refl _) hnot
  intro hcall
  obtain ⟨found, _, hcall⟩ := Option.bind_eq_some_iff.mp hcall
  dsimp only at hcall
  split_ifs at hcall <;> rw [hfails] at hcall <;> cases hcall

end

lemma Built.create (hb : Built s before) (fits : ℕ → Bool) (e : Listed) {mode : ℕ}
    (hmode : mode < 0o10000) (hkept : e.Kept) :
    ((e.PlacedAfter before ∧ e.Fits fits before) ∧ ∃ heap node, fsCreateWithin fits e.name
        (mode ||| if e.dir then statIfdir else statIfreg) s.heap = some (heap, some node) ∧
        ∀ contents, Built ⟨heap, contents⟩ (before ++ [e])) ∨
      (¬ (e.PlacedAfter before ∧ e.Fits fits before) ∧ ∀ heap node, fsCreateWithin fits e.name
        (mode ||| if e.dir then statIfdir else statIfreg) s.heap ≠ some (heap, some node)) := by
  obtain ⟨hnodup, t, L, hd, hexists, hdir⟩ := hb
  have hplaced : e.PlacedAfter before ↔ t.Creatable (resolved e.name) := by
    rw [Listed.PlacedAfter, Tree.Creatable, hexists, hdir]
    rfl
  by_cases hnew : t.Creatable (resolved e.name)
  · have hbits := mode_and_statIfmt hmode e.dir
    generalize (mode ||| if e.dir then statIfdir else statIfreg) = mode' at hbits ⊢
    have hok : ModeOk mode' := by
      rw [ModeOk, hbits]
      cases e.dir with
      | false => exact .inr rfl
      | true => exact .inl rfl
    have hbit : decide ((if e.dir then statIfdir else statIfreg) = statIfdir) = e.dir := by
      cases e.dir <;> decide
    have hfits := all_storedAt fits (L.loc e.path.dropLast) s.heap
      (hok.statIsDir_eq.trans (by rw [hbits, hbit]))
    rw [count_eq_index hd hnodup hexists hnew.2.2] at hfits
    rw [fsCreateWithin_of_creatable hd hnew, Listed.Fits, ← hfits, hplaced, and_iff_right hnew]
    split_ifs with hall
    · obtain ⟨heap, node, errno, L', hcreate, hd'⟩ :=
        hd.fsCreate_created hok (Nat.le_refl _) hnew
      refine .inl ⟨hall, heap, node, by rw [hcreate, Option.map_some], fun contents => ?_⟩
      rw [hbits, hbit] at hd'
      refine ⟨?_, _, L', hd', fun p => ?_, fun p => ?_⟩
      · have hone : [e].filter (·.Kept) = [e] := List.filter_eq_self.mpr (by simpa using hkept)
        rw [List.filter_append, hone, List.map_append, List.map_singleton, List.nodup_append_comm,
          List.singleton_append, List.nodup_cons]
        refine ⟨fun hmem => hnew.2.1 ((hexists e.path).mpr ?_), hnodup⟩
        simpa [and_assoc] using hmem
      · rw [Tree.exists_cons, hexists]
        simp only [List.mem_append, List.mem_singleton, or_and_right, exists_or, exists_eq_left,
          hkept, true_and]
        rw [or_comm, @eq_comm _ p (resolved e.name)]
        rfl
      · rw [Tree.isDir_cons, hdir]
        simp only [List.mem_append, List.mem_singleton, or_and_right, exists_or, exists_eq_left,
          hkept, true_and]
        rw [or_comm, or_assoc, and_comm, @eq_comm _ p (resolved e.name)]
        rfl
    · exact .inr ⟨hall, fun _ _ => (Option.some_ne_none _).symm⟩
  · refine .inr ⟨fun h => hnew (hplaced.mp h.1), fsCreateWithin_of_not_creatable hd hnew⟩

lemma createFile_nil (fits : ℕ → Bool) (name : Name) (mode : ℕ) :
    createFile fits name mode [] s = none := by
  rw [createFile]
  cases fsCreateWithin fits name (mode ||| statIfreg) s.heap with
  | none => rfl
  | some result =>
    obtain ⟨heap, node⟩ := result
    cases node <;> rfl

def Listed.Loadable (fits : ℕ → Bool) (e : Listed) (before : List Listed) : Prop :=
  e.Kept → (e.PlacedAfter before ∧ e.Fits fits before) ∧ (e.dir = false → e.size ≠ 0)

lemma Built.handleEntry (hb : Built s before) (fits : ℕ → Bool) (h : ItemAt mem header e)
    {name : Name} (hkept : isSkipped name = false) :
    (Listed.Loadable fits ⟨name, e.dir, e.size⟩ before ∧ ∃ s',
        handleEntry fits mem header name e.size e.mode s = some (s', noOverride) ∧
        Built s' (before ++ [⟨name, e.dir, e.size⟩])) ∨
      (¬ Listed.Loadable fits ⟨name, e.dir, e.size⟩ before ∧
        handleEntry fits mem header name e.size e.mode s = none) := by
  have hcreate := hb.create fits ⟨name, e.dir, e.size⟩ h.permissions hkept
  have hloadable : Listed.Loadable fits ⟨name, e.dir, e.size⟩ before ↔
      (Listed.PlacedAfter ⟨name, e.dir, e.size⟩ before ∧
        Listed.Fits fits ⟨name, e.dir, e.size⟩ before) ∧ (e.dir = false → e.size ≠ 0) :=
    forall_prop_of_true hkept
  rw [hloadable, Initramfs.handleEntry, h.readFiletype]
  cases hdir : e.dir with
  | true =>
    rw [hdir] at hcreate
    simp only [if_true, createDirectory] at hcreate ⊢
    rcases hcreate with ⟨hplaced, heap, node, hcall, hbuilt⟩ | ⟨hnot, hcall⟩
    · refine .inl ⟨⟨hplaced, fun hfile => absurd hfile (by decide)⟩, ⟨heap, s.contents⟩, ?_,
        hbuilt s.contents⟩
      rw [hcall]
      rfl
    · refine .inr ⟨fun h => hnot h.1, ?_⟩
      rcases hcase : fsCreateWithin fits name (e.mode ||| statIfdir) s.heap with
        _ | ⟨heap, _ | node⟩
      · rfl
      · rfl
      · exact absurd hcase (hcall heap node)
  | false =>
    rw [hdir] at hcreate
    simp only [Bool.false_eq_true, if_false] at hcreate ⊢
    by_cases hsize : e.size = 0
    · refine .inr ⟨fun h => h.2 trivial hsize, ?_⟩
      rw [hsize, show slice mem (header + 512) 0 = [] from rfl, createFile_nil, Option.map_none]
    · rcases hcreate with ⟨hplaced, heap, node, hcall, hbuilt⟩ | ⟨hnot, hcall⟩
      · refine .inl ⟨⟨hplaced, fun _ => hsize⟩, ⟨heap, Function.update s.contents
          (heap.get node).resource (ByteString.overwrite [] 0 (slice mem (header + 512) e.size))⟩,
          ?_, hbuilt _⟩
        rw [createFile, hcall]
        simp only [Option.bind_eq_bind, Option.bind_some, length_slice, hsize, if_false,
          Option.map_some]
      · refine .inr ⟨fun h => hnot h.1, ?_⟩
        rw [createFile]
        rcases hcase : fsCreateWithin fits name (e.mode ||| statIfreg) s.heap with
          _ | ⟨heap, _ | node⟩
        · rfl
        · rfl
        · exact absurd hcase (hcall heap node)

/-! ## The loop -/

lemma Built.append_skipped (hb : Built s before) {e : Listed} (hskipped : ¬ e.Kept) :
    Built s (before ++ [e]) := by
  obtain ⟨hnodup, t, L, hd, hexists, hdir⟩ := hb
  refine ⟨by simpa [hskipped] using hnodup, t, L, hd, fun p => ?_, fun p => ?_⟩
  · rw [hexists]
    simp only [List.mem_append, List.mem_singleton, or_and_right, exists_or, exists_eq_left,
      hskipped, false_and, or_false]
  · rw [hdir]
    simp only [List.mem_append, List.mem_singleton, or_and_right, exists_or, exists_eq_left,
      hskipped, false_and, or_false]

lemma Built.initramfsLoop_succ (hb : Built s before) (fits : ℕ → Bool) (h : ItemAt mem header e) :
    (Listed.Loadable fits ⟨nameAt mem header, e.dir, e.size⟩ before ∧ ∃ s',
        (∀ fuel, initramfsLoop fits mem (fuel + 1) header noOverride s =
          initramfsLoop fits mem fuel (e.next header) noOverride s') ∧
        Built s' (before ++ [⟨nameAt mem header, e.dir, e.size⟩])) ∨
      (¬ Listed.Loadable fits ⟨nameAt mem header, e.dir, e.size⟩ before ∧
        ∀ fuel, initramfsLoop fits mem (fuel + 1) header noOverride s = none) := by
  simp only [h.initramfsLoop_succ]
  cases hskip : isSkipped (nameAt mem header) with
  | true =>
    have hnot : ¬ Listed.Kept ⟨nameAt mem header, e.dir, e.size⟩ := by
      rw [Listed.Kept, hskip]
      decide
    exact .inl ⟨fun hkept => absurd hkept hnot, s, fun fuel => rfl, hb.append_skipped hnot⟩
  | false =>
    simp only [Bool.false_eq_true, if_false]
    rcases hb.handleEntry fits h hskip with ⟨hload, s', hcall, hbuilt⟩ | ⟨hnot, hcall⟩
    · exact .inl ⟨hload, s', fun fuel => by rw [hcall, Option.bind_some], hbuilt⟩
    · exact .inr ⟨hnot, fun fuel => by rw [hcall, Option.bind_none]⟩

lemma Built.initramfsLoop_iff (hb : Built s before) (fits : ℕ → Bool) {es : List Item}
    (harchive : ItemsAt mem header es) :
    (∃ fuel s', initramfsLoop fits mem fuel header noOverride s = some s') ↔
      Ordered before (listing (nameAt mem) header es) ∧
        StoresFit fits before (listing (nameAt mem) header es) ∧
        NoEmptyFile (listing (nameAt mem) header es) := by
  induction es generalizing header s before with
  | nil =>
    exact iff_of_true ⟨1, s, if_pos harchive⟩ ⟨trivial, trivial, by simp [NoEmptyFile, listing]⟩
  | cons e es ih =>
    obtain ⟨hitem, hrest⟩ := harchive
    have hsplit : Ordered before (listing (nameAt mem) header (e :: es)) ∧
        StoresFit fits before (listing (nameAt mem) header (e :: es)) ∧
        NoEmptyFile (listing (nameAt mem) header (e :: es)) ↔
        Listed.Loadable fits ⟨nameAt mem header, e.dir, e.size⟩ before ∧
          Ordered (before ++ [⟨nameAt mem header, e.dir, e.size⟩])
            (listing (nameAt mem) (e.next header) es) ∧
          StoresFit fits (before ++ [⟨nameAt mem header, e.dir, e.size⟩])
            (listing (nameAt mem) (e.next header) es) ∧
          NoEmptyFile (listing (nameAt mem) (e.next header) es) := by
      simp only [listing, Ordered, StoresFit, NoEmptyFile, List.forall_mem_cons, Listed.Loadable]
      constructor
      · rintro ⟨⟨hplaced, hordered⟩, ⟨hroom, hrooms⟩, hsize, hsizes⟩
        exact ⟨fun hkept => ⟨⟨hplaced hkept, hroom hkept⟩, hsize hkept⟩, hordered, hrooms, hsizes⟩
      · rintro ⟨hload, hordered, hrooms, hsizes⟩
        exact ⟨⟨fun hkept => (hload hkept).1.1, hordered⟩,
          ⟨fun hkept => (hload hkept).1.2, hrooms⟩, fun hkept => (hload hkept).2, hsizes⟩
    rw [hsplit]
    rcases hb.initramfsLoop_succ fits hitem with ⟨hload, s', hround, hbuilt⟩ | ⟨hnot, hround⟩
    · rw [and_iff_right hload, ← ih hbuilt hrest]
      constructor
      · rintro ⟨fuel, s'', hloop⟩
        cases fuel with
        | zero => cases hloop
        | succ fuel => exact ⟨fuel, s'', (hround fuel).symm.trans hloop⟩
      · rintro ⟨fuel, s'', hloop⟩
        exact ⟨fuel + 1, s'', (hround fuel).trans hloop⟩
    · refine iff_of_false ?_ fun h => hnot h.1
      rintro ⟨fuel, s'', hloop⟩
      cases fuel with
      | zero => cases hloop
      | succ fuel => cases (hround fuel).symm.trans hloop

/-! ## Booting -/

/-- The loader reaches its end, with all its stores to arrays of children in
places that fit. -/
def Boots (fits : ℕ → Bool) (modules : List Memory) : Prop :=
  ∃ fuel s, initramfsInit fits fuel modules emptyRoot = some s

/-- The loader reaches its end exactly if the names that it reads are in order,
what it stores fits and no file is empty.  If it reads the names of the archive
and these are in order, the only thing that stops it are arrays that are too
small or an empty file. -/
theorem valid_archive_boots_iff {es : List Item} (fits : ℕ → Bool) (others : List Memory)
    (harchive : ItemsAt mem 0 es) :
    (Boots fits (mem :: others) ↔
        Ordered [] (listing (nameAt mem) 0 es) ∧ StoresFit fits [] (listing (nameAt mem) 0 es) ∧
          NoEmptyFile (listing (nameAt mem) 0 es)) ∧
      (listing (nameAt mem) 0 es = listing (tarName mem) 0 es →
        Ordered [] (listing (tarName mem) 0 es) →
        (Boots fits (mem :: others) ↔ StoresFit fits [] (listing (tarName mem) 0 es) ∧
          NoEmptyFile (listing (tarName mem) 0 es))) := by
  have hboots : Boots fits (mem :: others) ↔
      Ordered [] (listing (nameAt mem) 0 es) ∧ StoresFit fits [] (listing (nameAt mem) 0 es) ∧
        NoEmptyFile (listing (nameAt mem) 0 es) :=
    built_emptyRoot.initramfsLoop_iff fits harchive
  refine ⟨hboots, fun hnames hordered => ?_⟩
  rw [hboots, hnames]
  exact and_iff_right hordered

lemma itemsAt_singleFile : ItemsAt singleFileArchive 0 [⟨false, 0o644, 1⟩] :=
  ⟨⟨archiveAt_singleFile.1.mode, by decide, archiveAt_singleFile.1.size, by decide, by decide,
    by decide, by decide⟩, archiveAt_singleFile.2⟩

theorem valid_archive_boots_singleFile : Boots (fun i => i ≤ 2) [singleFileArchive] := by
  have hnames : listing (nameAt singleFileArchive) 0 [⟨false, 0o644, 1⟩] =
      listing (tarName singleFileArchive) 0 [⟨false, 0o644, 1⟩] := by
    rw [listing, listing,
      nameAt_of_nameRead itemsAt_singleFile.1 (.inl ⟨by decide, 1, by decide, by decide⟩)]
    rfl
  refine ((valid_archive_boots_iff _ [] itemsAt_singleFile).2 hnames ?_).mpr ⟨?_, ?_⟩
  · exact ⟨fun _ => by decide, trivial⟩
  · exact ⟨fun _ => ⟨by decide, by decide⟩, trivial⟩
  · intro e he
    obtain rfl := List.mem_singleton.mp he
    exact fun _ _ => by decide

def emptyFileArchive : Memory :=
  fun i => if i = 134 then 0x30 else singleFileArchive i

lemma itemsAt_emptyFile : ItemsAt emptyFileArchive 0 [⟨false, 0o644, 0⟩] := by
  have hmode : OctalField (slice emptyFileArchive 100 8) 0o644 :=
    ⟨[], [0, 0, 0, 0, 6, 4, 4], [0], by decide +kernel⟩
  have hsize : OctalField (slice emptyFileArchive 124 12) 0 :=
    ⟨[], [0, 0, 0, 0, 0, 0, 0, 0, 0, 0, 0], [0], by decide +kernel⟩
  refine ⟨⟨hmode, by decide, hsize, by decide, by decide, by decide, by decide⟩, ?_⟩
  change slice emptyFileArchive (512 + 257) 5 ≠ signature
  decide

/-- The loader does not get over an empty file, whatever room there is for
children. -/
theorem valid_archive_stops_boot :
    ItemsAt emptyFileArchive 0 [⟨false, 0o644, 0⟩] ∧
      listing (tarName emptyFileArchive) 0 [⟨false, 0o644, 0⟩] = [⟨[0x61], false, 0⟩] ∧
      Ordered [] [⟨[0x61], false, 0⟩] ∧
      ∀ fits fuel, initramfsInit fits fuel [emptyFileArchive] emptyRoot = none := by
  refine ⟨itemsAt_emptyFile, by decide, ⟨fun _ => by decide, trivial⟩, fun fits fuel => ?_⟩
  cases fuel with
  | zero => rfl
  | succ fuel =>
    have hitem := itemsAt_emptyFile.1
    have hname : nameAt emptyFileArchive 0 = [0x61] :=
      (nameAt_of_nameRead hitem (.inl ⟨by decide, 1, by decide, by decide⟩)).trans (by decide)
    rw [initramfsInit, List.head?_cons, Option.bind_some, hitem.initramfsLoop_succ, hname,
      if_neg (by decide), handleEntry, hitem.readFiletype]
    simp only [Bool.false_eq_true, if_false]
    rw [show slice emptyFileArchive (0 + 512) 0 = [] from rfl, createFile_nil, Option.map_none,
      Option.bind_none]

end Cottage.Initramfs
