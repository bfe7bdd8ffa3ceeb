import Cottage.Initramfs.Archive

/-!
# The file system after loading

The file system that the loader leaves behind is that of the archive: every
member is found with its type, its permissions and its data, and nothing else.

This holds as long as the arrays of children are large enough.
-/

namespace Cottage.Initramfs

open ByteMemory ByteString Separated Vfs Function

lemma and_statIfmt {mode : ℕ} (hmode : mode < 0o10000) : mode &&& statIfmt = 0 := by
  have hshift : statIfmt = 15 <<< 12 := by decide
  apply Nat.eq_of_testBit_eq
  intro i
  rw [Nat.testBit_and, hshift, Nat.testBit_shiftLeft, Nat.zero_testBit]
  by_cases hi : 12 ≤ i
  · have hlow : mode.testBit i = false :=
      Nat.testBit_lt_two_pow (hmode.trans_le (Nat.pow_le_pow_right (n := 2) (by decide) hi))
    rw [hlow, Bool.false_and]
  · simp [hi]

namespace Member

variable {m : Member}

lemma typeBits_and (m : Member) :
    m.typeBits &&& statIfmt = m.typeBits ∧ m.typeBits &&& 0o7777 = 0 := by
  rw [typeBits]
  cases m.dir <;> decide

lemma Valid.mode_and (hvalid : m.Valid) :
    (m.mode ||| m.typeBits) &&& statIfmt = m.typeBits ∧
      (m.mode ||| m.typeBits) &&& 0o7777 = m.mode := by
  obtain ⟨htype, hrest⟩ := m.typeBits_and
  have hmask : m.mode &&& 0o7777 = m.mode % 2 ^ 12 := Nat.and_two_pow_sub_one_eq_mod m.mode 12
  constructor
  · rw [Nat.and_or_distrib_right, and_statIfmt hvalid.permissions, htype, Nat.zero_or]
  · rw [Nat.and_or_distrib_right, hrest, Nat.or_zero, hmask]
    exact Nat.mod_eq_of_lt hvalid.permissions

lemma Valid.modeOk (hvalid : m.Valid) : ModeOk (m.mode ||| m.typeBits) := by
  rw [ModeOk, hvalid.mode_and.1, typeBits]
  cases m.dir with
  | false => exact .inr rfl
  | true => exact .inl rfl

lemma Valid.decide_dir (hvalid : m.Valid) :
    decide ((m.mode ||| m.typeBits) &&& statIfmt = statIfdir) = m.dir := by
  rw [hvalid.mode_and.1, typeBits]
  cases m.dir <;> decide

lemma Valid.pathOk (hvalid : m.Valid) : PathOk m.name :=
  ⟨hvalid.length_le.trans (by decide), hvalid.no_alias⟩

end Member

structure Records (s : State) (e : Entry) (m : Member) : Prop where
  path : e.path = m.path
  dir : e.dir = m.dir
  mode : s.heap.modes e.resource = m.mode ||| m.typeBits
  contents : m.dir = false → s.contents e.resource = m.data

def Loaded (s : State) (members : List Member) : Prop :=
  ∃ t L, Rep s.heap t L ∧ (∀ e ∈ t, ∃ m ∈ members, Records s e m) ∧
    ∀ m ∈ members, ∃ e ∈ t, Records s e m

structure Found (s : State) (m : Member) (node : NodePtr) : Prop where
  type : s.heap.modes (s.heap.get node).resource &&& statIfmt = m.typeBits
  permissions : s.heap.modes (s.heap.get node).resource &&& 0o7777 = m.mode
  contents : m.dir = false → s.contents (s.heap.get node).resource = m.data

structure Faithful (s : State) (members : List Member) : Prop where
  found : ∀ m ∈ members, ∀ fuel, m.name.length + 2 ≤ fuel →
    ∃ node, fsGetNode fuel m.name s.heap = some (some node) ∧ Found s m node
  only : ∀ path fuel node, PathOk path → path.length + 2 ≤ fuel →
    fsGetNode fuel path s.heap = some (some node) →
    Slashes path ∨ ∃ m ∈ members, m.path = components slash path

lemma loaded_emptyRoot : Loaded emptyRoot [] :=
  ⟨[], mountLayout, rep_mounted, nofun,
    nofun⟩

variable {s : State} {members : List Member} {m : Member} {mem : Memory} {header : ℕ}

lemma Loaded.faithful (h : Loaded s members) (hvalid : ∀ m ∈ members, m.Valid) :
    Faithful s members := by
  obtain ⟨t, L, hrep, hentries, hmembers⟩ := h
  have hlaw : LookupLaw ⟨s.heap, t⟩ := hrep.lookupLaw
  constructor
  · intro m hm fuel hfuel
    obtain ⟨e, he, hrecords⟩ := hmembers m hm
    obtain ⟨node, hget, _, hresource⟩ := hlaw m.name fuel (hvalid m hm).pathOk hfuel
    obtain ⟨node, rfl, hnode⟩ := Option.map_eq_some_iff.mp (hresource e he hrecords.path)
    refine ⟨node, hget, ?_⟩
    constructor
    · rw [hnode, hrecords.mode, (hvalid m hm).mode_and.1]
    · rw [hnode, hrecords.mode, (hvalid m hm).mode_and.2]
    · rw [hnode]
      exact hrecords.contents
  · intro path fuel node hpath hfuel hget
    obtain ⟨node', hget', hiff, _⟩ := hlaw path fuel hpath hfuel
    obtain rfl : node' = some node := Option.some.inj (hget'.symm.trans hget)
    rcases hiff.mp (Option.some_ne_none node) with hslashes | ⟨e, he, hexists⟩
    · exact .inl hslashes
    · obtain ⟨m, hm, hrecords⟩ := hentries e he
      exact .inr ⟨m, hm, hrecords.path.symm.trans hexists⟩

lemma fsCreateWithin_true (name : Name) (mode : ℕ) (h : Heap) :
    fsCreateWithin (fun _ => true) name mode h =
      (fsCreate (name.length + 2) name mode h).map fun (h, node, _) => (h, node) := by
  rw [fsCreateWithin]
  cases hfound : path2node h vfsRoot (name.length + 2) vfsRoot name with
  | none =>
    rw [fsCreate, internalCreate, hfound]
    rfl
  | some found =>
    have hall (parent : Option NodePtr) :
        (parent.all fun p => (storedAt p mode h).all fun _ => true) = true := by
      cases parent with
      | none => rfl
      | some p => exact List.all_eq_true.mpr fun _ _ => rfl
    simp only [Option.bind_eq_bind, Option.bind_some, hall, if_true]

lemma Records.mono {s' : State} {e : Entry} (h : Records s e m)
    (hmode : s'.heap.modes e.resource = s.heap.modes e.resource)
    (hcontents : s'.contents e.resource = s.contents e.resource) : Records s' e m :=
  ⟨h.path, h.dir, hmode.trans h.mode, fun hfile => hcontents.trans (h.contents hfile)⟩

lemma Loaded.creatable {t : Tree} (hentries : ∀ e ∈ t, ∃ m ∈ members, Records s e m)
    (hmembers : ∀ m ∈ members, ∃ e ∈ t, Records s e m) (hpath : m.path ≠ [])
    (hnew : m.path ∉ members.map Member.path) (hplaced : m.PlacedIn members) :
    t.Creatable m.path := by
  refine ⟨hpath, ?_, ?_⟩
  · rintro ⟨e, he, heq⟩
    obtain ⟨m', hm', hrecords⟩ := hentries e he
    exact hnew (List.mem_map.mpr ⟨m', hm', hrecords.path.symm.trans heq⟩)
  · rcases hplaced with hroot | ⟨d, hd, hdir, heq⟩
    · exact .inl hroot
    · obtain ⟨e, he, hrecords⟩ := hmembers d hd
      exact .inr ⟨e, he, hrecords.path.trans heq, hrecords.dir.trans hdir⟩

lemma Loaded.create (h : Loaded s members) (hvalid : m.Valid) (hpath : m.path ≠ [])
    (hnew : m.path ∉ members.map Member.path) (hplaced : m.PlacedIn members) :
    ∃ heap node, fsCreateWithin (fun _ => true) m.name (m.mode ||| m.typeBits) s.heap =
        some (heap, some node) ∧
      ∀ contents, (∀ r, r ≠ (heap.get node).resource → contents r = s.contents r) →
        (m.dir = false → contents (heap.get node).resource = m.data) →
        Loaded ⟨heap, contents⟩ (members ++ [m]) := by
  obtain ⟨t, L, hrep, hentries, hmembers⟩ := h
  obtain ⟨heap, node, errno, L', hcreate, hrep', hgrown, hfresh, hmode⟩ :=
    hrep.fsCreate_created hvalid.pathOk hvalid.modeOk (Nat.le_refl _)
      (Loaded.creatable hentries hmembers hpath hnew hplaced)
  rw [hvalid.decide_dir] at hrep'
  refine ⟨heap, node, by rw [fsCreateWithin_true, hcreate, Option.map_some], ?_⟩
  intro contents hothers hdata
  have hold {e : Entry} {m' : Member} (he : e ∈ t) (hrecords : Records s e m') :
      Records ⟨heap, contents⟩ e m' := by
    have hlt := (hrep.resource e he).2.1
    exact hrecords.mono (hgrown.modes_eq _ hlt) (hothers _ (by omega))
  have hself : Records ⟨heap, contents⟩ ⟨m.path, (heap.get node).resource, m.dir⟩ m :=
    ⟨rfl, rfl, hmode, hdata⟩
  refine ⟨_, L', hrep', ?_, ?_⟩
  · intro e he
    rcases List.mem_cons.mp he with rfl | he
    · exact ⟨m, by simp, hself⟩
    · obtain ⟨m', hm', hrecords⟩ := hentries e he
      exact ⟨m', List.mem_append_left _ hm', hold he hrecords⟩
  · intro m' hm'
    rcases List.mem_append.mp hm' with hm' | hm'
    · obtain ⟨e, he, hrecords⟩ := hmembers m' hm'
      exact ⟨e, List.mem_cons_of_mem _ he, hold he hrecords⟩
    · obtain rfl := List.mem_singleton.mp hm'
      exact ⟨_, List.mem_cons_self, hself⟩

lemma overwrite_nil (data : List UInt8) : overwrite [] 0 data = data := by
  apply List.ext_getElem
  · rw [length_overwrite, List.length_nil, Nat.zero_add, Nat.max_eq_right (Nat.zero_le _)]
  · intro i hi hi'
    have hget := @getD_overwrite [] data 0 i
    rw [if_pos ⟨Nat.zero_le i, by omega⟩, Nat.sub_zero, List.getD_eq_getElem _ _ hi,
      List.getD_eq_getElem _ _ hi'] at hget
    exact hget

lemma Loaded.handleEntry (h : Loaded s members) (hm : MemberAt mem header m) (hvalid : m.Valid)
    (hpath : m.path ≠ []) (hnew : m.path ∉ members.map Member.path) (hplaced : m.PlacedIn members) :
    ∃ s', handleEntry (fun _ => true) mem header m.name m.data.length m.mode s =
        some (s', noOverride) ∧ Loaded s' (members ++ [m]) := by
  obtain ⟨heap, node, hcreate, hloaded⟩ := h.create hvalid hpath hnew hplaced
  rw [Initramfs.handleEntry, hm.readFiletype]
  cases hdir : m.dir with
  | true =>
    have hbits : m.typeBits = statIfdir := by rw [Member.typeBits, hdir, if_pos rfl]
    rw [hbits] at hcreate
    refine ⟨⟨heap, s.contents⟩, ?_, ?_⟩
    · simp only [if_true, createDirectory, hcreate, Option.bind_eq_bind, Option.bind_some,
        Option.map_some]
    · apply hloaded
      · exact fun _ _ => rfl
      · exact fun hfile => absurd (hdir.symm.trans hfile) (by decide)
  | false =>
    have hbits : m.typeBits = statIfreg := by
      rw [Member.typeBits, hdir]
      rfl
    have hdata : m.data.length ≠ 0 := by
      intro hzero
      have hmem := hvalid.data.mp (List.length_eq_zero_iff.mp hzero)
      cases hdir.symm.trans hmem
    rw [hbits] at hcreate
    refine ⟨⟨heap, update s.contents (heap.get node).resource m.data⟩, ?_, ?_⟩
    · simp only [Bool.false_eq_true, if_false, createFile, hcreate, Option.bind_eq_bind,
        Option.bind_some, Option.map_some, hm.data, hdata, overwrite_nil]
    · apply hloaded
      · exact fun r hr => update_of_ne hr _ _
      · exact fun _ => update_self _ _ _

lemma initramfsLoop_member {fits : ℕ → Bool} (hm : MemberAt mem header m) (hvalid : m.Valid)
    (fuel : ℕ) (s : State) :
    initramfsLoop fits mem (fuel + 1) header noOverride s =
      (handleEntry fits mem header m.name m.data.length m.mode s).bind fun (s, nameOverride) =>
        initramfsLoop fits mem fuel (header + 512 * m.blocks) nameOverride s := by
  have hname : entryName mem header noOverride = some m.name :=
    (if_pos rfl).trans (hm.readName hvalid)
  rw [initramfsLoop, if_neg (not_not.mpr hm.signature), hname, Option.bind_some]
  simp only [hm.readSize, hm.readMode, hm.next_eq, hvalid.not_isSkipped, Bool.false_eq_true,
    if_false]

lemma Loaded.initramfsLoop {before : List Member} (h : Loaded s before)
    (harchive : ArchiveAt mem header members) (hwf : WellFormed (before ++ members))
    (hpath : ∀ m ∈ members, m.path ≠ []) :
    ∃ s', (∀ fuel, members.length < fuel →
        initramfsLoop (fun _ => true) mem fuel header noOverride s = some s') ∧
      Loaded s' (before ++ members) := by
  induction members generalizing header s before with
  | nil =>
    refine ⟨s, ?_, by rwa [List.append_nil]⟩
    intro fuel hfuel
    obtain ⟨fuel, rfl⟩ : ∃ k, fuel = k + 1 := ⟨fuel - 1, by omega⟩
    exact if_pos harchive
  | cons m members ih =>
    obtain ⟨hm, hrest⟩ := harchive
    have hvalid := hwf.valid m (List.mem_append_right _ List.mem_cons_self)
    have hnew : m.path ∉ before.map Member.path := by
      have hnodup := hwf.distinct
      rw [List.map_append, List.map_cons, List.nodup_append] at hnodup
      exact fun hmem => hnodup.2.2 _ hmem _ List.mem_cons_self rfl
    obtain ⟨s₁, hhandle, hloaded⟩ := h.handleEntry hm hvalid (hpath m List.mem_cons_self) hnew
      (hwf.parents before m members rfl)
    rw [List.append_cons] at hwf ⊢
    obtain ⟨s', hloop, hloaded'⟩ := ih hloaded hrest hwf fun m hm =>
      hpath m (List.mem_cons_of_mem _ hm)
    refine ⟨s', ?_, hloaded'⟩
    intro fuel hfuel
    rw [List.length_cons] at hfuel
    obtain ⟨fuel, rfl⟩ : ∃ k, fuel = k + 1 := ⟨fuel - 1, by omega⟩
    rw [initramfsLoop_member hm hvalid, hhandle, Option.bind_some]
    exact hloop fuel (by omega)

/-! ## No room -/

lemma fsCreateWithin_root {name : Name} {mode : ℕ} (hpath : PathOk name)
    (hroot : (components slash name).dropLast = []) :
    fsCreateWithin fitsArray name mode mounted = none ∨
      ∃ heap, fsCreateWithin fitsArray name mode mounted = some (heap, none) := by
  by_cases hnil : components slash name = []
  · obtain ⟨errno, hfails⟩ := @Rep.fsCreate_fails _ mode _ _ _ _ rep_mounted hpath (Nat.le_refl _)
      fun hnew => hnew.1 hnil
    rw [fsCreateWithin, hfails]
    cases path2node mounted vfsRoot (name.length + 2) vfsRoot name with
    | none => exact .inl rfl
    | some found =>
      simp only [Option.bind_eq_bind, Option.bind_some, Option.map_some]
      split_ifs
      · exact .inr ⟨mounted, rfl⟩
      · exact .inl rfl
      · exact .inr ⟨mounted, rfl⟩
      · exact .inl rfl
  · left
    obtain ⟨found, hfound, hat⟩ := rep_mounted.path2node hnil hpath.2 (Nat.le_refl _)
    have hparent : found.parent = some (.node 1) := by
      rw [hat.parent, hroot, if_pos (.inl rfl)]
      rfl
    have hnode : found.node = none := by
      rw [hat.node, if_neg]
      rintro ⟨e, he, _⟩
      cases he
    have hfull : (storedAt (.node 1) mode mounted).all fitsArray = false := by
      have hcount : fitsArray (mounted.count (.node 1)) = false := by decide
      rw [storedAt, List.all_cons, hcount, Bool.false_and]
    rw [fsCreateWithin, hfound]
    simp only [Option.bind_eq_bind, Option.bind_some, hnode, if_true, hparent, Option.all_some,
      hfull, Bool.false_eq_true, if_false]

lemma handleEntry_full (hm : MemberAt mem header m) (hvalid : m.Valid)
    (hroot : m.path.dropLast = []) :
    handleEntry fitsArray mem header m.name m.data.length m.mode emptyRoot = none := by
  have hcreate (mode : ℕ) : fsCreateWithin fitsArray m.name mode emptyRoot.heap = none ∨
      ∃ heap, fsCreateWithin fitsArray m.name mode emptyRoot.heap = some (heap, none) :=
    fsCreateWithin_root hvalid.pathOk hroot
  rw [handleEntry, hm.readFiletype]
  cases m.dir with
  | true =>
    rcases hcreate (m.mode ||| statIfdir) with hcall | ⟨heap, hcall⟩ <;>
      simp only [if_true, createDirectory, hcall, Option.bind_eq_bind, Option.bind_none,
        Option.bind_some, Option.map_none]
  | false =>
    rcases hcreate (m.mode ||| statIfreg) with hcall | ⟨heap, hcall⟩ <;>
      simp only [Bool.false_eq_true, if_false, createFile, hcall, Option.bind_eq_bind,
        Option.bind_none, Option.bind_some, Option.map_none]

/-! ## Faithfulness -/

/-- The loader ends with a file system of these members. -/
def LoadsFaithfully (fits : ℕ → Bool) (modules : List Memory) (members : List Member) : Prop :=
  ∃ s, (∀ fuel, members.length < fuel → initramfsInit fits fuel modules emptyRoot = some s) ∧
    Faithful s members

/-- With arrays of children that are large enough every archive is loaded as it
is, if no name consists of slashes only.  With the arrays as they are, exactly
the archive without members is. -/
theorem initramfs_faithful_iff {mem : Memory} {members : List Member} (others : List Memory)
    (harchive : ArchiveAt mem 0 members) (hwf : WellFormed members) :
    ((∀ m ∈ members, m.path ≠ []) → LoadsFaithfully (fun _ => true) (mem :: others) members) ∧
      (LoadsFaithfully fitsArray (mem :: others) members ↔ members = []) := by
  refine ⟨?_, ?_, ?_⟩
  · intro hpath
    obtain ⟨s, hloop, hloaded⟩ := loaded_emptyRoot.initramfsLoop harchive hwf hpath
    exact ⟨s, hloop, hloaded.faithful hwf.valid⟩
  · rintro ⟨s, hloads, _⟩
    cases members with
    | nil => rfl
    | cons m members =>
      have hvalid := hwf.valid m List.mem_cons_self
      have hroot : m.path.dropLast = [] := by
        rcases hwf.parents [] m members rfl with hroot | ⟨d, hd, _⟩
        · exact hroot
        · cases hd
      have hsome := hloads (members.length + 2) (by rw [List.length_cons]; omega)
      rw [initramfsInit, List.head?_cons, Option.bind_some,
        initramfsLoop_member harchive.1 hvalid, handleEntry_full harchive.1 hvalid hroot] at hsome
      cases hsome
  · rintro rfl
    refine ⟨emptyRoot, ?_, loaded_emptyRoot.faithful hwf.valid⟩
    intro fuel hfuel
    obtain ⟨fuel, rfl⟩ : ∃ k, fuel = k + 1 := ⟨fuel - 1, by omega⟩
    exact if_pos harchive

def singleFile : Member where
  name := [0x61]
  mode := 0o644
  dir := false
  data := [0x78]

def singleFileArchive : Memory := fun i =>
  if i = 0 then 0x61
  else if 100 ≤ i ∧ i < 107 then [0x30, 0x30, 0x30, 0x30, 0x36, 0x34, 0x34].getD (i - 100) 0
  else if 124 ≤ i ∧ i < 135 then if i = 134 then 0x31 else 0x30
  else if i = 156 then 0x30
  else if 257 ≤ i ∧ i < 262 then signature.getD (i - 257) 0
  else if i = 512 then 0x78
  else 0

lemma archiveAt_singleFile : ArchiveAt singleFileArchive 0 [singleFile] := by
  have hmode : OctalField (slice singleFileArchive 100 8) singleFile.mode :=
    ⟨[], [0, 0, 0, 0, 6, 4, 4], [0], by decide +kernel⟩
  have hsize : OctalField (slice singleFileArchive 124 12) singleFile.data.length :=
    ⟨[], [0, 0, 0, 0, 0, 0, 0, 0, 0, 0, 1], [0], by decide +kernel⟩
  refine ⟨⟨by decide, hmode, hsize, rfl, by decide, rfl, by decide⟩, ?_⟩
  change slice singleFileArchive (512 * singleFile.blocks + 257) 5 ≠ signature
  decide

lemma wellFormed_singleFile : WellFormed [singleFile] := by
  constructor
  · intro m hm
    obtain rfl := List.mem_singleton.mp hm
    exact ⟨by decide, by decide, by decide, by decide, by decide, by decide⟩
  · decide
  · intro before m after heq
    obtain ⟨rfl, hm⟩ : before = [] ∧ [singleFile] = m :: after := by
      cases before with
      | nil => exact ⟨rfl, heq⟩
      | cons b before => simp at heq
    obtain ⟨rfl, _⟩ := List.cons.inj hm
    exact .inl (by decide)

theorem initramfs_faithful_singleFile :
    LoadsFaithfully (fun _ => true) [singleFileArchive] [singleFile] := by
  apply (initramfs_faithful_iff [] archiveAt_singleFile wellFormed_singleFile).1
  decide

theorem initramfs_not_faithful :
    ArchiveAt singleFileArchive 0 [singleFile] ∧ WellFormed [singleFile] ∧
      singleFile.path ≠ [] ∧ (∀ fuel, initramfsInit fitsArray fuel [singleFileArchive] emptyRoot =
        none) ∧ ¬ LoadsFaithfully fitsArray [singleFileArchive] [singleFile] := by
  have hnone (fuel : ℕ) : initramfsInit fitsArray fuel [singleFileArchive] emptyRoot = none := by
    cases fuel with
    | zero => rfl
    | succ fuel =>
      have hvalid := wellFormed_singleFile.valid _ List.mem_cons_self
      rw [initramfsInit, List.head?_cons, Option.bind_some,
        initramfsLoop_member archiveAt_singleFile.1 hvalid,
        handleEntry_full archiveAt_singleFile.1 hvalid (by decide), Option.bind_none]
  refine ⟨archiveAt_singleFile, wellFormed_singleFile, by decide, hnone, ?_⟩
  rintro ⟨s, hloads, _⟩
  have hsome := hloads 2 (by decide)
  cases hsome

end Cottage.Initramfs
