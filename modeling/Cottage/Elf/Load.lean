import Cottage.Foundations.Logged
import Cottage.Fs.TmpfsResize
import Cottage.Userland.NewThread

/-!
# Loading programs

`elf_load` for a file of the tmpfs.  For a segment that is to be loaded it gets
frames, maps them, and copies bytes of the file to them through the direct map;
the path of an interpreter is copied to a block of the heap.

All sizes and places come from the file, so a copy may leave what it was meant
for, or start at an address that is not mapped.  What local variables held
before a read is an argument, as a read behind the end of the file leaves them
as they are.  Calls of the page allocator are answered by arguments; without an
answer it has found no pages, and panics.
-/

namespace Cottage.Elf

open ByteMemory ByteString Mem Mmap Tmpfs Logged

/-! ## Headers -/

def read16 (m : Memory) (a : ℕ) : ℕ :=
  (m a).toNat + 2 ^ 8 * (m (a + 1)).toNat

def read32 (m : Memory) (a : ℕ) : ℕ :=
  read16 m a + 2 ^ 16 * read16 m (a + 2)

def sizeofHeader : ℕ := 64
def sizeofProgramHeader : ℕ := 56

/-- The fields of `elf_header_t` that are used. -/
structure Header where
  ident : List UInt8
  machine : ℕ
  ptrEntry : ℕ
  programHeaderOffset : ℕ
  progHeaderNumEntries : ℕ
  deriving DecidableEq, Repr

def Header.ofMemory (m : Memory) : Header where
  ident := (List.range 8).map m
  machine := read16 m 18
  ptrEntry := read64 m 24
  programHeaderOffset := read64 m 32
  progHeaderNumEntries := read16 m 56

/-- The fields of `elf_program_header_t` that are used. -/
structure ProgramHeader where
  type : ℕ
  flags : ℕ
  offset : ℕ
  vaddr : ℕ
  fileSize : ℕ
  memSize : ℕ
  deriving DecidableEq, Repr

def ProgramHeader.ofMemory (m : Memory) : ProgramHeader where
  type := read32 m 0
  flags := read32 m 4
  offset := read64 m 8
  vaddr := read64 m 16
  fileSize := read64 m 32
  memSize := read64 m 40

def elfClass64 : UInt8 := 2
def elfLittleEndian : UInt8 := 1
def elfOsAbiSysv : UInt8 := 0
def elfMachineX86_64 : ℕ := 0x3E
def elfFlagWrite : ℕ := 0x02
def elfPtypeLoad : ℕ := 1
def elfPtypeInterp : ℕ := 3
def elfPtypePhdr : ℕ := 6
def mmapProtExec : ℕ := 0x04

def Header.Supported (h : Header) : Prop :=
  h.ident.take 4 = [0x7F, 0x45, 0x4C, 0x46] ∧ h.ident.getD 4 0 = elfClass64 ∧
    h.ident.getD 5 0 = elfLittleEndian ∧ h.ident.getD 7 0 = elfOsAbiSysv ∧
    h.machine = elfMachineX86_64

instance (h : Header) : Decidable h.Supported :=
  inferInstanceAs (Decidable (_ ∧ _))

/-- `elf_info_t`; the path is that in the buffer, if there is one. -/
structure LoadInfo extends Userland.ElfInfo where
  ldPath : Option (List UInt8)
  deriving DecidableEq, Repr

/-! ## Stores -/

inductive Target
  | header
  | programHeader
  | ldPath
  | segment
  deriving DecidableEq, Repr

/-- What a call stores: bytes that are copied to a target of `size` bytes, from
`offset` on, and the word of a page in the tables of the pagemap. -/
inductive Store
  | copy (target : Target) (size offset count : ℕ)
  | entry (virt : ℕ)
  deriving DecidableEq, Repr

/-- All pagemaps share the tables of the kernel's half. -/
def Store.Inside : Store → Prop
  | .copy _ size offset count => offset + count ≤ size
  | .entry virt => ¬ Paging.HigherHalf virt

instance : DecidablePred Store.Inside
  | .copy .. => inferInstanceAs (Decidable (_ ≤ _))
  | .entry _ => inferInstanceAs (Decidable (¬ _))

/-- The pages that `mmap_map_range` maps in the pagemap: those that its record
covers. -/
def mappedPages (virt size : ℕ) : List ℕ :=
  let base := alignDown virt pageSize
  let length := rangeLength virt size
  ((List.range (length / pageSize)).map (rangePage base)).filter fun page =>
    decide (base ≤ page ∧ page < (base + length) % 2 ^ 64)

/-- The answers to the calls for one program header: whether `malloc` finds
memory, the frames of the segment, and the pages that `mmap_map_range` gets. -/
structure Answers where
  buffer : Bool
  frames : Option ℕ+
  tables : Option (ℕ+ × (ℕ → ℕ → ℕ → ℕ+))

/-- The arguments of a call, with the addresses that the kernel has mapped and
the bytes of the local variables. -/
structure Input where
  pagemap : ℕ
  file : Tmpfs.State
  base : ℕ
  mapped : ℕ → Bool
  header : Memory
  programHeader : ℕ → Memory
  answers : ℕ → Answers

structure LoadState where
  machine : Machine
  info : Option LoadInfo

abbrev LoadRun (α : Type) : Type :=
  Logged Store Halt α

def Input.source (inp : Input) (loc k : ℕ) : ℕ :=
  (inp.file.file.storage + loc + k) % 2 ^ 64

def Input.copied (inp : Input) (loc count : ℕ) : ℕ :=
  (tmpfsResourceRead inp.file loc count).1

def Input.SourceMapped (inp : Input) (loc count : ℕ) : Prop :=
  ∀ k < inp.copied loc count, inp.mapped (inp.source loc k) = true

instance (inp : Input) (loc count : ℕ) : Decidable (inp.SourceMapped loc count) :=
  inferInstanceAs (Decidable (∀ k < inp.copied loc count, _))

def Input.bytes (inp : Input) (loc count : ℕ) : List UInt8 :=
  (List.range (inp.copied loc count)).map fun k => inp.file.heap.heap.memory (inp.source loc k)

/-- `resource->read`; it faults at an address that is not mapped. -/
def resourceRead (inp : Input) (target : Target) (size offset loc count : ℕ) :
    LoadRun (ℕ × List UInt8) := do
  record [.copy target size offset (inp.copied loc count)]
  if inp.SourceMapped loc count then pure (inp.copied loc count, inp.bytes loc count)
  else stop .fault

/-! ## The calls -/

/-- The bytes of a block that `malloc` returns. -/
def blockRoom (len : ℕ) : ℕ :=
  ((Malloc.findSlab ((8 + len) % 2 ^ 64)).map Malloc.entSize).getD
    (divRoundup len pageSize * pageSize)

/-- `malloc` for the path of the interpreter. -/
def mallocPath (found : Bool) (len : ℕ) : Except Halt Unit :=
  if !found then .error .panic
  else if blockRoom len ≤ directMapSize then .ok () else .error .noPage

/-- `case ELF_PTYPE_INTERP` -/
def loadInterp (inp : Input) (found : Bool) (ph : ProgramHeader) (s : LoadState) :
    LoadRun (LoadState × Bool) := do
  lift (mallocPath found ph.fileSize)
  let (bytesRead, path) ← resourceRead inp .ldPath (blockRoom ph.fileSize) 0 ph.offset ph.fileSize
  if asInt64 bytesRead < 0 then pure (s, false)
  else pure ({ s with info := s.info.map fun info => { info with ldPath := some path } }, true)

/-- `case ELF_PTYPE_PHDR` -/
def loadPhdr (inp : Input) (ph : ProgramHeader) (s : LoadState) : LoadState :=
  { s with info := s.info.map fun info =>
      { info with progHeadersPtr := UInt64.ofNat (inp.base + ph.vaddr) } }

def ProgramHeader.virt (base : ℕ) (ph : ProgramHeader) : ℕ :=
  (base + ph.vaddr) % 2 ^ 64

def ProgramHeader.pageCount (ph : ProgramHeader) : ℕ :=
  divRoundup ((pageOffset ph.vaddr + ph.memSize) % 2 ^ 64) pageSize

def ProgramHeader.prot (ph : ProgramHeader) : ℕ :=
  let flags := Userland.mmapProtRead ||| mmapProtExec
  if ph.flags &&& elfFlagWrite ≠ 0 then flags ||| mmapProtWrite else flags

def allocFrames (frames : Option ℕ+) (count : ℕ) (s : Machine) : Except Halt (Machine × ℕ) :=
  frames.elim (.error .panic) fun page => pmmAllocMany page count s

def mapFrames (tables : Option (ℕ+ × (ℕ → ℕ → ℕ → ℕ+))) (pm virt phys size prot : ℕ)
    (s : Machine) : Except Halt (Machine × Bool) :=
  tables.elim (.error .panic) fun (shadow, pages) =>
    mmapMapRange pm virt phys size prot mmapMapAnon shadow pages s

/-- The rest of the loop, for `ELF_PTYPE_LOAD`.  The address of the frames is not
zero, as the page allocator panics in place of returning it. -/
def loadSegment (inp : Input) (answers : Answers) (ph : ProgramHeader) (s : LoadState) :
    LoadRun (LoadState × Bool) := do
  let misalign := pageOffset ph.vaddr
  let (machine, addr) ← lift (allocFrames answers.frames ph.pageCount s.machine)
  let (machine, ok) ← lift (mapFrames answers.tables inp.pagemap (ph.virt inp.base) addr
    (ph.pageCount * pageSize) ph.prot machine)
  record ((mappedPages (ph.virt inp.base) (ph.pageCount * pageSize)).map .entry)
  if !ok then pure ({ s with machine := machine }, false)
  else do
    let (bytesRead, bytes) ←
      resourceRead inp .segment (ph.pageCount * pageSize) misalign ph.offset ph.fileSize
    let buf := addr + misalign + higherHalf
    let machine := Userland.storeMemory machine (storeBytes machine.tables.memory buf bytes)
    pure ({ s with machine := machine }, decide (0 ≤ asInt64 bytesRead))

def Header.entryOffset (header : Header) (i : ℕ) : ℕ :=
  (header.programHeaderOffset + sizeofProgramHeader * i) % 2 ^ 64

def loadProgramHeader (inp : Input) (answers : Answers) (ph : ProgramHeader) (s : LoadState) :
    LoadRun (LoadState × Bool) :=
  if ph.type = elfPtypeInterp then loadInterp inp answers.buffer ph s
  else if ph.type = elfPtypePhdr then pure (loadPhdr inp ph s, true)
  else if ph.type = elfPtypeLoad then loadSegment inp answers ph s
  else pure (s, true)

def loadEntry (inp : Input) (header : Header) (i : ℕ) (s : LoadState) :
    LoadRun (LoadState × Bool) := do
  let (_, bytes) ← resourceRead inp .programHeader sizeofProgramHeader 0
    (header.entryOffset i) sizeofProgramHeader
  let ph := ProgramHeader.ofMemory (storeBytes (inp.programHeader i) 0 bytes)
  loadProgramHeader inp (inp.answers i) ph s

/-- What `*ret` is set to before the loop. -/
def newInfo (inp : Input) (header : Header) : LoadInfo where
  entry := UInt64.ofNat (inp.base + header.ptrEntry)
  progHeadersPtr := 0
  progHeaderEntrySize := UInt64.ofNat sizeofProgramHeader
  numHeaders := UInt64.ofNat header.progHeaderNumEntries
  ldPath := none

def loadHeader (inp : Input) (header : Header) (s : LoadState) : LoadRun (LoadState × Bool) :=
  if header.Supported then
    loop (loadEntry inp header) (List.range header.progHeaderNumEntries)
      { s with info := s.info.map fun _ => newInfo inp header }
  else pure (s, false)

def elfLoad (inp : Input) (s : LoadState) : LoadRun (LoadState × Bool) := do
  let (bytesRead, bytes) ← resourceRead inp .header sizeofHeader 0 0 sizeofHeader
  if asInt64 bytesRead < 0 then pure (s, false)
  else loadHeader inp (Header.ofMemory (storeBytes inp.header 0 bytes)) s

/-! ## Reading a file -/

variable {inp : Input} {content : List UInt8} {loc count : ℕ}

def Input.elfHeader (inp : Input) : Header :=
  .ofMemory (storeBytes inp.header 0 (inp.bytes 0 sizeofHeader))

/-- The program header that round `i` finds in its local variable. -/
def Input.entry (inp : Input) (header : Header) (i : ℕ) : ProgramHeader :=
  .ofMemory (storeBytes (inp.programHeader i) 0
    (inp.bytes (header.entryOffset i) sizeofProgramHeader))

section

variable (h : Holds inp.file content)

include h

lemma copied_of_holds (hle : loc + count ≤ content.length) : inp.copied loc count = count := by
  have hsize := h.size_eq
  have hcapacity := h.size_le
  obtain ⟨k, hk, hpow⟩ := h.capacity_eq
  have hhi : 2 ^ k ≤ 2 ^ 50 := Nat.pow_le_pow_right (by decide) hk
  rw [Input.copied, h.read (by omega) (by omega)]
  exact Nat.min_eq_left (by omega)

lemma storage_add_capacity_le : inp.file.file.storage + inp.file.file.capacity ≤ 2 ^ 64 := by
  obtain ⟨p, hptr, howned, _, hle⟩ := h.inv.layout.big_block _ h.block rfl
  have hend := h.inv.layout.run_lt howned
  simp only [Malloc.Block.pages] at hptr hend hle
  rw [divRoundup_eq hle] at hend
  simp only [pageSize] at *
  omega

lemma bytes_of_holds (hle : loc + count ≤ content.length) :
    inp.bytes loc count = (content.drop loc).take count := by
  have hend := storage_add_capacity_le h
  have hsize := h.size_eq
  have hcapacity := h.size_le
  rw [Input.bytes, copied_of_holds h hle, ← map_range_getD content hle]
  apply List.map_congr_left
  intro k hk
  have hk' := List.mem_range.mp hk
  have hsource : inp.source loc k = inp.file.file.storage + (loc + k) := by
    rw [Input.source, Nat.mod_eq_of_lt (by omega), Nat.add_assoc]
  rw [hsource]
  exact h.bytes (loc + k) (by omega)

lemma elfHeader_of_holds (hle : sizeofHeader ≤ content.length) :
    inp.elfHeader = .ofMemory (storeBytes inp.header 0 (content.take sizeofHeader)) := by
  rw [Input.elfHeader, bytes_of_holds h (by omega), List.drop_zero]

lemma entry_of_holds {header : Header} {i : ℕ}
    (hle : header.entryOffset i + sizeofProgramHeader ≤ content.length) :
    inp.entry header i = .ofMemory (storeBytes (inp.programHeader i) 0
      ((content.drop (header.entryOffset i)).take sizeofProgramHeader)) := by
  rw [Input.entry, bytes_of_holds h hle]

end

lemma exists_file (data : List UInt8) (hlength : data.length ≤ 4096) :
    ∃ file, Tmpfs.system.Reachable file ∧ Holds file data := by
  obtain ⟨heap, hheap, hcreate⟩ := Malloc.exists_initial_of_bootHeap_any
    (fun heap => (createFile 0xC000 ⟨heap, []⟩).isSome) (by decide +kernel)
  obtain ⟨file, hcreate⟩ := Option.isSome_iff_exists.mp hcreate
  have hholds := holds_of_createFile (.init hheap) hcreate
  have hcapacity : file.file.capacity = 4096 := by
    obtain ⟨_, _, rfl⟩ := Option.map_eq_some_iff.mp hcreate
    rfl
  have hle : 0 + data.length ≤ 2 ^ 62 := by omega
  rcases hholds.write_isSome 0 hle with ⟨file', hwrite⟩ | ⟨k, hgrow, _⟩
  · have hinit : Tmpfs.system.Reachable file := .init ⟨_, _, .init hheap, hcreate⟩
    have hstep : Tmpfs.system.step file (.write 0 data 0) = some file' := by
      have hsystem : Tmpfs.system.step file (.write 0 data 0) =
          if 0 + data.length ≤ 2 ^ 62 then (tmpfsResourceWrite file 0 data 0).map (·.1)
          else none := rfl
      rw [hsystem, if_pos hle, hwrite]
      rfl
    have hdata : overwrite [] 0 data = data := by
      apply List.ext_getElem
      · simp [length_overwrite]
      · intro i _ hi
        simp [overwrite, hi]
    exact ⟨file', hinit.step trivial hstep, hdata ▸ hholds.write hle hwrite⟩
  · omega

end Cottage.Elf
