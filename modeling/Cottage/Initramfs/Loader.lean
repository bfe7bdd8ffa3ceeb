import Cottage.Foundations.ByteString
import Cottage.Fs.ChildrenStorage
import Cottage.Fs.VfsRefinement
import Cottage.Stdlib.Strings

/-!
# Loading the initramfs

`initramfs_init` walks over the headers of a tar archive in memory and makes a
node for each.  A file that is written has a byte string as its contents; that
the code in `tmpfs.c` keeps byte strings is shown where it is modelled.

Which stores are inside the array is a parameter: the block of a directory is
of the size that `vfs_add_child` asks for, which is too small, and the rest of
the loader is better looked at with blocks that are large enough.

A result `none` stands for a panic, for a store outside an array, and for a
call that does not return.
-/

namespace Cottage.Initramfs

open ByteMemory ByteString Mem Vfs
open Malloc (entSize findSlab)

/-- `USTAR_MAX_LONG_FILENAME_LEN` -/
def maxLongFilenameLen : ℕ := 65536

/-- `sizeof(ustarheader_t)` -/
def headerSize : ℕ := 500

def slice (mem : Memory) (p n : ℕ) : List UInt8 :=
  (List.range n).map fun i => mem (p + i)

/-- One round of the loop of `octal2int`. -/
def octalDigit (ret : ℕ) (c : UInt8) : ℕ :=
  if 0x30 ≤ c ∧ c ≤ 0x37 then (ret * 8 + (c.toNat - 0x30)) % 2 ^ 64 else ret

def octal2int (str : List UInt8) : ℕ :=
  (str.takeWhile (· ≠ 0)).foldl octalDigit 0

def cString (mem : Memory) : ℕ → ℕ → Option Name
  | _, 0 => none
  | p, n + 1 => if mem p = 0 then some [] else (cString mem (p + 1) n).map (mem p :: ·)

/-- The bytes of `"ustar"`. -/
def signature : List UInt8 := [0x75, 0x73, 0x74, 0x61, 0x72]

inductive Filetype
  | regularFile
  | hardLink
  | symLink
  | charDevice
  | blockDevice
  | directory
  | fifo
  | gnuLongPath
  | unknown
  deriving DecidableEq, Repr

def Filetype.ofByte (c : UInt8) : Filetype :=
  if c = 0x30 then .regularFile
  else if c = 0x31 then .hardLink
  else if c = 0x32 then .symLink
  else if c = 0x33 then .charDevice
  else if c = 0x34 then .blockDevice
  else if c = 0x35 then .directory
  else if c = 0x36 then .fifo
  else if c = 0x4C then .gnuLongPath
  else .unknown

def reserved (len : ℕ) : ℕ :=
  match findSlab ((8 + len) % 2 ^ 64) with
  | some i => entSize i
  | none => divRoundup len pageSize * pageSize

/-- The bytes of the array of a directory that has had so many children added
to it. -/
def arrayBytes : ℕ → ℕ
  | 0 => reserved Children.nodeSize
  | count + 1 =>
    let len := Children.pointerSize * (count + 1 + 1)
    if len > arrayBytes count then reserved len else arrayBytes count

def fitsArray (index : ℕ) : Bool :=
  Children.nodeSize * (index + 1) ≤ arrayBytes index

/-- The indices at which a call of `internal_create` stores children: in the
array of the parent, and the two aliases in that of a new directory. -/
def storedAt (parent : NodePtr) (mode : ℕ) (h : Heap) : List ℕ :=
  h.count parent :: if statIsDir mode then [0, 1] else []

/-- `fs_create` with stores where they fit. -/
def fsCreateWithin (fits : ℕ → Bool) (name : Name) (mode : ℕ) (h : Heap) :
    Option (Heap × Option NodePtr) := do
  let found ← path2node h vfsRoot (name.length + 2) vfsRoot name
  let parent := if found.node = none then found.parent else none
  if parent.all fun p => (storedAt p mode h).all fits then
    (fsCreate (name.length + 2) name mode h).map fun (h, node, _) => (h, node)
  else none

/-! ## The loop -/

/-- The contents of a file are found by its resource. -/
structure State where
  heap : Heap
  contents : ℕ → List UInt8

def emptyRoot : State where
  heap := mounted
  contents := fun _ => []

/-- The new file is empty, and then `data` is written to it at its beginning. -/
def createFile (fits : ℕ → Bool) (name : Name) (mode : ℕ) (data : List UInt8) (s : State) :
    Option State := do
  let (heap, node) ← fsCreateWithin fits name (mode ||| statIfreg) s.heap
  let newNode ← node
  if data.length = 0 then none
  else some ⟨heap, Function.update s.contents (heap.get newNode).resource (overwrite [] 0 data)⟩

def createDirectory (fits : ℕ → Bool) (name : Name) (mode : ℕ) (s : State) : Option State := do
  let (heap, node) ← fsCreateWithin fits name (mode ||| statIfdir) s.heap
  let _ ← node
  some { s with heap := heap }

def noOverride : Memory :=
  fun _ => 0

/-- The `switch`, with the new `name_override`.  `fs_symlink` fails if it finds a
place for the link, and otherwise follows a null pointer. -/
def handleEntry (fits : ℕ → Bool) (mem : Memory) (header : ℕ) (name : Name) (size mode : ℕ)
    (s : State) : Option (State × Memory) :=
  match Filetype.ofByte (mem (header + 156)) with
  | .regularFile =>
    (createFile fits name mode (slice mem (header + 512) size) s).map (·, noOverride)
  | .symLink => none
  | .directory => (createDirectory fits name mode s).map (·, noOverride)
  | .gnuLongPath =>
    if size > maxLongFilenameLen then none
    else some (s, fun i => if i < size then mem (header + 512 * headerSize + i) else 0)
  | _ => some (s, noOverride)

/-- `strncmp(name, "./", strlen(name)) == 0` -/
def isSkipped (name : Name) : Bool :=
  name.isPrefixOf [0x2E, slash]

lemma isSkipped_iff_strncmp {m : ℕ → UInt8} {a b : ℕ} {name : Name}
    (hname : Stdlib.HoldsString m a name) (hdot : Stdlib.HoldsString m b [0x2E, slash]) :
    isSkipped name = true ↔ (Stdlib.strncmp a b name.length).run m = 0 := by
  rw [isSkipped, List.isPrefixOf_iff_prefix, Stdlib.run_strncmp_length hname hdot]

/-- The name in the header, unless the entry before it was a long name. -/
def entryName (mem : Memory) (header : ℕ) (nameOverride : Memory) : Option Name :=
  if nameOverride 0 = 0 then cString mem header maxLongFilenameLen
  else cString nameOverride 0 maxLongFilenameLen

/-- The `while` loop from a header on. -/
def initramfsLoop (fits : ℕ → Bool) (mem : Memory) : ℕ → ℕ → Memory → State → Option State
  | 0, _, _, _ => none
  | fuel + 1, header, nameOverride, s =>
    if slice mem (header + 257) 5 ≠ signature then some s
    else
      (entryName mem header nameOverride).bind fun name =>
        let size := octal2int (slice mem (header + 124) 12)
        let mode := octal2int (slice mem (header + 100) 8)
        (if isSkipped name then some (s, noOverride)
          else handleEntry fits mem header name size mode s).bind fun (s, nameOverride) =>
            initramfsLoop fits mem fuel (header + (512 + alignUp size 512)) nameOverride s

/-- There is a panic if there is no module, and the first is the archive. -/
def initramfsInit (fits : ℕ → Bool) (fuel : ℕ) (modules : List Memory) (s : State) :
    Option State :=
  modules.head?.bind fun mem => initramfsLoop fits mem fuel 0 noOverride s

end Cottage.Initramfs
