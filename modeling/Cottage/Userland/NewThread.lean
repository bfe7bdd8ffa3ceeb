import Cottage.Foundations.WordStack
import Cottage.Mem.UserMemory

/-!
# A new thread of a program

`new_user_thread` for a thread that gets a stack of its own.  The stack is a
region of the process backed by frames in a row.  For the first thread of a
program the strings of its arguments and its environment are copied to the top
of the stack, and the tables of the ABI are built below them; the kernel writes
through the direct map, while the addresses in the tables are those of the
program.

The pointer to the stack is a pointer to words, so a string takes as many words
as it has bytes.

The answers of the page allocator are arguments.
-/

namespace Cottage.Userland

open ByteMemory Mem Mmap WordStack

structure CString where
  bytes : List UInt8
  nonzero : 0 ∉ bytes
  deriving DecidableEq

def CString.strlen (str : CString) : ℕ :=
  str.bytes.length

def CString.terminated (str : CString) : List UInt8 :=
  str.bytes ++ [0]

/-- `elf_info_t` without the path of the loader. -/
structure ElfInfo where
  entry : UInt64
  progHeadersPtr : UInt64
  progHeaderEntrySize : UInt64
  numHeaders : UInt64
  deriving DecidableEq, Repr

def pushStrings (strings : List CString) (stack : Stack) : Stack :=
  strings.foldl (fun stack str => stack.pushBytes str.terminated) stack

/-- One of the two loops over a table: the addresses, and where the last string
starts. -/
def stringAddresses (vma : ℕ) : List CString → List ℕ × ℕ
  | [] => ([], vma)
  | str :: rest =>
    let vma := sub64 vma (str.strlen + 1)
    let (addresses, last) := stringAddresses vma rest
    (vma :: addresses, last)

def elfAtPhdr : ℕ := 3
def elfAtPhent : ℕ := 4
def elfAtPhnum : ℕ := 5
def elfAtEntry : ℕ := 9

/-- The block for `want_elf`; `vma` is the address of the top of the stack in the
program. -/
def buildStack (argv envp : List CString) (info : ElfInfo) (vma : ℕ) (stack : Stack) : Stack :=
  let stack := pushStrings envp stack
  let stack := pushStrings argv stack
  let stack := if (argv.length + envp.length + 1) % 2 ≠ 0 then stack.drop 1 else stack
  let stack := (stack.push [0]).push [0]
  let stack := stack.push [elfAtEntry, info.entry.toNat]
  let stack := stack.push [elfAtPhdr, info.progHeadersPtr.toNat]
  let stack := stack.push [elfAtPhent, info.progHeaderEntrySize.toNat]
  let stack := stack.push [elfAtPhnum, info.numHeaders.toNat]
  let (envAddresses, vma) := stringAddresses vma envp
  let stack := (stack.push [0]).push envAddresses
  let (argAddresses, _) := stringAddresses vma argv
  let stack := (stack.push [0]).push argAddresses
  stack.push [argv.length]

def stackSize : ℕ := 0x200000

def procDefaultThreadStackTop : ℕ := 0x70000000000

structure Process where
  pagemap : ℕ
  threadStackTop : ℕ
  threadCount : ℕ
  deriving DecidableEq, Repr

structure Thread where
  tid : ℕ
  cr3 : ℕ
  kernelStack : ℕ
  pfStack : ℕ
  fpuStorage : ℕ
  rip : ℕ
  rdi : ℕ
  rsp : ℕ
  deriving DecidableEq, Repr

structure ThreadPages where
  stack : ℕ+
  shadow : ℕ+
  tables : ℕ → ℕ → ℕ → ℕ+
  kernelStack : ℕ+
  pfStack : ℕ+
  fpu : ℕ+

/-- What `fpu_save` stores, and how much. -/
structure FpuImage where
  size : UInt32
  bytes : ℕ → UInt8

def mmapProtRead : ℕ := 0x01

def fpuSave (image : FpuImage) (storage : ℕ) (m : Memory) : Memory :=
  ByteString.storeBytes m storage ((List.range image.size.toNat).map image.bytes)

def storeMemory (s : Machine) (m : Memory) : Machine :=
  { s with tables := { s.tables with memory := m } }

/-- The end of `new_user_thread`, with the stack at `stackPhys`. -/
def finishThread (process : Process) (wantElf : Bool) (pc arg stackVma stackPhys : ℕ)
    (argv envp : List CString) (info : ElfInfo) (thread : Thread) (s : Machine) :
    Machine × Process × Thread :=
  let stackTop := stackPhys + stackSize + higherHalf
  let thread := { thread with
    tid := process.threadCount
    cr3 := s.top process.pagemap
    rip := pc
    rdi := arg
    rsp := stackVma }
  let process := { process with threadCount := process.threadCount + 1 }
  if wantElf then
    let stack := buildStack argv envp info stackVma ⟨s.tables.memory, stackTop⟩
    (storeMemory s stack.memory, process,
      { thread with rsp := sub64 thread.rsp (sub64 stackTop stack.pointer) })
  else (s, process, thread)

/-- `new_user_thread` with `requested_stack = 0`; `none` is the null pointer. -/
def newUserThread (process : Process) (wantElf : Bool) (pc arg : ℕ) (argv envp : List CString)
    (info : ElfInfo) (pages : ThreadPages) (image : FpuImage) (s : Machine) :
    Except Halt (Machine × Process × Option Thread) :=
  let stackVma := process.threadStackTop
  let stackBottomVma := sub64 stackVma stackSize
  let process := { process with threadStackTop := sub64 stackBottomVma pageSize }
  (pmmAllocMany pages.stack (stackSize / pageSize) s).bind fun (s, stackPhys) =>
    (mmapMapRange process.pagemap stackBottomVma stackPhys stackSize
      (mmapProtRead ||| mmapProtWrite) mmapMapAnon pages.shadow pages.tables s).bind fun (s, ok) =>
        if !ok then .ok (s, process, none)
        else (pmmAllocMany pages.kernelStack (stackSize / pageSize) s).bind fun (s, kernelStack) =>
          (pmmAllocMany pages.pfStack (stackSize / pageSize) s).bind fun (s, pfStack) =>
            (pmmAllocMany pages.fpu (divRoundup image.size.toNat pageSize) s).map fun (s, fpu) =>
              let thread : Thread :=
                { tid := 0
                  cr3 := 0
                  kernelStack := kernelStack + stackSize + higherHalf
                  pfStack := pfStack + stackSize + higherHalf
                  fpuStorage := fpu + higherHalf
                  rip := 0
                  rdi := 0
                  rsp := 0 }
              let s := storeMemory s (fpuSave image thread.fpuStorage s.tables.memory)
              let (s, process, thread) :=
                finishThread process wantElf pc arg stackVma stackPhys argv envp info thread s
              (s, process, some thread)

variable {process process' : Process} {pc arg : ℕ} {argv envp : List CString} {info : ElfInfo}
  {pages : ThreadPages} {image : FpuImage} {s s' : Machine} {thread : Thread} {wantElf : Bool}

structure Created (process : Process) (wantElf : Bool) (pc arg : ℕ) (argv envp : List CString)
    (info : ElfInfo) (pages : ThreadPages) (image : FpuImage) (s s' : Machine)
    (process' : Process) (thread : Thread) (stackPhys fpu : ℕ) (s₁ s₂ s₃ s₄ s₅ : Machine) :
    Prop where
  stack : pmmAllocMany pages.stack (stackSize / pageSize) s = .ok (s₁, stackPhys)
  range : mmapMapRange process.pagemap (sub64 process.threadStackTop stackSize) stackPhys stackSize
    (mmapProtRead ||| mmapProtWrite) mmapMapAnon pages.shadow pages.tables s₁ = .ok (s₂, true)
  kernelStack : ∃ phys, pmmAllocMany pages.kernelStack (stackSize / pageSize) s₂ = .ok (s₃, phys)
  pfStack : ∃ phys, pmmAllocMany pages.pfStack (stackSize / pageSize) s₃ = .ok (s₄, phys)
  fpuStorage : pmmAllocMany pages.fpu (divRoundup image.size.toNat pageSize) s₄ = .ok (s₅, fpu)
  finish : ∃ process₀ thread₀, finishThread process₀ wantElf pc arg process.threadStackTop stackPhys
    argv envp info thread₀ (storeMemory s₅ (fpuSave image (fpu + higherHalf) s₅.tables.memory)) =
      (s', process', thread) ∧ process₀.pagemap = process.pagemap ∧
      process₀.threadStackTop = sub64 (sub64 process.threadStackTop stackSize) pageSize

lemma exists_created (hcall : newUserThread process wantElf pc arg argv envp info pages image s =
    .ok (s', process', some thread)) :
    ∃ stackPhys fpu s₁ s₂ s₃ s₄ s₅, Created process wantElf pc arg argv envp info pages image s s'
      process' thread stackPhys fpu s₁ s₂ s₃ s₄ s₅ := by
  unfold newUserThread at hcall
  obtain ⟨⟨s₁, stackPhys⟩, hstack, hcall⟩ := bind_eq_ok.mp hcall
  obtain ⟨⟨s₂, ok⟩, hrange, hcall⟩ := bind_eq_ok.mp hcall
  cases ok with
  | false => cases hcall
  | true =>
    simp only [Bool.not_true, Bool.false_eq_true, if_false] at hcall
    obtain ⟨⟨s₃, kernelStack⟩, hkernel, hcall⟩ := bind_eq_ok.mp hcall
    obtain ⟨⟨s₄, pfStack⟩, hpf, hcall⟩ := bind_eq_ok.mp hcall
    obtain ⟨⟨s₅, fpu⟩, hfpu, hcall⟩ := map_eq_ok.mp hcall
    refine ⟨stackPhys, fpu, s₁, s₂, s₃, s₄, s₅, hstack, hrange, ⟨_, hkernel⟩, ⟨_, hpf⟩, hfpu, ?_⟩
    obtain ⟨rfl, hrest⟩ := Prod.mk.inj hcall
    obtain ⟨rfl, hthread⟩ := Prod.mk.inj hrest
    cases hthread
    exact ⟨_, _, rfl, rfl, rfl⟩

lemma newUserThread_of_calls {stackPhys kernelStack pfStack fpu : ℕ} {s₁ s₂ s₃ s₄ s₅ : Machine}
    (hstack : pmmAllocMany pages.stack (stackSize / pageSize) s = .ok (s₁, stackPhys))
    (hrange : mmapMapRange process.pagemap (sub64 process.threadStackTop stackSize) stackPhys
      stackSize (mmapProtRead ||| mmapProtWrite) mmapMapAnon pages.shadow pages.tables s₁ =
        .ok (s₂, true))
    (hkernel : pmmAllocMany pages.kernelStack (stackSize / pageSize) s₂ = .ok (s₃, kernelStack))
    (hpf : pmmAllocMany pages.pfStack (stackSize / pageSize) s₃ = .ok (s₄, pfStack))
    (hfpu : pmmAllocMany pages.fpu (divRoundup image.size.toNat pageSize) s₄ = .ok (s₅, fpu)) :
    ∃ s' process' thread, newUserThread process wantElf pc arg argv envp info pages image s =
      .ok (s', process', some thread) := by
  unfold newUserThread
  simp only [hstack, hrange, hkernel, hpf, hfpu, Except.bind, Except.map, Bool.not_true,
    Bool.false_eq_true, if_false]
  exact ⟨_, _, _, rfl⟩

lemma rangeLength_stack_le (virt : ℕ) : rangeLength virt stackSize / pageSize ≤ 512 := by
  have hlt : virt % pageSize < stackSize := (Nat.mod_lt virt (by decide)).trans (by decide)
  rw [rangeLength_of_lt hlt (by decide)]
  simp only [stackSize, pageSize]
  omega

lemma divRoundup_image (image : FpuImage) :
    divRoundup image.size.toNat pageSize = (image.size.toNat + 4095) / 4096 := by
  have hlt := image.size.toNat_lt
  exact divRoundup_eq (by omega)

lemma exists_newUserThread {lo : ℕ} (process : Process) (wantElf : Bool) (pc arg : ℕ)
    (argv envp : List CString) (info : ElfInfo) (image : FpuImage) (hbelow : Below lo s.tables)
    (himage : 0 < image.size.toNat) (hlo : lo + 2 ^ 24 ≤ directPages) :
    ∃ pages s' process' thread, newUserThread process wantElf pc arg argv envp info pages image s =
      .ok (s', process', some thread) := by
  have hlength := rangeLength_stack_le (sub64 process.threadStackTop stackSize)
  have hfpu := divRoundup_image image
  have hsize := image.size.toNat_lt
  obtain ⟨t₁, hcall₁, h₁⟩ := pmmAllocMany_returns hbelow (show 0 < 512 by decide) (by omega)
  obtain ⟨s₂, hcall₂, h₂⟩ := @mmapMapRange_returns { s with tables := t₁ } (lo + 512)
    process.pagemap (sub64 process.threadStackTop stackSize) (pageAt lo) stackSize
    (mmapProtRead ||| mmapProtWrite) mmapMapAnon h₁ (by omega)
  have h₂' : Below (lo + 5121) s₂.tables := h₂.mono (by omega)
  obtain ⟨t₃, hcall₃, h₃⟩ := pmmAllocMany_returns h₂' (show 0 < 512 by decide) (by omega)
  obtain ⟨t₄, hcall₄, h₄⟩ := @pmmAllocMany_returns { s₂ with tables := t₃ } _ 512 h₃ (by decide)
    (by omega)
  obtain ⟨t₅, hcall₅, _⟩ := @pmmAllocMany_returns { s₂ with tables := t₄ } _
    (divRoundup image.size.toNat pageSize) h₄ (by omega) (by omega)
  exact ⟨⟨pageAt lo, pageAt (lo + 512), fun k c => pagesFrom (lo + 512 + 1 + 9 * k + 3 * c),
    pageAt (lo + 5121), pageAt (lo + 5121 + 512), pageAt (lo + 5121 + 512 + 512)⟩,
    newUserThread_of_calls hcall₁ hcall₂ hcall₃ hcall₄ hcall₅⟩

/-! ## Where the stack ends up -/

def stringSlots (strings : List CString) : ℕ :=
  (strings.map fun str => str.strlen + 1).sum

def stackSlots (argv envp : List CString) : ℕ :=
  stringSlots envp + stringSlots argv + (argv.length + envp.length + 1) % 2 +
    (13 + argv.length + envp.length)

lemma length_terminated (str : CString) : str.terminated.length = str.strlen + 1 := by
  rw [CString.terminated, List.length_append]
  rfl

lemma length_stringAddresses (vma : ℕ) (strings : List CString) :
    (stringAddresses vma strings).1.length = strings.length := by
  induction strings generalizing vma with
  | nil => rfl
  | cons str strings ih =>
    rw [stringAddresses]
    exact congrArg Nat.succ (ih _)

lemma sub64_pointer_pushStrings (strings : List CString) (stack : Stack) (n : ℕ) :
    sub64 (pushStrings strings stack).pointer n =
      sub64 stack.pointer (8 * stringSlots strings + n) := by
  induction strings generalizing stack with
  | nil =>
    rw [stringSlots, List.map_nil, List.sum_nil, Nat.mul_zero, Nat.zero_add]
    rfl
  | cons str strings ih =>
    have hcons : pushStrings (str :: strings) stack =
        pushStrings strings (stack.pushBytes str.terminated) := rfl
    have hslots : 8 * stringSlots (str :: strings) + n =
        8 * str.terminated.length + (8 * stringSlots strings + n) := by
      rw [length_terminated, stringSlots, List.map_cons, List.sum_cons, ← stringSlots]
      omega
    rw [hcons, ih, Stack.pointer_pushBytes, sub64_sub64, hslots]

lemma pointer_buildStack (argv envp : List CString) (info : ElfInfo) (vma : ℕ) (stack : Stack) :
    (buildStack argv envp info vma stack).pointer =
      sub64 stack.pointer (8 * stackSlots argv envp) := by
  simp only [buildStack, Stack.pointer_push, sub64_sub64, length_stringAddresses, List.length_cons,
    List.length_nil]
  split_ifs with hpad
  · rw [Stack.pointer_drop, sub64_sub64, sub64_pointer_pushStrings, sub64_pointer_pushStrings,
      stackSlots]
    congr 1
    omega
  · rw [sub64_pointer_pushStrings, sub64_pointer_pushStrings, stackSlots]
    congr 1
    omega

/-- Where the stacks of a process may end: each thread takes a stack and a page
below it, and a forked process goes on where its parent is. -/
inductive StackTop : ℕ → Prop
  | default : StackTop procDefaultThreadStackTop
  | next {top : ℕ} : StackTop top → stackSize + pageSize ≤ top →
      StackTop (top - (stackSize + pageSize))

lemma StackTop.dvd {top : ℕ} (h : StackTop top) : pageSize ∣ top := by
  induction h with
  | default => decide
  | next _ _ ih => exact Nat.dvd_sub ih (by decide)

lemma rsp_of_newUserThread (hcall : newUserThread process true pc arg argv envp info pages image
    s = .ok (s', process', some thread)) :
    thread.rsp = sub64 process.threadStackTop (8 * stackSlots argv envp) := by
  obtain ⟨stackPhys, fpu, s₁, s₂, s₃, s₄, s₅, h⟩ := exists_created hcall
  obtain ⟨process₀, thread₀, hfinish, _⟩ := h.finish
  obtain ⟨_, hrest⟩ := Prod.mk.inj hfinish
  cases hrest
  rw [pointer_buildStack]
  simp only [sub64]
  omega

/-- The stack pointer of the first thread of a program is aligned exactly if the
strings have an even number of bytes, their ends included. -/
theorem stack_aligned_iff (hprocess : StackTop process.threadStackTop)
    (hcall : newUserThread process true pc arg argv envp info pages image s =
      .ok (s', process', some thread)) :
    16 ∣ thread.rsp ↔ 2 ∣ stringSlots envp + stringSlots argv := by
  have hdvd := hprocess.dvd
  rw [rsp_of_newUserThread hcall, stackSlots, sub64]
  simp only [pageSize] at hdvd
  omega

def freshProcess : Process where
  pagemap := 0
  threadStackTop := procDefaultThreadStackTop
  threadCount := 0

def legacyImage : FpuImage where
  size := 512
  bytes := fun _ => 0

def exampleInfo : ElfInfo where
  entry := 0x401000
  progHeadersPtr := 0x400040
  progHeaderEntrySize := 56
  numHeaders := 2

lemma exists_first_thread (argv envp : List CString) :
    ∃ s pages s' process' thread, system.Reachable s ∧ 0 < s.pagemaps.count ∧
      newUserThread freshProcess true 0x401000 0 argv envp exampleInfo pages legacyImage s =
        .ok (s', process', some thread) := by
  obtain ⟨s, hs, hcount, hbelow⟩ := exists_pagemap
  have hlimit : 0x201 + 2 ^ 24 ≤ directPages := by
    unfold directPages
    decide
  obtain ⟨pages, s', process', thread, hcall⟩ := exists_newUserThread freshProcess true 0x401000 0
    argv envp exampleInfo legacyImage hbelow (by decide) hlimit
  exact ⟨s, pages, s', process', thread, hs, hcount ▸ Nat.one_pos, hcall⟩

theorem stack_aligned_a :
    ∃ s pages s' process' thread, StackTop freshProcess.threadStackTop ∧
      newUserThread freshProcess true 0x401000 0 [⟨[97], by decide⟩] [] exampleInfo pages
        legacyImage s = .ok (s', process', some thread) ∧ 16 ∣ thread.rsp := by
  obtain ⟨s, pages, s', process', thread, _, _, hcall⟩ :=
    exists_first_thread [⟨[97], by decide⟩] []
  exact ⟨s, pages, s', process', thread, .default, hcall,
    (stack_aligned_iff .default hcall).mpr (by decide)⟩

theorem stack_not_aligned_sh :
    ∃ s pages s' process' thread, StackTop freshProcess.threadStackTop ∧
      newUserThread freshProcess true 0x401000 0 [⟨[115, 104], by decide⟩] [] exampleInfo pages
        legacyImage s = .ok (s', process', some thread) ∧
      thread.rsp = 0x6ffffffff78 ∧ ¬ 16 ∣ thread.rsp := by
  obtain ⟨s, pages, s', process', thread, _, _, hcall⟩ :=
    exists_first_thread [⟨[115, 104], by decide⟩] []
  have hrsp : thread.rsp = 0x6ffffffff78 := rsp_of_newUserThread hcall
  refine ⟨s, pages, s', process', thread, .default, hcall, hrsp, ?_⟩
  rw [hrsp]
  decide

end Cottage.Userland
