import Cottage.Userland.NewThread

/-!
# Strings and tables on the stack of a program

What the kernel writes below the top of a new stack.  The strings take a word
for each of their bytes, and the tables below them are the words that the ABI
wants.  The addresses in the tables go down by one for each byte, so that they
lead to places above the strings that have a byte other than zero.
-/

namespace Cottage.Userland

open ByteMemory Mem Mmap WordStack ByteString

variable {argv envp strings : List CString} {info : ElfInfo} {vma : ℕ} {stack : Stack} {m : Memory}

lemma stringSlots_nil : stringSlots [] = 0 :=
  rfl

lemma stringSlots_cons (str : CString) (strings : List CString) :
    stringSlots (str :: strings) = str.strlen + 1 + stringSlots strings := by
  rw [stringSlots, List.map_cons, List.sum_cons, ← stringSlots]

lemma stringSlots_append (strings strings' : List CString) :
    stringSlots (strings ++ strings') = stringSlots strings + stringSlots strings' := by
  rw [stringSlots, List.map_append, List.sum_append, ← stringSlots, ← stringSlots]

lemma pushStrings_append (strings strings' : List CString) (stack : Stack) :
    pushStrings (strings ++ strings') stack = pushStrings strings' (pushStrings strings stack) :=
  List.foldl_append

lemma pushStrings_cons (str : CString) (strings : List CString) (stack : Stack) :
    pushStrings (str :: strings) stack = pushStrings strings (stack.pushBytes str.terminated) :=
  rfl

lemma pointer_pushBytes_terminated (str : CString) (hroom : 8 * (str.strlen + 1) ≤ stack.pointer)
    (hlt : stack.pointer ≤ 2 ^ 64) :
    (stack.pushBytes str.terminated).pointer = stack.pointer - 8 * (str.strlen + 1) := by
  rw [Stack.pointer_pushBytes, length_terminated]
  exact sub64_of_le hroom (by omega)

lemma pushStrings_spec (hroom : 8 * stringSlots strings ≤ stack.pointer)
    (hlt : stack.pointer ≤ 2 ^ 64) :
    (pushStrings strings stack).pointer + 8 * stringSlots strings = stack.pointer ∧
      AgreeOutside stack.memory (pushStrings strings stack).memory
        (pushStrings strings stack).pointer (8 * stringSlots strings) := by
  induction strings generalizing stack with
  | nil => exact ⟨rfl, fun _ _ => rfl⟩
  | cons str strings ih =>
    rw [stringSlots_cons] at hroom ⊢
    have hpointer := pointer_pushBytes_terminated str (by omega) hlt
    obtain ⟨hend, hagree⟩ := @ih (stack.pushBytes str.terminated) (by omega) (by omega)
    rw [pushStrings_cons]
    refine ⟨by omega, fun x hx => ?_⟩
    have hbytes := agreeOutside_storeBytes stack.memory
      (stack.pushBytes str.terminated).pointer str.terminated
    rw [length_terminated] at hbytes
    rw [hagree x (by omega)]
    exact hbytes x (by omega)

lemma pushStrings_of_empty (hempty : ∀ str ∈ strings, str.strlen = 0) {x : ℕ}
    (hx : stack.memory x = 0) : (pushStrings strings stack).memory x = 0 := by
  induction strings generalizing stack with
  | nil => exact hx
  | cons str strings ih =>
    obtain ⟨hstr, hrest⟩ := List.forall_mem_cons.mp hempty
    apply ih hrest
    have hbytes : str.terminated = [0] := by
      rw [CString.terminated, List.eq_nil_of_length_eq_zero hstr]
      rfl
    have hmem : (stack.pushBytes str.terminated).memory x = storeBytes stack.memory
        (stack.pushBytes str.terminated).pointer str.terminated x := rfl
    rw [hmem, storeBytes_apply, hbytes]
    split_ifs with hin
    · rw [List.length_singleton] at hin
      have hzero : x - (stack.pushBytes [0]).pointer = 0 := by omega
      rw [hzero]
      rfl
    · exact hx

lemma pushStrings_near_top {a top x : ℕ} (str : CString) (htop : stack.pointer + 8 * a = top)
    (hroom : 8 * stringSlots (str :: strings) ≤ stack.pointer) (hlt : stack.pointer ≤ 2 ^ 64)
    (hx : top ≤ x + 7 * (a + (str.strlen + 1))) :
    (pushStrings (str :: strings) stack).memory x = stack.memory x := by
  induction strings generalizing stack str a with
  | nil =>
    rw [stringSlots_cons, stringSlots_nil] at hroom
    have hpointer := pointer_pushBytes_terminated str (by omega) hlt
    have hbytes := agreeOutside_storeBytes stack.memory
      (stack.pushBytes str.terminated).pointer str.terminated
    rw [length_terminated] at hbytes
    exact hbytes x (by omega)
  | cons str' strings ih =>
    rw [stringSlots_cons] at hroom
    have hpointer := pointer_pushBytes_terminated str (by omega) hlt
    have hbytes := agreeOutside_storeBytes stack.memory
      (stack.pushBytes str.terminated).pointer str.terminated
    rw [length_terminated] at hbytes
    rw [pushStrings_cons, @ih (stack.pushBytes str.terminated) (a + (str.strlen + 1)) str'
      (by omega) (by omega) (by omega) (by omega)]
    exact hbytes x (by omega)

lemma pushStrings_first_byte {empty rest : List CString} (str : CString)
    (hempty : ∀ str ∈ empty, str.strlen = 0)
    (hroom : 8 * stringSlots (empty ++ str :: rest) ≤ stack.pointer)
    (hlt : stack.pointer ≤ 2 ^ 64)
    (hzero : stack.memory (stack.pointer - stringSlots (empty ++ [str])) = 0) :
    (pushStrings (empty ++ str :: rest) stack).memory
      (stack.pointer - stringSlots (empty ++ [str])) = 0 := by
  rw [stringSlots_append] at hroom
  obtain ⟨hpointer, _⟩ := @pushStrings_spec empty stack (by omega) hlt
  rw [pushStrings_append, @pushStrings_near_top rest _ (stringSlots empty) stack.pointer _ str
    hpointer (by omega) (by omega)]
  · exact pushStrings_of_empty hempty hzero
  · rw [stringSlots_append, stringSlots_cons, stringSlots_nil]
    omega

lemma stringAddresses_spec (hroom : stringSlots strings ≤ vma) (hlt : vma < 2 ^ 64) :
    (stringAddresses vma strings).2 = vma - stringSlots strings ∧
      ∀ i, i < strings.length → (stringAddresses vma strings).1[i]? =
        some (vma - stringSlots (strings.take (i + 1))) := by
  induction strings generalizing vma with
  | nil => exact ⟨rfl, fun i hi => absurd hi (Nat.not_lt_zero i)⟩
  | cons str strings ih =>
    rw [stringSlots_cons] at hroom
    have hfirst : sub64 vma (str.strlen + 1) = vma - (str.strlen + 1) :=
      sub64_of_le (by omega) (by omega)
    obtain ⟨hlast, haddresses⟩ := @ih (vma - (str.strlen + 1)) (by omega) (by omega)
    simp only [stringAddresses, hfirst]
    refine ⟨?_, fun i hi => ?_⟩
    · rw [hlast, stringSlots_cons]
      omega
    · cases i with
      | zero => rfl
      | succ i =>
        rw [List.getElem?_cons_succ, haddresses i (Nat.lt_of_succ_lt_succ hi),
          List.take_succ_cons, stringSlots_cons]
        congr 1
        omega

def auxv (info : ElfInfo) : List ℕ :=
  [elfAtPhnum, info.numHeaders.toNat, elfAtPhent, info.progHeaderEntrySize.toNat, elfAtPhdr,
    info.progHeadersPtr.toNat, elfAtEntry, info.entry.toNat, 0, 0]

def stackWords (argv envp : List CString) (info : ElfInfo) (vma : ℕ) : List ℕ :=
  [argv.length] ++ ((stringAddresses (stringAddresses vma envp).2 argv).1 ++
    ([0] ++ ((stringAddresses vma envp).1 ++ ([0] ++ auxv info))))

def pushedWords (argv envp : List CString) (info : ElfInfo) (vma : ℕ) : List (List ℕ) :=
  [[0], [elfAtEntry, info.entry.toNat], [elfAtPhdr, info.progHeadersPtr.toNat],
    [elfAtPhent, info.progHeaderEntrySize.toNat], [elfAtPhnum, info.numHeaders.toNat], [0],
    (stringAddresses vma envp).1, [0], (stringAddresses (stringAddresses vma envp).2 argv).1,
    [argv.length]]

lemma length_stackWords : (stackWords argv envp info vma).length =
    13 + argv.length + envp.length := by
  simp only [stackWords, List.length_append, length_stringAddresses, auxv, List.length_cons,
    List.length_nil]
  omega

lemma getElem?_append_add {α : Type*} {xs ys : List α} {n : ℕ} (hlength : xs.length = n)
    (i : ℕ) : (xs ++ ys)[n + i]? = ys[i]? := by
  subst hlength
  rw [List.getElem?_append_right (Nat.le_add_right _ _), Nat.add_sub_cancel_left]

lemma stackWords_arg {i : ℕ} (hi : i < argv.length) :
    (stackWords argv envp info vma)[1 + i]? =
      (stringAddresses (stringAddresses vma envp).2 argv).1[i]? := by
  rw [stackWords, getElem?_append_add List.length_singleton, List.getElem?_append_left]
  rwa [length_stringAddresses]

lemma stackWords_after_args (i : ℕ) :
    (stackWords argv envp info vma)[1 + argv.length + i]? =
      ([0] ++ ((stringAddresses vma envp).1 ++ ([0] ++ auxv info)))[i]? := by
  rw [stackWords, Nat.add_assoc, getElem?_append_add List.length_singleton,
    getElem?_append_add (length_stringAddresses _ _)]

lemma stackWords_env {i : ℕ} (hi : i < envp.length) :
    (stackWords argv envp info vma)[2 + argv.length + i]? = (stringAddresses vma envp).1[i]? := by
  have hindex : 2 + argv.length + i = 1 + argv.length + (1 + i) := by omega
  rw [hindex, stackWords_after_args, getElem?_append_add List.length_singleton,
    List.getElem?_append_left]
  rwa [length_stringAddresses]

lemma stackWords_after_env (i : ℕ) :
    (stackWords argv envp info vma)[2 + argv.length + envp.length + i]? =
      ([0] ++ auxv info)[i]? := by
  have hindex : 2 + argv.length + envp.length + i =
      1 + argv.length + (1 + (envp.length + i)) := by omega
  rw [hindex, stackWords_after_args, getElem?_append_add List.length_singleton,
    getElem?_append_add (length_stringAddresses _ _)]

def paddedStack (argv envp : List CString) (stack : Stack) : Stack :=
  if (argv.length + envp.length + 1) % 2 ≠ 0 then (pushStrings (envp ++ argv) stack).drop 1
  else pushStrings (envp ++ argv) stack

lemma buildStack_pushed
    (hroom : 8 * (13 + argv.length + envp.length) ≤ (paddedStack argv envp stack).pointer)
    (hlt : (paddedStack argv envp stack).pointer ≤ 2 ^ 64) :
    Pushed (paddedStack argv envp stack).memory (paddedStack argv envp stack).pointer
      (stackWords argv envp info vma) (buildStack argv envp info vma stack) := by
  have hbuild : buildStack argv envp info vma stack =
      (pushedWords argv envp info vma).foldl Stack.push
        ((paddedStack argv envp stack).push [0]) := by
    rw [paddedStack, pushStrings_append]
    rfl
  have hwords : stackWords argv envp info vma =
      (pushedWords argv envp info vma).foldl (fun ws ws' => ws' ++ ws) ([0] ++ []) := rfl
  have hfirst := (pushed_nil (paddedStack argv envp stack)).push [0]
    (by simp only [List.append_nil, List.length_singleton]; omega)
    (by simp only [List.append_nil, List.length_singleton]; omega)
  rw [hbuild, hwords]
  refine hfirst.pushAll ?_ ?_
  · simp only [pushedWords, List.flatten_cons, List.flatten_nil, List.length_append,
      List.length_cons, List.length_nil, length_stringAddresses]
    omega
  · simp only [List.append_nil, List.length_singleton]
    omega

lemma buildStack_spec (hroom : 8 * stackSlots argv envp ≤ stack.pointer)
    (hlt : stack.pointer ≤ 2 ^ 64) :
    (buildStack argv envp info vma stack).pointer + 8 * stackSlots argv envp = stack.pointer ∧
      Words (buildStack argv envp info vma stack).memory
        (buildStack argv envp info vma stack).pointer (stackWords argv envp info vma) ∧
      AgreeOutside stack.memory (buildStack argv envp info vma stack).memory
        (buildStack argv envp info vma stack).pointer (8 * stackSlots argv envp) ∧
      ∀ x, stack.pointer ≤ x + 8 * stringSlots (envp ++ argv) →
        (buildStack argv envp info vma stack).memory x =
          (pushStrings (envp ++ argv) stack).memory x := by
  have hslots : stackSlots argv envp = stringSlots (envp ++ argv) +
      (argv.length + envp.length + 1) % 2 + (13 + argv.length + envp.length) := by
    rw [stackSlots, stringSlots_append]
  obtain ⟨hstrings, hagree⟩ := @pushStrings_spec (envp ++ argv) stack (by omega) hlt
  have hpadded : (paddedStack argv envp stack).memory = (pushStrings (envp ++ argv) stack).memory ∧
      (paddedStack argv envp stack).pointer + 8 * ((argv.length + envp.length + 1) % 2) =
        (pushStrings (envp ++ argv) stack).pointer := by
    rw [paddedStack]
    split_ifs with hpad
    · have hone : 8 * 1 ≤ (pushStrings (envp ++ argv) stack).pointer := by omega
      have hsmall : (pushStrings (envp ++ argv) stack).pointer - 8 * 1 < 2 ^ 64 := by omega
      refine ⟨Stack.memory_drop _ _, ?_⟩
      rw [Stack.pointer_drop, sub64_of_le hone hsmall]
      omega
    · exact ⟨rfl, by omega⟩
  obtain ⟨hmemory, hpointer⟩ := hpadded
  obtain ⟨hend, hwords, hagree'⟩ := @buildStack_pushed argv envp info vma stack (by omega)
    (by omega)
  rw [length_stackWords] at hend hagree'
  rw [hmemory] at hagree'
  refine ⟨by omega, hwords, fun x hx => ?_, fun x hx => ?_⟩
  · rw [hagree' x (by omega)]
    exact hagree x (by omega)
  · exact hagree' x (by omega)

lemma stackSlots_ge : 13 + argv.length + envp.length ≤ stackSlots argv envp := by
  rw [stackSlots]
  omega

lemma auxv_lt (info : ElfInfo) : ∀ w ∈ auxv info, w < 2 ^ 64 := by
  simp only [auxv, elfAtEntry, elfAtPhdr, elfAtPhent, elfAtPhnum, List.forall_mem_cons]
  refine ⟨by decide, UInt64.toNat_lt _, by decide, UInt64.toNat_lt _, by decide,
    UInt64.toNat_lt _, by decide, UInt64.toNat_lt _, by decide, by decide, ?_⟩
  exact nofun

end Cottage.Userland
