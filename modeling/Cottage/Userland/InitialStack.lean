import Cottage.Userland.StackTables

/-!
# The initial stack of a program

What a program finds at its stack pointer.  The tables are where the ABI wants
them, but the addresses in them are counted down from the top of the stack in
bytes, while the strings were put there in steps of words.  The address of the
first string that is not empty leads to bytes that were never written, above all
strings that have a byte other than zero.
-/

namespace Cottage.Userland

open ByteMemory Mem Mmap WordStack ByteString

variable {argv envp : List CString} {info : ElfInfo} {vma : ℕ} {stack : Stack}

variable {s s' : Machine} {top bottom rsp : ℕ}

structure StringAt (s : Machine) (top bottom vma p : ℕ) (str : CString) : Prop where
  above : bottom ≤ p
  below : p + str.strlen < vma
  bytes : ∀ i (hi : i < str.terminated.length),
    userByte s top (p + i) = some (str.terminated.get ⟨i, hi⟩)

structure InitialStack (s : Machine) (top bottom vma rsp : ℕ) (argv envp : List CString)
    (info : ElfInfo) : Prop where
  above : bottom ≤ rsp
  below : rsp + 8 * (13 + argv.length + envp.length) ≤ vma
  argc : userWord s top rsp = some argv.length
  args : ∀ i (hi : i < argv.length), ∃ p, userWord s top (rsp + 8 * (1 + i)) = some p ∧
    StringAt s top bottom vma p (argv.get ⟨i, hi⟩)
  argsEnd : userWord s top (rsp + 8 * (1 + argv.length)) = some 0
  env : ∀ i (hi : i < envp.length), ∃ p,
    userWord s top (rsp + 8 * (2 + argv.length + i)) = some p ∧
      StringAt s top bottom vma p (envp.get ⟨i, hi⟩)
  envEnd : userWord s top (rsp + 8 * (2 + argv.length + envp.length)) = some 0
  aux : ∀ i (hi : i < (auxv info).length),
    userWord s top (rsp + 8 * (3 + argv.length + envp.length + i)) = some ((auxv info).get ⟨i, hi⟩)

/-- The tables are there, and the first string that may have bytes other than
zero leads to a zero. -/
structure Built (s : Machine) (top bottom vma rsp : ℕ) (argv envp : List CString)
    (info : ElfInfo) : Prop where
  rsp_eq : rsp + 8 * stackSlots argv envp = vma
  above : bottom ≤ rsp
  vma_lt : vma < 2 ^ 64
  words : ∀ i w, (stackWords argv envp info vma)[i]? = some w →
    userWord s top (rsp + 8 * i) = some (w % 2 ^ 64)
  firstByte : ∀ before str rest, envp ++ argv = before ++ str :: rest →
    (∀ str ∈ before, str.strlen = 0) →
    userByte s top (vma - stringSlots (before ++ [str])) = some 0

section

variable (h : Built s top bottom vma rsp argv envp info)

include h

lemma Built.stringSlots_le : stringSlots (envp ++ argv) ≤ vma := by
  have hrsp := h.rsp_eq
  rw [stackSlots, ← stringSlots_append] at hrsp
  omega

lemma Built.stringAt_iff {before rest : List CString} {str : CString}
    (hsplit : envp ++ argv = before ++ str :: rest) (hempty : ∀ str ∈ before, str.strlen = 0) :
    StringAt s top bottom vma (vma - stringSlots (before ++ [str])) str ↔ str.strlen = 0 := by
  have hbyte := h.firstByte before str rest hsplit hempty
  have hrsp := h.rsp_eq
  have habove := h.above
  have hslots : stringSlots (before ++ [str]) ≤ stringSlots (envp ++ argv) := by
    rw [hsplit, List.append_cons before str rest, stringSlots_append (before ++ [str]) rest]
    exact Nat.le_add_right _ _
  rw [stackSlots, ← stringSlots_append] at hrsp
  have hpos : str.strlen < stringSlots (before ++ [str]) := by
    rw [stringSlots_append, stringSlots_cons]
    omega
  constructor
  · intro hstr
    by_contra hne
    have hpos' : 0 < str.bytes.length := Nat.pos_of_ne_zero hne
    have hlt : 0 < str.terminated.length := by
      rw [length_terminated]
      exact Nat.succ_pos _
    have hfirst := hstr.bytes 0 hlt
    rw [Nat.add_zero, hbyte] at hfirst
    have hget : str.terminated.get ⟨0, hlt⟩ = str.bytes.get ⟨0, hpos'⟩ :=
      List.getElem_append_left hpos'
    apply str.nonzero
    rw [Option.some.inj hfirst, hget]
    exact List.get_mem _ _
  · intro hzero
    refine ⟨by omega, by omega, fun i hi => ?_⟩
    rw [length_terminated, hzero] at hi
    obtain rfl : i = 0 := by omega
    have hbytes : str.terminated = [0] := by
      rw [CString.terminated, List.eq_nil_of_length_eq_zero hzero]
      rfl
    rw [Nat.add_zero, hbyte]
    simp [hbytes]

lemma Built.env_word {i : ℕ} (hi : i < envp.length) :
    userWord s top (rsp + 8 * (2 + argv.length + i)) =
      some (vma - stringSlots (envp.take (i + 1))) := by
  have hle := h.stringSlots_le
  rw [stringSlots_append] at hle
  have haddress := (@stringAddresses_spec envp vma (by omega) h.vma_lt).2 i hi
  rw [h.words _ _ ((stackWords_env hi).trans haddress), Nat.mod_eq_of_lt]
  exact (Nat.sub_le _ _).trans_lt h.vma_lt

lemma Built.arg_word {i : ℕ} (hi : i < argv.length) : userWord s top (rsp + 8 * (1 + i)) =
      some (vma - stringSlots (envp ++ argv.take (i + 1))) := by
  have hle := h.stringSlots_le
  have hvma := h.vma_lt
  rw [stringSlots_append] at hle
  have henv := (@stringAddresses_spec envp vma (by omega) hvma).1
  have haddress := (@stringAddresses_spec argv (vma - stringSlots envp) (by omega)
    (by omega)).2 i hi
  rw [← henv] at haddress
  rw [h.words _ _ ((stackWords_arg hi).trans haddress), Nat.mod_eq_of_lt, henv, Nat.sub_sub,
    stringSlots_append]
  omega

end

lemma split_env {i : ℕ} (hi : i < envp.length) (argv : List CString) :
    envp ++ argv = envp.take i ++ envp.get ⟨i, hi⟩ :: (envp.drop (i + 1) ++ argv) ∧
      envp.take (i + 1) = envp.take i ++ [envp.get ⟨i, hi⟩] := by
  refine ⟨?_, (List.take_append_getElem hi).symm⟩
  conv_lhs => rw [← List.take_append_drop i envp, List.drop_eq_getElem_cons hi]
  rw [List.append_assoc]
  rfl

lemma split_arg {i : ℕ} (hi : i < argv.length) (envp : List CString) :
    envp ++ argv = envp ++ argv.take i ++ argv.get ⟨i, hi⟩ :: argv.drop (i + 1) ∧
      envp ++ argv.take (i + 1) = envp ++ argv.take i ++ [argv.get ⟨i, hi⟩] := by
  obtain ⟨hsplit, htake⟩ := split_env hi []
  rw [List.append_nil, List.append_nil] at hsplit
  refine ⟨?_, ?_⟩
  · conv_lhs => rw [hsplit]
    rw [List.append_assoc]
  · rw [htake, List.append_assoc]

lemma Built.env_stringAt_iff (h : Built s top bottom vma rsp argv envp info) {i : ℕ}
    (hi : i < envp.length) (hempty : ∀ str ∈ envp.take i, str.strlen = 0) :
    (∃ p, userWord s top (rsp + 8 * (2 + argv.length + i)) = some p ∧
      StringAt s top bottom vma p (envp.get ⟨i, hi⟩)) ↔ (envp.get ⟨i, hi⟩).strlen = 0 := by
  obtain ⟨hsplit, htake⟩ := split_env hi argv
  have hstr := h.stringAt_iff hsplit hempty
  rw [h.env_word hi, htake]
  constructor
  · rintro ⟨p, hp, hat⟩
    rw [← Option.some.inj hp] at hat
    exact hstr.mp hat
  · intro hzero
    exact ⟨_, rfl, hstr.mpr hzero⟩

lemma Built.arg_stringAt_iff (h : Built s top bottom vma rsp argv envp info) {i : ℕ}
    (hi : i < argv.length) (hempty : ∀ str ∈ envp ++ argv.take i, str.strlen = 0) :
    (∃ p, userWord s top (rsp + 8 * (1 + i)) = some p ∧
      StringAt s top bottom vma p (argv.get ⟨i, hi⟩)) ↔ (argv.get ⟨i, hi⟩).strlen = 0 := by
  obtain ⟨hsplit, htake⟩ := split_arg hi envp
  have hstr := h.stringAt_iff hsplit hempty
  rw [h.arg_word hi, htake]
  constructor
  · rintro ⟨p, hp, hat⟩
    rw [← Option.some.inj hp] at hat
    exact hstr.mp hat
  · intro hzero
    exact ⟨_, rfl, hstr.mpr hzero⟩

lemma forall_mem_of_take {P : CString → Prop} {strings : List CString}
    (hstep : ∀ i (hi : i < strings.length), (∀ str ∈ strings.take i, P str) →
      P (strings.get ⟨i, hi⟩)) : ∀ str ∈ strings, P str := by
  have hall : ∀ n ≤ strings.length, ∀ str ∈ strings.take n, P str := by
    intro n
    induction n with
    | zero => simp
    | succ n ih =>
      intro hn str hstr
      have hbefore := ih (Nat.le_of_succ_le hn)
      rw [(split_env hn []).2, List.mem_append, List.mem_singleton] at hstr
      rcases hstr with hstr | rfl
      · exact hbefore str hstr
      · exact hstep n hn hbefore
  simpa using hall strings.length le_rfl

lemma Built.initialStack_iff (h : Built s top bottom vma rsp argv envp info) :
    InitialStack s top bottom vma rsp argv envp info ↔ ∀ str ∈ envp ++ argv, str.strlen = 0 := by
  constructor
  · intro hinitial
    have henv : ∀ str ∈ envp, str.strlen = 0 := forall_mem_of_take fun i hi hbefore =>
      (h.env_stringAt_iff hi hbefore).mp (hinitial.env i hi)
    have hargs : ∀ str ∈ argv, str.strlen = 0 := forall_mem_of_take fun i hi hbefore =>
      (h.arg_stringAt_iff hi (List.forall_mem_append.mpr ⟨henv, hbefore⟩)).mp (hinitial.args i hi)
    exact List.forall_mem_append.mpr ⟨henv, hargs⟩
  · intro hempty
    obtain ⟨henv, hargs⟩ := List.forall_mem_append.mp hempty
    have hrsp := h.rsp_eq
    have hvma := h.vma_lt
    have hslots := @stackSlots_ge argv envp
    have hwords := h.words
    refine ⟨h.above, by omega, ?_, fun i hi => ?_, ?_, fun i hi => ?_, ?_, fun i hi => ?_⟩
    · have hargc := hwords 0 argv.length rfl
      rwa [Nat.mod_eq_of_lt (by omega)] at hargc
    · refine (h.arg_stringAt_iff hi ?_).mpr (hargs _ (List.get_mem _ _))
      exact List.forall_mem_append.mpr ⟨henv, fun str hstr => hargs str (List.mem_of_mem_take hstr)⟩
    · exact hwords (1 + argv.length) 0 (stackWords_after_args 0)
    · refine (h.env_stringAt_iff hi ?_).mpr (henv _ (List.get_mem _ _))
      exact fun str hstr => henv str (List.mem_of_mem_take hstr)
    · exact hwords (2 + argv.length + envp.length) 0 (stackWords_after_env 0)
    · have hindex : 3 + argv.length + envp.length + i =
          2 + argv.length + envp.length + (1 + i) := by omega
      have hword : (stackWords argv envp info vma)[3 + argv.length + envp.length + i]? =
          some ((auxv info).get ⟨i, hi⟩) := by
        rw [hindex, stackWords_after_env, getElem?_append_add List.length_singleton]
        exact List.getElem?_eq_getElem hi
      rw [hwords _ _ hword, Nat.mod_eq_of_lt (auxv_lt info _ (List.get_mem _ _))]

variable {process process' : Process} {pc arg : ℕ} {pages : ThreadPages} {image : FpuImage}
  {thread : Thread} {wantElf : Bool}

lemma agreeOutside_fpuSave (image : FpuImage) (storage : ℕ) (m : Memory) :
    AgreeOutside m (fpuSave image storage m) storage
      (divRoundup image.size.toNat pageSize * pageSize) := by
  have hstored := agreeOutside_storeBytes m storage ((List.range image.size.toNat).map image.bytes)
  rw [List.length_map, List.length_range] at hstored
  intro x hx
  apply hstored
  rw [divRoundup_image] at hx
  simp only [pageSize] at hx
  omega

lemma StackTop.le {top : ℕ} (h : StackTop top) : top ≤ procDefaultThreadStackTop := by
  induction h with
  | default => exact le_rfl
  | next _ _ ih => exact (Nat.sub_le _ _).trans ih

lemma Created.mapping {stackPhys fpu : ℕ} {s₁ s₂ s₃ s₄ s₅ : Machine}
    (h : Created process wantElf pc arg argv envp info pages image s s' process' thread stackPhys
      fpu s₁ s₂ s₃ s₄ s₅) (hs : system.Reachable s) (hpm : process.pagemap < s.pagemaps.count)
    (hprocess : StackTop process.threadStackTop) (hbottom : stackSize ≤ process.threadStackTop) :
    ∃ tops label s₆, s₆ = storeMemory s₅ (fpuSave image (fpu + higherHalf) s₅.tables.memory) ∧
      World s₆ s₆.tables.owned tops label ∧ s.top process.pagemap ∈ tops ∧
      s₆.top process.pagemap = s.top process.pagemap ∧
      Mapping s₆ label (s.top process.pagemap) (process.threadStackTop - stackSize) stackPhys 512
        (mmapProtRead ||| mmapProtWrite) (fun _ => 0) := by
  obtain ⟨tops, label₀, hw⟩ := ordered_of_reachable hs
  have htop := hw.top_mem _ hpm
  have hle := hprocess.le
  have hdvd : pageSize ∣ process.threadStackTop - stackSize :=
    Nat.dvd_sub hprocess.dvd (by decide)
  have hsub : sub64 process.threadStackTop stackSize = process.threadStackTop - stackSize := by
    apply sub64_of_le hbottom
    simp only [procDefaultThreadStackTop] at hle
    omega
  have halign : alignDown (process.threadStackTop - stackSize) pageSize =
      process.threadStackTop - stackSize := Nat.div_mul_cancel hdvd
  have hlower : alignDown (process.threadStackTop - stackSize) pageSize + 512 * pageSize ≤
      2 ^ 47 := by
    rw [halign]
    simp only [procDefaultThreadStackTop, stackSize, pageSize] at *
    omega
  have hrange := h.range
  rw [hsub] at hrange
  obtain ⟨label, hw₂, hmap₂, _, _, htop₂, _⟩ := hw.mapFrames hpm hlower h.stack hrange
  rw [halign] at hmap₂
  obtain ⟨_, hkernel⟩ := h.kernelStack
  obtain ⟨hw₃, _, htop₃, hmap₃⟩ := hw₂.allocFrames hkernel
  obtain ⟨_, hpf⟩ := h.pfStack
  obtain ⟨hw₄, _, htop₄, hmap₄⟩ := hw₃.allocFrames hpf
  obtain ⟨hw₅, hregion, htop₅, hmap₅⟩ := hw₄.allocFrames h.fpuStorage
  obtain ⟨hmapping, hapart⟩ := hmap₅ htop (hmap₄ htop (hmap₃ htop hmap₂).1).1
  have hagree := agreeOutside_fpuSave image (fpu + higherHalf) s₅.tables.memory
  refine ⟨tops, label, _, rfl, (hw₅.writeRegion hregion hagree).1, htop, ?_, ?_⟩
  · exact (htop₅ _).trans ((htop₄ _).trans ((htop₃ _).trans (htop₂ _)))
  · exact hmapping.writeOther hw₅ htop hregion hapart hagree

lemma built_of_mapping {label : ℕ → Paging.Labels} {tops : List ℕ} {stackPhys prot : ℕ}
    (hw : World s s.tables.owned tops label) (htop : top ∈ tops)
    (hmapping : Mapping s label top (vma - stackSize) stackPhys 512 prot (fun _ => 0))
    (hdvd : pageSize ∣ vma - stackSize) (hbottom : stackSize ≤ vma) (hlt : vma < 2 ^ 64)
    (hfit : 8 * stackSlots argv envp ≤ stackSize) (hmemory : stack.memory = s.tables.memory)
    (hstart : stack.pointer = stackPhys + stackSize + higherHalf) :
    Built (storeMemory s (buildStack argv envp info vma stack).memory) top (vma - stackSize) vma
      (vma - 8 * stackSlots argv envp) argv envp info := by
  have hsize : 512 * pageSize = stackSize := rfl
  have hslots : stackSlots argv envp = stringSlots (envp ++ argv) +
      (argv.length + envp.length + 1) % 2 + (13 + argv.length + envp.length) := by
    rw [stackSlots, stringSlots_append]
  have hpage := hmapping.region.isPage hw (show 511 < 512 by decide)
  have hend : stack.pointer ≤ 2 ^ 64 := by
    have hend := hpage.2.2
    simp only [directMapSize, higherHalf, stackSize, pageSize] at *
    omega
  have hroom : 8 * stackSlots argv envp ≤ stack.pointer := by omega
  obtain ⟨hpointer, hwords, hagree, hstrings⟩ := @buildStack_spec argv envp info vma stack hroom
    hend
  generalize buildStack argv envp info vma stack = built at hpointer hwords hagree hstrings ⊢
  rw [hmemory] at hagree
  have hagree' : AgreeOutside s.tables.memory built.memory (stackPhys + higherHalf)
      (512 * pageSize) := by
    intro x hx
    apply hagree
    omega
  have hwindow : Window (storeMemory s built.memory) top (vma - stackSize) stackPhys
      (512 * pageSize) := hmapping.window_write hw htop hdvd (by decide) hagree'
  have hstored : (storeMemory s built.memory).tables.memory = built.memory := rfl
  generalize storeMemory s built.memory = s' at hwindow hstored ⊢
  refine ⟨by omega, by omega, hlt, ?_, ?_⟩
  · intro i w hw
    have hi := (List.getElem?_eq_some_iff.mp hw).1
    rw [length_stackWords] at hi
    have haddr : vma - 8 * stackSlots argv envp + 8 * i =
        vma - stackSize + (stackSize - 8 * stackSlots argv envp + 8 * i) := by omega
    have hplace : stackPhys + higherHalf + (stackSize - 8 * stackSlots argv envp + 8 * i) =
        built.pointer + 8 * i := by omega
    have hinside : stackSize - 8 * stackSlots argv envp + 8 * i + 8 ≤ stackSize := by omega
    rw [haddr, hwindow.userWord_eq hinside, hplace, hstored, hwords.read64_eq hw]
  · intro before str rest hsplit hempty
    have hle : stringSlots (before ++ [str]) ≤ stringSlots (envp ++ argv) := by
      rw [hsplit, List.append_cons before str rest, stringSlots_append (before ++ [str]) rest]
      exact Nat.le_add_right _ _
    have hpos : 0 < stringSlots (before ++ [str]) := by
      rw [stringSlots_append, stringSlots_cons]
      omega
    rw [hsplit] at hstrings hslots hle
    generalize hn : stringSlots (before ++ [str]) = n at hle hpos ⊢
    have haddr : vma - n = vma - stackSize + (stackSize - n) := by omega
    have hplace : stackPhys + higherHalf + (stackSize - n) = stack.pointer - n := by omega
    have hinside : stackSize - n < stackSize := by omega
    have hzero := hmapping.bytes (stackSize - n) hinside
    rw [hplace, ← hmemory, ← hn] at hzero
    have hbelow : 8 * stringSlots (before ++ str :: rest) ≤ stack.pointer := by omega
    have hplace' : stack.pointer ≤ stack.pointer - n + 8 * stringSlots (before ++ str :: rest) := by
      omega
    have hbyte := pushStrings_first_byte str hempty hbelow hend hzero
    rw [hn, ← hstrings _ hplace'] at hbyte
    rw [haddr, hwindow _ hinside, hplace, hstored, hbyte]

lemma top_storeMemory (s : Machine) (m : Memory) (pm : ℕ) : (storeMemory s m).top pm = s.top pm :=
  rfl

lemma built_of_newUserThread (hs : system.Reachable s)
    (hpm : process.pagemap < s.pagemaps.count) (hprocess : StackTop process.threadStackTop)
    (hbottom : stackSize ≤ process.threadStackTop)
    (hfit : 8 * stackSlots argv envp ≤ stackSize)
    (hcall : newUserThread process true pc arg argv envp info pages image s =
      .ok (s', process', some thread)) :
    Built s' (s'.top process.pagemap) (process.threadStackTop - stackSize) process.threadStackTop
      thread.rsp argv envp info := by
  obtain ⟨stackPhys, fpu, s₁, s₂, s₃, s₄, s₅, h⟩ := exists_created hcall
  obtain ⟨tops, label, s₆, hs₆, hw, htop, htop₆, hmapping⟩ := h.mapping hs hpm hprocess hbottom
  obtain ⟨process₀, thread₀, hfinish, _⟩ := h.finish
  rw [← hs₆, finishThread, if_pos rfl] at hfinish
  obtain ⟨rfl, _⟩ := Prod.mk.inj hfinish
  have hle := hprocess.le
  have hlt : process.threadStackTop < 2 ^ 64 := hle.trans_lt (by decide)
  have hdvd : pageSize ∣ process.threadStackTop - stackSize :=
    Nat.dvd_sub hprocess.dvd (by decide)
  have hrsp : thread.rsp = process.threadStackTop - 8 * stackSlots argv envp :=
    (rsp_of_newUserThread hcall).trans
      (sub64_of_le (hfit.trans hbottom) ((Nat.sub_le _ _).trans_lt hlt))
  rw [top_storeMemory, htop₆, hrsp]
  exact built_of_mapping hw htop hmapping hdvd hbottom hlt hfit rfl rfl

/-- Whether a program finds what it should: no string has a byte, the words for
the ends of the strings fit, and there are addresses for the stack. -/
structure Presentable (process : Process) (argv envp : List CString) : Prop where
  empty : ∀ str ∈ envp ++ argv, str.strlen = 0
  fits : 8 * stackSlots argv envp ≤ stackSize
  addresses : stackSize ≤ process.threadStackTop

/-- The stack of a new program, for strings and tables that fit in it, is as the
ABI wants it exactly if all strings are empty. -/
theorem initial_stack_iff (hs : system.Reachable s) (hpm : process.pagemap < s.pagemaps.count)
    (hprocess : StackTop process.threadStackTop)
    (hfit : stringSlots envp + stringSlots argv + 8 * (13 + argv.length + envp.length) ≤ stackSize)
    (hcall : newUserThread process true pc arg argv envp info pages image s =
      .ok (s', process', some thread)) :
    InitialStack s' (s'.top process.pagemap) (sub64 process.threadStackTop stackSize)
      process.threadStackTop thread.rsp argv envp info ↔ Presentable process argv envp := by
  have hlt : process.threadStackTop < 2 ^ 64 := hprocess.le.trans_lt (by decide)
  constructor
  · intro h
    have hrsp := rsp_of_newUserThread hcall
    have habove := h.above
    have hbelow := h.below
    have hslots : 8 * stackSlots argv envp ≤ 8 * stackSize := by
      rw [stackSlots]
      omega
    have hsize : stackSize < 2 ^ 60 := by decide
    have hbottom : stackSize ≤ process.threadStackTop := by
      by_contra hlow
      rw [sub64] at habove
      omega
    have hslots' : 8 * stackSlots argv envp ≤ stackSize := by
      rw [sub64_of_le hbottom (by omega)] at habove
      rw [sub64] at hrsp
      omega
    rw [sub64_of_le hbottom (by omega)] at h
    exact ⟨(built_of_newUserThread hs hpm hprocess hbottom hslots' hcall).initialStack_iff.mp h,
      hslots', hbottom⟩
  · rintro ⟨hempty, hslots, hbottom⟩
    rw [sub64_of_le hbottom ((Nat.sub_le _ _).trans_lt hlt)]
    exact (built_of_newUserThread hs hpm hprocess hbottom hslots hcall).initialStack_iff.mpr hempty

theorem initial_stack_empty_argument :
    ∃ s pages s' process' thread, system.Reachable s ∧ 0 < s.pagemaps.count ∧
      newUserThread freshProcess true 0x401000 0 [⟨[], by decide⟩] [] exampleInfo pages
        legacyImage s = .ok (s', process', some thread) ∧
      InitialStack s' (s'.top 0) 0x6ffffe00000 0x70000000000 thread.rsp [⟨[], by decide⟩] []
        exampleInfo := by
  obtain ⟨s, pages, s', process', thread, hs, hcount, hcall⟩ :=
    exists_first_thread [⟨[], by decide⟩] []
  have hpresentable : Presentable freshProcess [⟨[], by decide⟩] [] :=
    ⟨by decide, by decide, by decide⟩
  exact ⟨s, pages, s', process', thread, hs, hcount, hcall,
    (initial_stack_iff hs hcount .default (by decide) hcall).mpr hpresentable⟩

theorem initial_stack_sh :
    ∃ s pages s' process' thread, system.Reachable s ∧ 0 < s.pagemaps.count ∧
      newUserThread freshProcess true 0x401000 0 [⟨[115, 104], by decide⟩] [] exampleInfo pages
        legacyImage s = .ok (s', process', some thread) ∧
      userWord s' (s'.top 0) (thread.rsp + 8) = some 0x6fffffffffd ∧
      userByte s' (s'.top 0) 0x6fffffffffd = some 0 ∧
      ¬ InitialStack s' (s'.top 0) 0x6ffffe00000 0x70000000000 thread.rsp
        [⟨[115, 104], by decide⟩] [] exampleInfo := by
  obtain ⟨s, pages, s', process', thread, hs, hcount, hcall⟩ :=
    exists_first_thread [⟨[115, 104], by decide⟩] []
  have hbuilt := built_of_newUserThread hs hcount .default (by decide) (by decide) hcall
  have hslots : freshProcess.threadStackTop - stringSlots [⟨[115, 104], by decide⟩] =
      0x6fffffffffd := by decide
  have hword : userWord s' (s'.top 0) (thread.rsp + 8) = some (freshProcess.threadStackTop -
      stringSlots [⟨[115, 104], by decide⟩]) := hbuilt.arg_word (i := 0) Nat.one_pos
  have hbyte : userByte s' (s'.top 0) (freshProcess.threadStackTop -
      stringSlots [⟨[115, 104], by decide⟩]) = some 0 :=
    hbuilt.firstByte [] _ [] rfl nofun
  refine ⟨s, pages, s', process', thread, hs, hcount, hcall, hword, hbyte, fun h => ?_⟩
  have hempty := hbuilt.initialStack_iff.mp h _ (.head _)
  cases hempty

end Cottage.Userland
