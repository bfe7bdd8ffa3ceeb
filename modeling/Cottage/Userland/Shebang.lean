import Cottage.Foundations.ByteMemory
import Cottage.Foundations.Loop
import Mathlib.Data.List.GetD

/-!
# The first line of a script

`parse_shebang` reads the first line of a script and is to store the path of
the interpreter and its argument in two buffers of its caller.  It takes the
buffers for variables that hold pointers: the caller passes the addresses of
two arrays of characters, filled with zeros, and the function stores what it
has read at the address it finds in their first bytes, which is zero.  It also
drops the first character of the path, with which it has left the loop over the
spaces, and both of its other loops end after one character.
-/

namespace Cottage.Shebang

open ByteMemory Loop

structure Parse where
  memory : Memory
  c : UInt8
  fseekPtr : ℕ
  interpreter : ℕ
  arg : ℕ
  reads : List ℕ
  writes : List ℕ

inductive Outcome
  | failed
  | returned (s : Parse)

/-- `SHEBANG_MAX_INT_LEN` and `SHEBANG_MAX_ARG_LEN` -/
def maxLen : ℕ := 256

/-- `PSB_GETC()` -/
def getc (file : List UInt8) (s : Parse) : Parse :=
  { s with
    c := file.getD s.fseekPtr s.c
    fseekPtr := s.fseekPtr + 1
    reads := s.reads ++ [s.fseekPtr] }

def store (dest : ℕ) (s : Parse) : Parse :=
  { s with
    memory := s.memory.set dest s.c
    writes := s.writes ++ [dest] }

/-- `p - orig >= limit`, for pointers to characters. -/
def Beyond (p orig limit : ℕ) : Prop :=
  limit ≤ (p + 2 ^ 64 - orig) % 2 ^ 64 ∧ (p + 2 ^ 64 - orig) % 2 ^ 64 < 2 ^ 63

instance (p orig limit : ℕ) : Decidable (Beyond p orig limit) :=
  inferInstanceAs (Decidable (_ ∧ _))

def spaceRound (file : List UInt8) (s : Parse) : Parse ⊕ Parse :=
  let s := getc file s
  if s.c = 32 then .inl s else .inr s

/-- The loop over the interpreter; it is left with `false` where the function
returns. -/
def interpreterRound (file : List UInt8) (orig : ℕ) (s : Parse) : Parse ⊕ (Parse × Bool) :=
  let s := getc file s
  if s.c = 32 then .inr (s, true)
  else if s.c = 10 then .inr (s, false)
  else
    let s := store (read64 s.memory s.interpreter) s
    let s := { s with interpreter := s.interpreter + 8 }
    if Beyond (read64 s.memory s.interpreter) orig maxLen then .inl s else .inr (s, true)

def argRound (file : List UInt8) (orig : ℕ) (s : Parse) : Parse ⊕ Parse :=
  let s := getc file s
  if s.c = 10 then .inr s
  else
    let s := store (read64 s.memory s.arg) s
    let s := { s with arg := s.arg + 8 }
    if Beyond (read64 s.memory s.arg) orig maxLen then .inl s else .inr s

def start (interpreter arg : ℕ) (memory : Memory) : Parse where
  memory := memory
  c := 0
  fseekPtr := 0
  interpreter := interpreter
  arg := arg
  reads := []
  writes := []

/-- At most `fuel` rounds of each loop. -/
def parseShebang (fuel : ℕ) (file : List UInt8) (interpreter arg : ℕ) (memory : Memory) :
    Option Outcome :=
  let interpreterOrig := read64 memory interpreter
  let argOrig := read64 memory arg
  let s := getc file (start interpreter arg memory)
  if s.c ≠ 35 then some .failed
  else
    let s := getc file s
    if s.c ≠ 33 then some .failed
    else
      (run (spaceRound file) fuel s).bind fun s =>
        (run (interpreterRound file interpreterOrig) fuel s).bind fun r =>
          if r.2 then (run (argRound file argOrig) fuel r.1).map .returned
          else some (.returned r.1)

structure Line where
  spaces : ℕ
  path : List UInt8
  argument : Option (List UInt8)
  path_length : 1 ≤ path.length ∧ path.length ≤ 255
  path_chars : ∀ c ∈ path, c ≠ 32 ∧ c ≠ 10
  argument_length : ∀ a ∈ argument, 1 ≤ a.length ∧ a.length ≤ 255
  argument_chars : ∀ a ∈ argument, ∀ c ∈ a, c ≠ 10

def Line.tail (line : Line) : List UInt8 :=
  line.argument.elim [] (32 :: ·)

def Line.text (line : Line) : List UInt8 :=
  [35, 33] ++ List.replicate line.spaces 32 ++ line.path ++ line.tail

/-- The two buffers of the caller, filled with zeros. -/
structure Buffers (memory : Memory) (interpreter arg : ℕ) : Prop where
  interpreter_pos : 0 < interpreter
  arg_pos : 0 < arg
  interpreter_zero : ∀ k < maxLen, memory (interpreter + k) = 0
  arg_zero : ∀ k < maxLen, memory (arg + k) = 0

def Stored (memory : Memory) (buffer : ℕ) (content : List UInt8) : Prop :=
  ∀ k ≤ content.length, memory (buffer + k) = content.getD k 0

structure Parsed (line : Line) (interpreter arg : ℕ) (s : Parse) : Prop where
  path : Stored s.memory interpreter line.path
  argument : Stored s.memory arg (line.argument.getD [])
  writes : ∀ a ∈ s.writes, (interpreter ≤ a ∧ a < interpreter + maxLen) ∨
    (arg ≤ a ∧ a < arg + maxLen)
  reads : ∀ pos ∈ s.reads, pos ≤ line.text.length

def Parse.advance (s : Parse) (c : UInt8) (n : ℕ) : Parse :=
  { s with
    c := c
    fseekPtr := s.fseekPtr + n
    reads := s.reads ++ List.range' s.fseekPtr n }

section

variable {file : List UInt8} {s : Parse} {c : UInt8} {n orig : ℕ}

lemma advance_advance (s : Parse) (c c' : UInt8) (m n : ℕ) :
    (s.advance c m).advance c' n = s.advance c' (m + n) := by
  simp only [Parse.advance, Parse.mk.injEq, Nat.add_assoc, List.append_assoc, true_and, and_true]
  rw [List.range'_append_1]

lemma getc_eq (h : file[s.fseekPtr]? = some c) : getc file s = s.advance c 1 := by
  rw [getc, List.getD_eq_getElem?_getD, h, Option.getD_some]
  rfl

lemma ends_spaceRound (hspaces : ∀ j < n, file[s.fseekPtr + j]? = some 32)
    (hnext : file[s.fseekPtr + n]? = some c) (hc : c ≠ 32) :
    Ends (spaceRound file) s (s.advance c (n + 1)) := by
  induction n generalizing s with
  | zero =>
    apply Ends.done
    rw [spaceRound, getc_eq hnext]
    exact if_neg hc
  | succ n ih =>
    have hspace := getc_eq (hspaces 0 (Nat.succ_pos n))
    have hround : spaceRound file s = .inl (s.advance 32 1) := by
      rw [spaceRound, hspace]
      exact if_pos rfl
    have hrest := @ih (s.advance 32 1) (by
      intro j hj
      have hj' := hspaces (1 + j) (by omega)
      rwa [← Nat.add_assoc] at hj') (by
      have hnext' := hnext
      rwa [Nat.add_comm n 1, ← Nat.add_assoc] at hnext')
    rw [advance_advance, Nat.add_comm 1] at hrest
    exact .next hround hrest

lemma subset_writes_store (dest : ℕ) (s : Parse) : s.writes ⊆ (store dest s).writes :=
  List.subset_append_left s.writes [dest]

lemma mem_writes_store (dest : ℕ) (s : Parse) : dest ∈ (store dest s).writes :=
  List.mem_append_right s.writes (.head _)

lemma writes_interpreterRound (file : List UInt8) (orig : ℕ) (s : Parse) :
    s.writes ⊆ ((interpreterRound file orig s).elim id Prod.fst).writes := by
  unfold interpreterRound
  dsimp only
  split_ifs
  · exact List.Subset.refl _
  · exact List.Subset.refl _
  · exact subset_writes_store _ (getc file s)
  · exact subset_writes_store _ (getc file s)

lemma writes_argRound (file : List UInt8) (orig : ℕ) (s : Parse) :
    s.writes ⊆ ((argRound file orig s).elim id id).writes := by
  unfold argRound
  dsimp only
  split_ifs
  · exact List.Subset.refl _
  · exact subset_writes_store _ (getc file s)
  · exact subset_writes_store _ (getc file s)

lemma mem_writes_interpreterRound (h : file[s.fseekPtr]? = some c) (hspace : c ≠ 32)
    (hend : c ≠ 10) :
    read64 s.memory s.interpreter ∈ ((interpreterRound file orig s).elim id Prod.fst).writes := by
  have hc : (s.advance c 1).c = c := rfl
  have hstore := mem_writes_store (read64 s.memory s.interpreter) (s.advance c 1)
  rw [interpreterRound, getc_eq h, hc, if_neg hspace, if_neg hend]
  dsimp only
  split_ifs
  · exact hstore
  · exact hstore

lemma mem_writes_argRound (h : file[s.fseekPtr]? = some c) (hend : c ≠ 10) :
    read64 s.memory s.arg ∈ ((argRound file orig s).elim id id).writes := by
  have hc : (s.advance c 1).c = c := rfl
  have hstore := mem_writes_store (read64 s.memory s.arg) (s.advance c 1)
  rw [argRound, getc_eq h, hc, if_neg hend]
  dsimp only
  split_ifs
  · exact hstore
  · exact hstore

end

lemma mem_writes_of_ends {ρ : Type} {body : Parse → Parse ⊕ ρ} {last : ρ → Parse} {s : Parse}
    {r : ρ} {a : ℕ} (hgrows : ∀ s, s.writes ⊆ ((body s).elim id last).writes)
    (h : Ends body s r) (ha : a ∈ ((body s).elim id last).writes) : a ∈ (last r).writes := by
  induction h with
  | done hbody =>
    rwa [hbody] at ha
  | next hbody _ ih =>
    rw [hbody] at ha
    exact ih (hgrows _ ha)

namespace Line

def file (line : Line) (rest : List UInt8) : List UInt8 :=
  line.text ++ 10 :: rest

variable (line : Line) (rest : List UInt8)

lemma file_eq : line.file rest = 35 :: 33 :: (List.replicate line.spaces 32 ++
    (line.path ++ (line.tail ++ 10 :: rest))) := by
  simp only [file, text, List.append_assoc, List.cons_append, List.nil_append]

lemma file_space {j : ℕ} (hj : j < line.spaces) : (line.file rest)[2 + j]? = some 32 := by
  rw [file_eq, Nat.add_comm, List.getElem?_cons_succ, List.getElem?_cons_succ,
    List.getElem?_append_left (by simpa using hj), List.getElem?_replicate, if_pos hj]

lemma file_after (j : ℕ) : (line.file rest)[2 + line.spaces + j]? =
    (line.path ++ (line.tail ++ 10 :: rest))[j]? := by
  have hsum : 2 + line.spaces + j = line.spaces + j + 1 + 1 := by omega
  rw [file_eq, hsum, List.getElem?_cons_succ, List.getElem?_cons_succ,
    List.getElem?_append_right (by simp)]
  simp

end Line

/-! ## The call -/

section

variable {line : Line} {rest : List UInt8} {interpreter arg : ℕ} {memory : Memory} {s : Parse}
  {b : UInt8} {bs : List UInt8}

lemma parseShebang_eq (fuel : ℕ) (line : Line) (rest : List UInt8) (interpreter arg : ℕ)
    (memory : Memory) : parseShebang fuel (line.file rest) interpreter arg memory =
      (run (spaceRound (line.file rest)) fuel ((start interpreter arg memory).advance 33 2)).bind
        fun s => (run (interpreterRound (line.file rest) (read64 memory interpreter)) fuel s).bind
          fun r => if r.2 then
            (run (argRound (line.file rest) (read64 memory arg)) fuel r.1).map .returned
          else some (.returned r.1) := by
  have hfirst : (line.file rest)[(start interpreter arg memory).fseekPtr]? = some 35 := by
    rw [Line.file_eq]
    rfl
  have hsecond : (line.file rest)[((start interpreter arg memory).advance 35 1).fseekPtr]? =
      some 33 := by
    rw [Line.file_eq]
    rfl
  have hc (s : Parse) (c : UInt8) (n : ℕ) : (s.advance c n).c = c := rfl
  rw [parseShebang, getc_eq hfirst, hc, if_neg (by decide), getc_eq hsecond]
  dsimp only
  rw [hc, if_neg (by decide), advance_advance]

lemma ends_spaces (hpath : line.path = b :: bs) :
    Ends (spaceRound (line.file rest)) ((start interpreter arg memory).advance 33 2)
      ((start interpreter arg memory).advance b (3 + line.spaces)) := by
  have hb : b ∈ line.path := hpath ▸ (.head _)
  have hends : Ends (spaceRound (line.file rest)) ((start interpreter arg memory).advance 33 2)
      (((start interpreter arg memory).advance 33 2).advance b (line.spaces + 1)) := by
    refine ends_spaceRound (fun j hj => ?_) ?_ (line.path_chars b hb).1
    · exact line.file_space rest hj
    · have hafter := line.file_after rest 0
      rwa [hpath] at hafter
  rw [advance_advance] at hends
  have hsum : 2 + (line.spaces + 1) = 3 + line.spaces := by omega
  rwa [hsum] at hends

lemma returned_iff (hpath : line.path = b :: bs) :
    (∃ fuel, parseShebang fuel (line.file rest) interpreter arg memory = some (.returned s)) ↔
      ∃ r, Ends (interpreterRound (line.file rest) (read64 memory interpreter))
          ((start interpreter arg memory).advance b (3 + line.spaces)) r ∧
        ((r.2 = true ∧ Ends (argRound (line.file rest) (read64 memory arg)) r.1 s) ∨
          (r.2 = false ∧ s = r.1)) := by
  have hspaces := @ends_spaces line rest interpreter arg memory b bs hpath
  simp only [parseShebang_eq]
  constructor
  · rintro ⟨fuel, hcall⟩
    obtain ⟨t, ht, hcall⟩ := Option.bind_eq_some_iff.mp hcall
    obtain rfl := (ends_of_run ht).unique hspaces
    obtain ⟨r, hr, hcall⟩ := Option.bind_eq_some_iff.mp hcall
    refine ⟨r, ends_of_run hr, ?_⟩
    cases hmore : r.2 with
    | true =>
      rw [hmore, if_pos rfl, Option.map_eq_some_iff] at hcall
      obtain ⟨s', hs', heq⟩ := hcall
      obtain rfl := Outcome.returned.inj heq
      exact .inl ⟨rfl, ends_of_run hs'⟩
    | false =>
      rw [hmore, if_neg Bool.false_ne_true] at hcall
      exact .inr ⟨rfl, (Outcome.returned.inj (Option.some.inj hcall)).symm⟩
  · rintro ⟨r, hr, hend⟩
    obtain ⟨first, hfirst⟩ := ends_iff_run.mp hspaces
    obtain ⟨second, hsecond⟩ := ends_iff_run.mp hr
    rcases hend with ⟨hmore, harg⟩ | ⟨hmore, rfl⟩
    · obtain ⟨third, hthird⟩ := ends_iff_run.mp harg
      refine ⟨max first (max second third), ?_⟩
      rw [run_mono (by omega) hfirst, Option.bind_some, run_mono (by omega) hsecond,
        Option.bind_some, hmore, if_pos rfl, run_mono (by omega) hthird, Option.map_some]
    · refine ⟨max first second, ?_⟩
      rw [run_mono (by omega) hfirst, Option.bind_some, run_mono (by omega) hsecond,
        Option.bind_some, hmore, if_neg Bool.false_ne_true]

lemma read64_eq_zero {a : ℕ} (h : ∀ k < maxLen, memory (a + k) = 0) : read64 memory a = 0 := by
  have hbyte : memory a = 0 := h 0 (by decide)
  rw [read64, hbyte, h 1 (by decide), h 2 (by decide), h 3 (by decide), h 4 (by decide),
    h 5 (by decide), h 6 (by decide), h 7 (by decide)]
  rfl

lemma Parsed.zero_notMem_writes (h : Parsed line interpreter arg s)
    (hbuffers : Buffers memory interpreter arg) : 0 ∉ s.writes := by
  intro hzero
  have hinterpreter := hbuffers.interpreter_pos
  have harg := hbuffers.arg_pos
  have hwrites := h.writes 0 hzero
  omega

lemma second_char (hpath : line.path = b :: bs) :
    (line.file rest)[((start interpreter arg memory).advance b (3 + line.spaces)).fseekPtr]? =
      (bs ++ (line.tail ++ 10 :: rest))[0]? := by
  have hafter := line.file_after rest 1
  have hpos : ((start interpreter arg memory).advance b (3 + line.spaces)).fseekPtr =
      2 + line.spaces + 1 := by
    simp only [Parse.advance, start]
    omega
  rw [hpos, hafter, hpath, List.cons_append, List.getElem?_cons_succ]

lemma interpreterRound_of_single (hpath : line.path = [b]) (harg : line.argument = none) :
    interpreterRound (line.file rest) (read64 memory interpreter)
        ((start interpreter arg memory).advance b (3 + line.spaces)) =
      .inr ((start interpreter arg memory).advance 10 (4 + line.spaces), false) := by
  have hchar := @second_char line rest interpreter arg memory b [] hpath
  have htail : line.tail = [] := by rw [Line.tail, harg, Option.elim_none]
  rw [htail] at hchar
  have hsum : 3 + line.spaces + 1 = 4 + line.spaces := by omega
  rw [interpreterRound, getc_eq hchar, advance_advance, hsum]
  rfl

lemma zero_mem_writes_of_path {c : UInt8} {cs : List UInt8} {r : Parse × Bool}
    (hbuffers : Buffers memory interpreter arg) (hpath : line.path = b :: c :: cs)
    (hr : Ends (interpreterRound (line.file rest) (read64 memory interpreter))
      ((start interpreter arg memory).advance b (3 + line.spaces)) r) : 0 ∈ r.1.writes := by
  have hchar := @second_char line rest interpreter arg memory b (c :: cs) hpath
  obtain ⟨hspace, hend⟩ := line.path_chars c (hpath ▸ List.mem_cons_of_mem b (.head _))
  have hwrite := @mem_writes_interpreterRound _ _ c (read64 memory interpreter) hchar hspace hend
  have hzero : read64 ((start interpreter arg memory).advance b (3 + line.spaces)).memory
      ((start interpreter arg memory).advance b (3 + line.spaces)).interpreter = 0 :=
    read64_eq_zero hbuffers.interpreter_zero
  rw [hzero] at hwrite
  exact mem_writes_of_ends (writes_interpreterRound _ _) hr hwrite

lemma interpreterRound_of_argument {a : List UInt8} (hpath : line.path = [b])
    (harg : line.argument = some a) :
    interpreterRound (line.file rest) (read64 memory interpreter)
        ((start interpreter arg memory).advance b (3 + line.spaces)) =
      .inr ((start interpreter arg memory).advance 32 (4 + line.spaces), true) := by
  have hchar := @second_char line rest interpreter arg memory b [] hpath
  have htail : line.tail = 32 :: a := by rw [Line.tail, harg, Option.elim_some]
  rw [htail] at hchar
  have hsum : 3 + line.spaces + 1 = 4 + line.spaces := by omega
  rw [interpreterRound, getc_eq hchar, advance_advance, hsum]
  rfl

section

variable (hbuffers : Buffers memory interpreter arg)

include hbuffers

lemma zero_mem_writes_of_argument {c : UInt8} {cs : List UInt8} (hpath : line.path = [b])
    (harg : line.argument = some (c :: cs))
    (hs : Ends (argRound (line.file rest) (read64 memory arg))
      ((start interpreter arg memory).advance 32 (4 + line.spaces)) s) :
    0 ∈ s.writes := by
  have hchar := line.file_after rest 2
  have htail : line.tail = 32 :: c :: cs := by rw [Line.tail, harg, Option.elim_some]
  have hpos : ((start interpreter arg memory).advance 32 (4 + line.spaces)).fseekPtr =
      2 + line.spaces + 2 := by
    simp only [Parse.advance, start]
    omega
  rw [hpath, htail, ← hpos] at hchar
  have hend := line.argument_chars (c :: cs) harg c (.head _)
  have hwrite := @mem_writes_argRound _ _ c (read64 memory arg) hchar hend
  have hzero : read64 ((start interpreter arg memory).advance 32 (4 + line.spaces)).memory
      ((start interpreter arg memory).advance 32 (4 + line.spaces)).arg = 0 :=
    read64_eq_zero hbuffers.arg_zero
  rw [hzero] at hwrite
  exact mem_writes_of_ends (writes_argRound _ _) hs hwrite

lemma returned_cases {fuel : ℕ}
    (hcall : parseShebang fuel (line.file rest) interpreter arg memory = some (.returned s)) :
    (∃ b, line.path = [b] ∧ line.argument = none ∧
      s = (start interpreter arg memory).advance 10 (4 + line.spaces)) ∨ 0 ∈ s.writes := by
  obtain ⟨b, bs, hpath⟩ := List.exists_cons_of_length_pos line.path_length.1
  obtain ⟨r, hr, hend⟩ := (returned_iff hpath).mp ⟨fuel, hcall⟩
  cases bs with
  | cons c cs =>
    have hzero := zero_mem_writes_of_path hbuffers hpath hr
    rcases hend with ⟨_, hs⟩ | ⟨_, rfl⟩
    · exact .inr (mem_writes_of_ends (writes_argRound _ _) hs (writes_argRound _ _ _ hzero))
    · exact .inr hzero
  | nil =>
    cases harg : line.argument with
    | none =>
      obtain rfl := hr.eq_of_done (interpreterRound_of_single hpath harg)
      rcases hend with ⟨hmore, _⟩ | ⟨_, rfl⟩
      · cases hmore
      · exact .inl ⟨b, hpath, rfl, rfl⟩
    | some a =>
      obtain ⟨c, cs, rfl⟩ :=
        List.exists_cons_of_length_pos (line.argument_length a harg).1
      obtain rfl := hr.eq_of_done (interpreterRound_of_argument hpath harg)
      rcases hend with ⟨_, hs⟩ | ⟨hmore, _⟩
      · exact .inr (zero_mem_writes_of_argument hbuffers hpath harg hs)
      · exact absurd hmore.symm Bool.false_ne_true

lemma parsed_of_zero (hpath : line.path = [0]) (harg : line.argument = none) :
    Parsed line interpreter arg ((start interpreter arg memory).advance 10 (4 + line.spaces)) := by
  have hlength : line.text.length = 3 + line.spaces := by
    simp only [Line.text, Line.tail, hpath, harg, List.length_append, List.length_replicate,
      List.length_cons, List.length_nil, Option.elim_none]
    omega
  refine ⟨?_, ?_, nofun, ?_⟩
  · intro k hk
    rw [hpath, List.length_singleton] at hk
    have hbyte : ([0] : List UInt8).getD k 0 = 0 := by
      rcases Nat.le_one_iff_eq_zero_or_eq_one.mp hk with rfl | rfl <;> rfl
    rw [hpath, hbyte]
    exact hbuffers.interpreter_zero k (Nat.lt_of_le_of_lt hk (by decide))
  · intro k hk
    rw [harg, Option.getD_none, List.length_nil, Nat.le_zero] at hk
    rw [harg, hk]
    exact hbuffers.arg_zero 0 (by decide)
  · intro pos hpos
    have hlt := (List.mem_range'_1.mp hpos).2
    simp only [start] at hlt
    omega

end

/-- Only a line whose path is one zero byte, without an argument, is parsed
right. -/
theorem shebang_parsed_iff (hbuffers : Buffers memory interpreter arg) (line : Line)
    (rest : List UInt8) :
    (∃ fuel s, parseShebang fuel (line.file rest) interpreter arg memory = some (.returned s) ∧
        Parsed line interpreter arg s) ↔
      line.path = [0] ∧ line.argument = none := by
  constructor
  · rintro ⟨fuel, s, hcall, hparsed⟩
    rcases returned_cases hbuffers hcall with ⟨b, hpath, harg, rfl⟩ | hzero
    · have hstored := hparsed.path 0 (Nat.zero_le _)
      have hbyte := hbuffers.interpreter_zero 0 (by decide)
      rw [hpath] at hstored ⊢
      have hb : (0 : UInt8) = b := hbyte.symm.trans hstored
      exact ⟨by rw [← hb], harg⟩
    · exact absurd hzero (hparsed.zero_notMem_writes hbuffers)
  · rintro ⟨hpath, harg⟩
    have hround := @interpreterRound_of_single line rest interpreter arg memory 0 hpath harg
    obtain ⟨fuel, hcall⟩ := (returned_iff hpath).mpr ⟨_, .done hround, .inr ⟨rfl, rfl⟩⟩
    exact ⟨fuel, _, hcall, parsed_of_zero hbuffers hpath harg⟩

end

/-! ## Two lines -/

def zeroLine : Line where
  spaces := 0
  path := [0]
  argument := none
  path_length := ⟨le_rfl, by decide⟩
  path_chars := List.forall_mem_singleton.mpr ⟨by decide, by decide⟩
  argument_length := fun a ha => absurd ha (Option.not_mem_none a)
  argument_chars := fun a ha => absurd ha (Option.not_mem_none a)

lemma buffers_zero : Buffers (fun _ => 0) 0x1000 0x2000 :=
  ⟨by decide, by decide, fun _ _ => rfl, fun _ _ => rfl⟩

theorem shebang_parsed_zero_path :
    ∃ fuel s, parseShebang fuel (zeroLine.file []) 0x1000 0x2000 (fun _ => 0) = some (.returned s) ∧
      Parsed zeroLine 0x1000 0x2000 s :=
  (shebang_parsed_iff buffers_zero zeroLine []).mpr ⟨rfl, rfl⟩

def Outcome.state : Outcome → Option Parse
  | .failed => none
  | .returned s => some s

/-- The path `/sh`: both characters read in the loops go to address zero, and
the buffers stay empty. -/
theorem shebang_not_stored :
    ((parseShebang 1 [35, 33, 47, 115, 104, 10] 0x1000 0x2000 fun _ => 0).bind
      Outcome.state).map (fun s => (s.writes, s.memory 0x1000, s.memory 0x2000)) =
        some ([0, 0], 0, 0) := by
  decide +kernel

end Cottage.Shebang
