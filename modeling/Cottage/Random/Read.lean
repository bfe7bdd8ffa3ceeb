import Cottage.Foundations.ByteMemory

/-!
# Reading random numbers

`random_read` fills the buffer of its caller with the outputs of
`salsa20_block`, 64 bytes at a time and the rest of the last block left out.
Words are stored with the low byte first.  What the processor returns for
`rdseed` or `rdrand` is an argument, and the buffer of the caller is apart from
the state of the device.
-/

namespace Cottage.Random

open ByteMemory Function

/-- `uint32_t[16]` -/
abbrev Words := Vector UInt32 16

def rotl (a b : UInt32) : UInt32 :=
  (a <<< b) ||| (a >>> (32 - b))

/-- `QR(x[a], x[b], x[c], x[d])` -/
def quarterRound (x : Words) (a b c d : Fin 16) : Words :=
  let x := x.setIfInBounds b (x.get b ^^^ rotl (x.get a + x.get d) 7)
  let x := x.setIfInBounds c (x.get c ^^^ rotl (x.get b + x.get a) 9)
  let x := x.setIfInBounds d (x.get d ^^^ rotl (x.get c + x.get b) 13)
  x.setIfInBounds a (x.get a ^^^ rotl (x.get d + x.get c) 18)

def doubleRound (x : Words) : Words :=
  let x := quarterRound x 0 4 8 12
  let x := quarterRound x 5 9 13 1
  let x := quarterRound x 10 14 2 6
  let x := quarterRound x 15 3 7 11
  let x := quarterRound x 0 1 2 3
  let x := quarterRound x 5 6 7 4
  let x := quarterRound x 10 11 8 9
  quarterRound x 15 12 13 14

/-- `ROUNDS` -/
def roundCount : ℕ := 10

def salsa20Block (key buf : Words) : Words × Words :=
  let x := doubleRound^[roundCount / 2] buf
  (x.zipWith (· + ·) key, x)

structure DevRandom where
  buffer : Words
  key : Words
  reseedCtr : ℕ
  deriving DecidableEq, Repr

/-- The two flags, and what the processor returns for each word of the key. -/
structure Entropy where
  urRdseed : Bool
  urRdrand : Bool
  words : Words
  deriving DecidableEq, Repr

def randomReseed (entropy : Entropy) (self : DevRandom) : DevRandom :=
  if entropy.urRdseed then { self with key := self.key.zipWith (· ^^^ ·) entropy.words }
  else if entropy.urRdrand then { self with key := self.key.zipWith (· ^^^ ·) entropy.words }
  else self

def blockByte (out : Words) (i : ℕ) : UInt8 :=
  byteOf (out.toList.getD (i / 4) 0).toNat (i % 4)

/-- `memcpy(buf, out, n)` -/
def copyOut (mem : Memory) (buf : ℕ) (out : Words) : ℕ → Memory
  | 0 => mem
  | n + 1 => (copyOut mem buf out n).set (buf + n) (blockByte out n)

/-- The `while` loop, with what is left of `count` at its end. -/
def readLoop (self : DevRandom) (mem : Memory) (buf count : ℕ) : DevRandom × Memory × ℕ :=
  let (out, buffer) := salsa20Block self.key self.buffer
  let self := { self with buffer := buffer }
  if 64 < count then readLoop self (copyOut mem buf out 64) (buf + 64) (count - 64)
  else (self, copyOut mem buf out count, count)
termination_by count

def countBytes (entropy : Entropy) (self : DevRandom) (count : ℕ) : DevRandom :=
  let self := { self with reseedCtr := (self.reseedCtr + count) % 2 ^ 64 }
  if self.reseedCtr ≥ 2048 then randomReseed entropy { self with reseedCtr := 0 } else self

def randomRead (entropy : Entropy) (self : DevRandom) (mem : Memory) (buf count : ℕ) :
    DevRandom × Memory × ℕ :=
  if count = 0 then (self, mem, 0) else readLoop (countBytes entropy self count) mem buf count

def keystream (key buffer : Words) (i : ℕ) : Words :=
  (salsa20Block key ((fun buf => (salsa20Block key buf).2)^[i] buffer)).1

lemma keystream_zero (key buffer : Words) :
    keystream key buffer 0 = (salsa20Block key buffer).1 := by
  rw [keystream, iterate_zero_apply]

lemma keystream_succ (key buffer : Words) (i : ℕ) :
    keystream key buffer (i + 1) = keystream key (salsa20Block key buffer).2 i := by
  rw [keystream, keystream, iterate_succ_apply]

lemma copyOut_apply (mem : Memory) (buf : ℕ) (out : Words) (n x : ℕ) :
    copyOut mem buf out n x = if buf ≤ x ∧ x < buf + n then blockByte out (x - buf) else mem x := by
  induction n with
  | zero => rw [copyOut, if_neg (by omega)]
  | succ n ih =>
    rw [copyOut, set_apply, ih]
    by_cases hx : x = buf + n
    · rw [if_pos hx, if_pos (by omega), hx, Nat.add_sub_cancel_left]
    · rw [if_neg hx]
      exact if_congr (by omega) rfl rfl

/-- The bytes of the stream, from its beginning, at the given place and nowhere
else. -/
structure Filled (key buffer : Words) (mem mem' : Memory) (buf count : ℕ) : Prop where
  bytes : ∀ i < count, mem' (buf + i) = blockByte (keystream key buffer (i / 64)) (i % 64)
  outside : AgreeOutside mem mem' buf count

lemma filled_copyOut (key buffer : Words) (mem : Memory) (buf : ℕ) {n : ℕ} (hn : n ≤ 64) :
    Filled key buffer mem (copyOut mem buf (salsa20Block key buffer).1 n) buf n := by
  constructor
  · intro i hi
    rw [copyOut_apply, if_pos (by omega), Nat.add_sub_cancel_left, Nat.div_eq_of_lt (by omega),
      Nat.mod_eq_of_lt (by omega), keystream_zero]
  · intro x hx
    rw [copyOut_apply, if_neg hx]

lemma Filled.cons {key buffer : Words} {mem mem' mem'' : Memory} {buf count : ℕ}
    (hfirst : Filled key buffer mem mem' buf 64)
    (hrest : Filled key (salsa20Block key buffer).2 mem' mem'' (buf + 64) (count - 64))
    (hcount : 64 < count) : Filled key buffer mem mem'' buf count := by
  constructor
  · intro i hi
    by_cases hi64 : i < 64
    · rw [hrest.outside (buf + i) (by omega)]
      exact hfirst.bytes i hi64
    · have hbyte := hrest.bytes (i - 64) (by omega)
      have haddress : buf + 64 + (i - 64) = buf + i := by omega
      have hblock : i / 64 = (i - 64) / 64 + 1 := by omega
      have hindex : (i - 64) % 64 = i % 64 := by omega
      rw [haddress, hindex] at hbyte
      rw [hbyte, hblock, keystream_succ]
  · intro x hx
    rw [hrest.outside x (by omega)]
    exact hfirst.outside x (by omega)

lemma readLoop_spec (self : DevRandom) (mem : Memory) (buf : ℕ) {count : ℕ} (hpos : 1 ≤ count) :
    (readLoop self mem buf count).1.key = self.key ∧
      Filled self.key self.buffer mem (readLoop self mem buf count).2.1 buf count ∧
      (readLoop self mem buf count).2.2 = (count - 1) % 64 + 1 := by
  induction count using Nat.strong_induction_on generalizing self mem buf with
  | _ count ih =>
    have hblock := @filled_copyOut self.key self.buffer mem buf
    rw [readLoop]
    split_ifs with hcount
    · obtain ⟨hkey, hfilled, hleft⟩ := ih (count - 64) (by omega)
        { self with buffer := (salsa20Block self.key self.buffer).2 }
        (copyOut mem buf (salsa20Block self.key self.buffer).1 64) (buf + 64) (by omega)
      refine ⟨hkey, (hblock (Nat.le_refl 64)).cons hfilled hcount, hleft.trans ?_⟩
      omega
    · have hleft : count = (count - 1) % 64 + 1 := by omega
      exact ⟨rfl, hblock (not_lt.mp hcount), hleft⟩

/-! ## The result -/

lemma buffer_randomReseed (entropy : Entropy) (self : DevRandom) :
    (randomReseed entropy self).buffer = self.buffer := by
  rw [randomReseed]
  split_ifs <;> rfl

lemma buffer_countBytes (entropy : Entropy) (self : DevRandom) (count : ℕ) :
    (countBytes entropy self count).buffer = self.buffer := by
  rw [countBytes]
  split_ifs
  · exact buffer_randomReseed entropy _
  · rfl

lemma randomRead_spec (entropy : Entropy) (self : DevRandom) (mem : Memory) (buf : ℕ)
    {count : ℕ} (hcount : 1 ≤ count) :
    Filled (randomRead entropy self mem buf count).1.key self.buffer mem
        (randomRead entropy self mem buf count).2.1 buf count ∧
      (randomRead entropy self mem buf count).2.2 = (count - 1) % 64 + 1 := by
  obtain ⟨hkey, hfilled, hleft⟩ := readLoop_spec (countBytes entropy self count) mem buf hcount
  rw [randomRead, if_neg (Nat.ne_of_gt hcount), hkey]
  rw [buffer_countBytes] at hfilled
  exact ⟨hfilled, hleft⟩

/-- The bytes are there and the count is returned: exactly if one block is
enough. -/
theorem random_read_iff (entropy : Entropy) (self : DevRandom) (mem : Memory) (buf : ℕ)
    {count : ℕ} (hcount : 1 ≤ count) :
    (Filled (randomRead entropy self mem buf count).1.key self.buffer mem
        (randomRead entropy self mem buf count).2.1 buf count ∧
      (randomRead entropy self mem buf count).2.2 = count) ↔ count ≤ 64 := by
  obtain ⟨hfilled, hleft⟩ := randomRead_spec entropy self mem buf hcount
  rw [hleft, and_iff_right hfilled]
  omega

def zeroDevice : DevRandom where
  buffer := .replicate 16 0
  key := .replicate 16 0
  reseedCtr := 0

def noEntropy : Entropy where
  urRdseed := false
  urRdrand := false
  words := .replicate 16 0

theorem random_read_sixteen_bytes :
    Filled (randomRead noEntropy zeroDevice (fun _ => 0) 4096 16).1.key zeroDevice.buffer
        (fun _ => 0) (randomRead noEntropy zeroDevice (fun _ => 0) 4096 16).2.1 4096 16 ∧
      (randomRead noEntropy zeroDevice (fun _ => 0) 4096 16).2.2 = 16 :=
  (random_read_iff noEntropy zeroDevice (fun _ => 0) 4096 (by decide)).mpr (by decide)

theorem random_read_returns_one :
    Filled (randomRead noEntropy zeroDevice (fun _ => 0) 4096 65).1.key zeroDevice.buffer
        (fun _ => 0) (randomRead noEntropy zeroDevice (fun _ => 0) 4096 65).2.1 4096 65 ∧
      (randomRead noEntropy zeroDevice (fun _ => 0) 4096 65).2.2 = 1 :=
  randomRead_spec noEntropy zeroDevice (fun _ => 0) 4096 (by decide)

end Cottage.Random
