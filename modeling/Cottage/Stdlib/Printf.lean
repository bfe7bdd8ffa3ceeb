import Mathlib.Data.Nat.Digits.Defs

/-!
# `vsnprintf`

The format machine of `printf.c`, and what a format stands for.

`out` are the bytes written so far, the next one goes to `str[out.length]`; `n`
counts the room that is left, as a `size_t`, which wraps below zero.  The
variables `radix`, `sign` and `number` are set and used while one byte of the
format is read and have their first values again afterwards, so they are not
part of the state.  An argument is what `va_arg` finds; a call with arguments
of other types than the format asks for has no result here.

After the digits of a number the byte in front of the local buffer is printed
too.  It is an argument of the model, for each place it is printed to.
-/

namespace Cottage.Printf

/-! ## Writing characters and numbers -/

inductive Arg
  | int (v : BitVec 32)
  | long (v : BitVec 64)
  | string (s : List UInt8)
  deriving DecidableEq, Repr

def snputc (out : List UInt8) (n : ℕ) (c : UInt8) : List UInt8 :=
  if n > 0 then out ++ [c] else out

/-- `n -= count` for a `size_t` -/
def decrease (n count : ℕ) : ℕ :=
  (n + (2 ^ 64 - count)) % 2 ^ 64

/-- `g_HexChars` -/
def hexChars : List UInt8 :=
  [0x30, 0x31, 0x32, 0x33, 0x34, 0x35, 0x36, 0x37, 0x38, 0x39, 0x61, 0x62, 0x63, 0x64, 0x65, 0x66]

/-- The digits of the number in the local buffer, the lowest one first.  A
number of 64 bits has at most 64 digits. -/
def convert (radix : ℕ) : ℕ → ℕ → List UInt8
  | 0, _ => []
  | fuel + 1, number =>
    hexChars.getD (number % radix) 0 ::
      if number / radix > 0 then convert radix fuel (number / radix) else []

/-- The loop `while (n > 0 && pos-- >= 0)`; the first argument is `pos + 1`. -/
def printReversed (buffer : List UInt8) (below : UInt8) (n : ℕ) : ℕ → List UInt8 → List UInt8
  | 0, out => out
  | pos + 1, out =>
    printReversed buffer below n pos
      (snputc out n (if pos = 0 then below else buffer.getD (pos - 1) 0))

def vsnprintfUnsigned (below : ℕ → UInt8) (out : List UInt8) (n number radix : ℕ) :
    List UInt8 × ℕ :=
  if number = 0 then (snputc out 1 0x30, 1)
  else
    let buffer := convert radix 64 number
    if n > 0 then
      (printReversed buffer (below out.length) n (buffer.length + 1) out, buffer.length + 1)
    else (out, 0)

def vsnprintfSigned (below : ℕ → UInt8) (out : List UInt8) (n : ℕ) (number : ℤ) (radix : ℕ) :
    List UInt8 × ℕ :=
  if number < 0 then
    let (out, ret) := vsnprintfUnsigned below (snputc out n 0x2D) n (-number).toNat radix
    (out, ret + 1)
  else vsnprintfUnsigned below out n number.toNat radix

/-! ## The format machine -/

inductive State
  | normal
  | length
  | lengthShort
  | lengthLong
  | spec
  deriving DecidableEq, Repr

inductive Length
  | default
  | shortShort
  | short
  | long
  | longLong
  deriving DecidableEq, Repr

def Length.isLong (length : Length) : Bool :=
  length = .long ∨ length = .longLong

/-- The conversions; `upper` tells `X` from `x`. -/
inductive Specifier
  | char
  | string
  | percent
  | signed
  | unsigned (radix : ℕ) (upper : Bool)
  | invalid
  deriving DecidableEq, Repr

/-- The characters `c s % d i u X x p o`. -/
def specifier (c : UInt8) : Specifier :=
  if c = 0x63 then .char
  else if c = 0x73 then .string
  else if c = 0x25 then .percent
  else if c = 0x64 ∨ c = 0x69 then .signed
  else if c = 0x75 then .unsigned 10 false
  else if c = 0x58 then .unsigned 16 true
  else if c = 0x78 ∨ c = 0x70 then .unsigned 16 false
  else if c = 0x6F then .unsigned 8 false
  else .invalid

structure Machine where
  out : List UInt8
  n : ℕ
  args : List Arg
  state : State
  length : Length

/-- `snputc(&str, n--, c)` -/
def Machine.putc (m : Machine) (c : UInt8) : Machine :=
  { m with out := snputc m.out m.n c, n := decrease m.n 1 }

/-- What a call of the two number functions returned, with the rest of the
arguments. -/
def Machine.printed (m : Machine) (args : List Arg) (result : List UInt8 × ℕ) : Machine :=
  { m with out := result.1, n := decrease m.n result.2, args := args }

def Machine.printSigned (below : ℕ → UInt8) (m : Machine) : Option Machine :=
  let print (number : ℤ) (args : List Arg) : Machine :=
    m.printed args (vsnprintfSigned below m.out m.n number 10)
  match m.args with
  | .int v :: args => if m.length.isLong then none else some (print v.toInt args)
  | .long v :: args => if m.length.isLong then some (print v.toInt args) else none
  | _ => none

def Machine.printUnsigned (below : ℕ → UInt8) (m : Machine) (radix : ℕ) : Option Machine :=
  let print (number : ℕ) (args : List Arg) : Machine :=
    m.printed args (vsnprintfUnsigned below m.out m.n number radix)
  match m.args with
  | .int v :: args => if m.length.isLong then none else some (print v.toNat args)
  | .long v :: args => if m.length.isLong then some (print v.toNat args) else none
  | _ => none

/-- The case of `PRINTF_STATE_SPEC` up to the reset of the state. -/
def Machine.convert (below : ℕ → UInt8) (m : Machine) (c : UInt8) : Option Machine :=
  match specifier c with
  | .char =>
    match m.args with
    | .int v :: args => some ({ m with args := args }.putc (UInt8.ofNat v.toNat))
    | _ => none
  | .string =>
    match m.args with
    | .string s :: args => some (s.foldl Machine.putc { m with args := args })
    | _ => none
  | .percent => some (m.putc 0x25)
  | .signed => m.printSigned below
  | .unsigned radix _ => m.printUnsigned below radix
  | .invalid => some m

def Machine.spec (below : ℕ → UInt8) (m : Machine) (c : UInt8) : Option Machine :=
  (m.convert below c).map fun m => { m with state := .normal, length := .default }

/-- One round of the loop over the format; `h` and `l` change the length. -/
def Machine.step (below : ℕ → UInt8) (m : Machine) (c : UInt8) : Option Machine :=
  match m.state with
  | .normal => if c = 0x25 then some { m with state := .length } else some (m.putc c)
  | .length =>
    if c = 0x68 then some { m with length := .short, state := .lengthShort }
    else if c = 0x6C then some { m with length := .long, state := .lengthLong }
    else m.spec below c
  | .lengthShort =>
    if c = 0x68 then some { m with length := .shortShort, state := .spec } else m.spec below c
  | .lengthLong =>
    if c = 0x6C then some { m with length := .longLong, state := .spec } else m.spec below c
  | .spec => m.spec below c

def toInt (v : ℕ) : ℤ :=
  (BitVec.ofNat 32 v).toInt

/-- All that is written, in the order of the addresses, and what is returned. -/
def vsnprintf (below : ℕ → UInt8) (n : ℕ) (fmt : List UInt8) (args : List Arg) :
    Option (List UInt8 × ℤ) :=
  (fmt.foldlM (Machine.step below) ⟨[], n, args, .normal, .default⟩).map fun m =>
    (snputc m.out m.n 0, toInt (decrease n m.n))

/-! ## What a format stands for -/

inductive Conversion
  | literal (c : UInt8)
  | spec (length : Length) (c : UInt8)
  deriving DecidableEq, Repr

/-- A conversion is a percent sign, a length of up to two characters, and a
specifier; one that is cut off by the end of the format stands for nothing. -/
def conversions : List UInt8 → List Conversion
  | [] => []
  | c :: fmt =>
    if c = 0x25 then
      match fmt with
      | [] => []
      | c :: fmt =>
        if c = 0x68 then
          match fmt with
          | [] => []
          | c :: fmt =>
            if c = 0x68 then
              match fmt with
              | [] => []
              | c :: fmt => .spec .shortShort c :: conversions fmt
            else .spec .short c :: conversions fmt
        else if c = 0x6C then
          match fmt with
          | [] => []
          | c :: fmt =>
            if c = 0x6C then
              match fmt with
              | [] => []
              | c :: fmt => .spec .longLong c :: conversions fmt
            else .spec .long c :: conversions fmt
        else .spec .default c :: conversions fmt
    else .literal c :: conversions fmt

inductive Item
  | text (s : List UInt8)
  | number (negative : Bool) (magnitude radix : ℕ) (upper : Bool)
  deriving DecidableEq, Repr

def numberArg (length : Length) : Arg → Option (ℤ × ℕ)
  | .int v => if length.isLong then none else some (v.toInt, v.toNat)
  | .long v => if length.isLong then some (v.toInt, v.toNat) else none
  | .string _ => none

def interpretSpec (length : Length) (s : Specifier) (args : List Arg) :
    Option (Item × List Arg) :=
  match s, args with
  | .char, .int v :: args => some (.text [UInt8.ofNat v.toNat], args)
  | .string, .string s :: args => some (.text s, args)
  | .percent, args => some (.text [0x25], args)
  | .signed, arg :: args =>
    (numberArg length arg).map fun (v, _) => (.number (decide (v < 0)) v.natAbs 10 false, args)
  | .unsigned radix upper, arg :: args =>
    (numberArg length arg).map fun (_, v) => (.number false v radix upper, args)
  | .invalid, args => some (.text [], args)
  | _, _ => none

/-- The arguments match the format if there is a result. -/
def interpret : List Conversion → List Arg → Option (List Item)
  | [], _ => some []
  | .literal c :: rest, args => (interpret rest args).map (.text [c] :: ·)
  | .spec length c :: rest, args =>
    (interpretSpec length (specifier c) args).bind fun (item, args) =>
      (interpret rest args).map (item :: ·)

def digitChar (upper : Bool) (d : ℕ) : UInt8 :=
  if d < 10 then UInt8.ofNat (0x30 + d)
  else if upper then UInt8.ofNat (0x41 + (d - 10)) else UInt8.ofNat (0x61 + (d - 10))

def numeral (radix : ℕ) (upper : Bool) (v : ℕ) : List UInt8 :=
  if v = 0 then [0x30] else (Nat.digits radix v).reverse.map (digitChar upper)

def Item.expansion : Item → List UInt8
  | .text s => s
  | .number negative magnitude radix upper =>
    (if negative then [0x2D] else []) ++ numeral radix upper magnitude

def expansion (items : List Item) : List UInt8 :=
  items.flatMap Item.expansion

end Cottage.Printf
