import Cottage.Foundations.Transition
import Mathlib.Data.Nat.Bitwise

/-!
# The log ring as a step relation

`klog_produce` and `klog_consume_one` of `klog.c`, with one transition for
every atomic operation and for every field of a slot that is written or read.
Any number of `klog_produce` calls may be in progress; each has its own number,
and a call that has returned stays on record with its result.  Positions are
natural numbers.

Strings are the byte lists in front of the terminating NUL, so a string field
of a slot stands for the C string stored there.  `klog_output_entry` is entered
with the slot itself; what it prints is recorded as the position and the entry
it has read, without the layout of the line.
-/

namespace Cottage.Klog

open Transition Function

def klogRingSize : ℕ := 1024

def klogRingMask : ℕ := klogRingSize - 1

def klogModuleLen : ℕ := 16

def klogMessageLen : ℕ := 200

def spinLimit : ℕ := 1000

/-- The slot of a position, `pos & KLOG_RING_MASK`. -/
def slotOf (pos : ℕ) : ℕ :=
  pos &&& klogRingMask

lemma slotOf_eq_mod (pos : ℕ) : slotOf pos = pos % klogRingSize :=
  Nat.and_two_pow_sub_one_eq_mod pos 10

structure Entry where
  timestampMs : UInt64
  cpuId : UInt8
  module : List UInt8
  message : List UInt8
  deriving DecidableEq, Repr

instance : Inhabited Entry := ⟨⟨0, 0, [], []⟩⟩

/-- The arguments of a `klog_produce` call. -/
structure LogCall where
  module : List UInt8
  message : List UInt8
  timestamp : UInt64
  cpu : UInt8
  deriving DecidableEq, Repr

/-- What is copied into a string field of `len` bytes. -/
def truncated (len : ℕ) (text : List UInt8) : List UInt8 :=
  text.take (if text.length ≥ len then len - 1 else text.length)

def LogCall.entry (r : LogCall) : Entry where
  timestampMs := r.timestamp
  cpuId := r.cpu
  module := truncated klogModuleLen r.module
  message := truncated klogMessageLen r.message

/-- The program points of `klog_produce`. -/
inductive Producer
  | testInitialized (r : LogCall)
  | reserve (r : LogCall)
  | loadSequence (r : LogCall) (pos spin : ℕ)
  | writeTimestamp (r : LogCall) (pos : ℕ)
  | writeCpu (r : LogCall) (pos : ℕ)
  | writeModule (r : LogCall) (pos : ℕ)
  | writeMessage (r : LogCall) (pos : ℕ)
  | publish (r : LogCall) (pos : ℕ)
  | countDrop (r : LogCall) (pos : ℕ)
  | returned (r : LogCall) (pos : Option ℕ) (result : Bool)
  deriving DecidableEq, Repr

/-- The program points of `klog_consume_one` and of the `klog_output_entry`
call inside it. -/
inductive Consumer
  | idle (result : Option Bool)
  | loadHead
  | loadSequence (head : ℕ)
  | testTerm (head : ℕ)
  | readTimestamp (head : ℕ)
  | readCpu (head : ℕ) (timestamp : UInt64)
  | readModule (head : ℕ) (timestamp : UInt64) (cpu : UInt8)
  | readMessage (head : ℕ) (timestamp : UInt64) (cpu : UInt8) (module : List UInt8)
  | termWrite (head : ℕ) (line : Entry)
  | storeSequence (head : ℕ)
  | storeHead (head : ℕ)
  deriving DecidableEq, Repr

structure Ring where
  ringInitialized : Bool
  tail : ℕ
  head : ℕ
  sequence : ℕ → ℕ
  entries : ℕ → Entry
  droppedCount : UInt64
  haveTerm : Bool
  producers : ℕ → Option Producer
  consumer : Consumer
  outputs : List (ℕ × Entry)

namespace Ring

def setProducer (s : Ring) (k : ℕ) (q : Producer) : Ring :=
  { s with producers := update s.producers k (some q) }

def setConsumer (s : Ring) (c : Consumer) : Ring :=
  { s with consumer := c }

def setTail (s : Ring) (tail : ℕ) : Ring :=
  { s with tail := tail }

def setSequence (s : Ring) (pos value : ℕ) : Ring :=
  { s with sequence := update s.sequence (slotOf pos) value }

def setEntry (s : Ring) (pos : ℕ) (e : Entry) : Ring :=
  { s with entries := update s.entries (slotOf pos) e }

section

@[simp] lemma setConsumer_consumer (s : Ring) (c : Consumer) : (s.setConsumer c).consumer = c :=
  rfl

@[simp] lemma setConsumer_setConsumer (s : Ring) (c c' : Consumer) :
    (s.setConsumer c).setConsumer c' = s.setConsumer c' := rfl

variable (s : Ring) (k pos : ℕ) (q q' : Producer) (e e' : Entry)

@[simp] lemma setProducer_producers_self : (s.setProducer k q).producers k = some q := by
  simp [setProducer]

lemma setProducer_producers_of_ne {j : ℕ} (hj : j ≠ k) :
    (s.setProducer k q).producers j = s.producers j := by
  simp [setProducer, hj]

@[simp] lemma setProducer_tail : (s.setProducer k q).tail = s.tail := rfl

@[simp] lemma setProducer_ringInitialized :
    (s.setProducer k q).ringInitialized = s.ringInitialized := rfl

@[simp] lemma setProducer_sequence : (s.setProducer k q).sequence = s.sequence := rfl

@[simp] lemma setProducer_entries : (s.setProducer k q).entries = s.entries := rfl

@[simp] lemma setProducer_setProducer :
    (s.setProducer k q).setProducer k q' = s.setProducer k q' := by
  simp [setProducer]

@[simp] lemma setProducer_setTail (tail : ℕ) :
    (s.setProducer k q).setTail tail = (s.setTail tail).setProducer k q := rfl

@[simp] lemma setTail_entries (tail : ℕ) : (s.setTail tail).entries = s.entries := rfl

@[simp] lemma setTail_sequence (tail : ℕ) : (s.setTail tail).sequence = s.sequence := rfl

@[simp] lemma setProducer_setEntry :
    (s.setProducer k q).setEntry pos e = (s.setEntry pos e).setProducer k q := rfl

@[simp] lemma setProducer_setSequence (value : ℕ) :
    (s.setProducer k q).setSequence pos value = (s.setSequence pos value).setProducer k q := rfl

@[simp] lemma setEntry_entries_self : (s.setEntry pos e).entries (slotOf pos) = e := by
  simp [setEntry]

@[simp] lemma setEntry_setEntry : (s.setEntry pos e).setEntry pos e' = s.setEntry pos e' := by
  simp [setEntry]

end

end Ring

/-- The loop of `klog_init` over the slots, then its stores. -/
def klogInit (s : Ring) : Ring :=
  { s with
    sequence := (List.range klogRingSize).foldl (fun seq i => update seq i i) s.sequence
    tail := 0
    head := 0
    ringInitialized := true }

def klogProduceStep (s : Ring) (k : ℕ) : Producer → Option Ring
  | .testInitialized r =>
    if s.ringInitialized then
      some (s.setProducer k (.reserve r))
    else
      some (s.setProducer k (.returned r none false))
  | .reserve r =>
    some ((s.setTail (s.tail + 1)).setProducer k (.loadSequence r s.tail 0))
  | .loadSequence r pos spin =>
    if spin < spinLimit then
      if s.sequence (slotOf pos) = pos then
        some (s.setProducer k (.writeTimestamp r pos))
      else if s.sequence (slotOf pos) < pos then
        some (s.setProducer k (.countDrop r pos))
      else
        some (s.setProducer k (.loadSequence r pos (spin + 1)))
    else
      some (s.setProducer k (.countDrop r pos))
  | .writeTimestamp r pos =>
    some ((s.setEntry pos { s.entries (slotOf pos) with timestampMs := r.timestamp }).setProducer
      k (.writeCpu r pos))
  | .writeCpu r pos =>
    some ((s.setEntry pos { s.entries (slotOf pos) with cpuId := r.cpu }).setProducer
      k (.writeModule r pos))
  | .writeModule r pos =>
    some ((s.setEntry pos { s.entries (slotOf pos) with
      module := truncated klogModuleLen r.module }).setProducer k (.writeMessage r pos))
  | .writeMessage r pos =>
    some ((s.setEntry pos { s.entries (slotOf pos) with
      message := truncated klogMessageLen r.message }).setProducer k (.publish r pos))
  | .publish r pos =>
    some ((s.setSequence pos (pos + 1)).setProducer k (.returned r (some pos) true))
  | .countDrop r pos =>
    some ({ s with droppedCount := s.droppedCount + 1 }.setProducer
      k (.returned r (some pos) false))
  | .returned .. => none

def klogConsumeStep (s : Ring) : Consumer → Option Ring
  | .idle _ => none
  | .loadHead => some (s.setConsumer (.loadSequence s.head))
  | .loadSequence head =>
    if s.sequence (slotOf head) ≠ head + 1 then
      some (s.setConsumer (.idle (some false)))
    else
      some (s.setConsumer (.testTerm head))
  | .testTerm head =>
    if s.haveTerm then
      some (s.setConsumer (.readTimestamp head))
    else
      some (s.setConsumer (.storeSequence head))
  | .readTimestamp head =>
    some (s.setConsumer (.readCpu head (s.entries (slotOf head)).timestampMs))
  | .readCpu head timestamp =>
    some (s.setConsumer (.readModule head timestamp (s.entries (slotOf head)).cpuId))
  | .readModule head timestamp cpu =>
    some (s.setConsumer (.readMessage head timestamp cpu (s.entries (slotOf head)).module))
  | .readMessage head timestamp cpu module =>
    some (s.setConsumer
      (.termWrite head ⟨timestamp, cpu, module, (s.entries (slotOf head)).message⟩))
  | .termWrite head line =>
    some ({ s with outputs := s.outputs ++ [(head, line)] }.setConsumer (.storeSequence head))
  | .storeSequence head =>
    some ((s.setSequence head (head + klogRingSize)).setConsumer (.storeHead head))
  | .storeHead head =>
    some ({ s with head := head + 1 }.setConsumer (.idle (some true)))

/-- `produceCall` and `consumeCall` enter the two functions, `produce` and
`consume` perform the next operation of a call in progress. -/
inductive Event
  | produceCall (k : ℕ) (r : LogCall)
  | produce (k : ℕ)
  | consumeCall
  | consume
  | setTerm (value : Bool)
  deriving DecidableEq, Repr

def step (s : Ring) : Event → Option Ring
  | .produceCall k r =>
    match s.producers k with
    | none => some (s.setProducer k (.testInitialized r))
    | some _ => none
  | .produce k => (s.producers k).bind (klogProduceStep s k)
  | .consumeCall =>
    match s.consumer with
    | .idle _ => some (s.setConsumer .loadHead)
    | _ => none
  | .consume => klogConsumeStep s s.consumer
  | .setTerm value => some { s with haveTerm := value }

/-- Right after `klog_init`, with no call in progress and nothing output. -/
def Initial (s : Ring) : Prop :=
  ∃ boot, s = { klogInit boot with
    producers := fun _ => none, consumer := .idle none, outputs := [] }

def system : System Ring Event where
  init := Initial
  step := step

namespace Producer

def call : Producer → LogCall
  | testInitialized r | reserve r | loadSequence r _ _ | writeTimestamp r _ | writeCpu r _
  | writeModule r _ | writeMessage r _ | publish r _ | countDrop r _ | returned r _ _ => r

def pos : Producer → Option ℕ
  | testInitialized _ | reserve _ => none
  | loadSequence _ p _ | writeTimestamp _ p | writeCpu _ p | writeModule _ p
  | writeMessage _ p | publish _ p | countDrop _ p => some p
  | returned _ p _ => p

def writing : Producer → Option ℕ
  | writeTimestamp _ p | writeCpu _ p | writeModule _ p | writeMessage _ p | publish _ p => some p
  | _ => none

def published : Producer → Option ℕ
  | returned _ p true => p
  | _ => none

end Producer

def Consumer.reading : Consumer → Option ℕ
  | testTerm h | readTimestamp h | readCpu h _ | readModule h _ _ | readMessage h _ _ _
  | termWrite h _ | storeSequence h => some h
  | _ => none

end Cottage.Klog
