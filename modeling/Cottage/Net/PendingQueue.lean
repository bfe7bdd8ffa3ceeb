import Cottage.Net.State
import Mathlib.Data.List.FinRange

/-!
# The buffers of the ARP pending queue

`arp_pending_enqueue` and `arp_pending_drain` with the packets as heap buffers.
A buffer belongs to the queue from the call that hands it over until it is
freed, and it is a new object each time: buffers are numbered in the order of
these calls, and `log` keeps what each call passed.  `freed` lists the buffers
given to `free` and `sent` what was given to `transmit`, together with the
arguments of the drain that did so.
-/

namespace Cottage.PendingQueue

open Net Transition Function

/-- An `arp_pending_entry_t`; the null pointer is `none`. -/
structure Entry where
  packet : Option ℕ
  len : UInt16
  targetIp : Ip4
  occupied : Bool
  deriving DecidableEq, Repr

structure Handed where
  contents : List UInt8
  len : UInt16
  targetIp : Ip4
  deriving DecidableEq, Repr

structure Sent where
  device : Device
  packet : ℕ
  len : UInt16
  frame : List UInt8
  resolvedIp : Ip4
  resolvedMac : Mac
  deriving DecidableEq, Repr

structure State where
  queue : Fin arpPendingQueueSize → Entry
  head : Fin arpPendingQueueSize
  tail : Fin arpPendingQueueSize
  memory : ℕ → List UInt8
  freed : List ℕ
  sent : List Sent
  log : List Handed

/-- The buffer that the next call of `arp_pending_enqueue` frees. -/
def State.evicted (s : State) : Option ℕ :=
  if (s.queue s.tail).occupied then (s.queue s.tail).packet else none

def arpPendingEnqueue (packet : ℕ) (len : UInt16) (targetIp : Ip4) (s : State) : State :=
  { s with
    head := if (s.queue s.tail).occupied then s.head + 1 else s.head
    freed := s.freed ++ s.evicted.toList
    queue := update s.queue s.tail ⟨some packet, len, targetIp, true⟩
    tail := s.tail + 1 }

/-- The test of the loop of `arp_pending_drain`. -/
def Entry.Matches (slot : Entry) (resolvedIp : Ip4) : Prop :=
  slot.occupied = true ∧ slot.targetIp = resolvedIp

instance (slot : Entry) (resolvedIp : Ip4) : Decidable (slot.Matches resolvedIp) :=
  inferInstanceAs (Decidable (_ ∧ _))

/-- The body of the loop: the destination is filled in, the packet in slot `i`
sent and its buffer freed. -/
def State.release (s : State) (device : Device) (resolvedIp : Ip4) (resolvedMac : Mac)
    (i : Fin arpPendingQueueSize) (packet : ℕ) : State :=
  let filled := resolvedMac.toList ++ (s.memory packet).drop 6
  { s with
    queue := update s.queue i { s.queue i with packet := none, occupied := false }
    memory := update s.memory packet filled
    sent := s.sent ++ [⟨device, packet, (s.queue i).len, filled.take (s.queue i).len.toNat,
      resolvedIp, resolvedMac⟩]
    freed := s.freed ++ [packet] }

/-- One turn of the loop; `none` stands for writing to a null pointer. -/
def drainSlot (device : Device) (resolvedIp : Ip4) (resolvedMac : Mac) (s : State)
    (i : Fin arpPendingQueueSize) : Option State :=
  if (s.queue i).Matches resolvedIp then
    (s.queue i).packet.map (s.release device resolvedIp resolvedMac i)
  else some s

def arpPendingDrain (device : Device) (resolvedIp : Ip4) (resolvedMac : Mac) (s : State) :
    Option State :=
  (List.finRange arpPendingQueueSize).foldlM (drainSlot device resolvedIp resolvedMac) s

inductive Event
  | enqueue (packet : Handed)
  | drain (device : Device) (resolvedIp : Ip4) (resolvedMac : Mac)
  deriving DecidableEq, Repr

/-- The buffer has room for the destination address and for the bytes to be
sent. -/
def Handed.Full (packet : Handed) : Prop :=
  6 ≤ packet.contents.length ∧ packet.len.toNat ≤ packet.contents.length

instance (packet : Handed) : Decidable packet.Full :=
  inferInstanceAs (Decidable (_ ∧ _))

def State.hand (s : State) (packet : Handed) : State :=
  { s with
    memory := update s.memory s.log.length packet.contents
    log := s.log ++ [packet] }

def step (s : State) : Event → Option State
  | .enqueue packet =>
    if packet.Full then
      some (arpPendingEnqueue s.log.length packet.len packet.targetIp (s.hand packet))
    else none
  | .drain device resolvedIp resolvedMac => arpPendingDrain device resolvedIp resolvedMac s

def Initial (s : State) : Prop :=
  s.queue = (fun _ => ⟨none, 0, Vector.replicate 4 0, false⟩) ∧ s.head = 0 ∧ s.tail = 0 ∧
    s.freed = [] ∧ s.sent = [] ∧ s.log = []

def system : System State Event where
  init := Initial
  step := step

def State.HoldsAt (s : State) (i : Fin arpPendingQueueSize) (k : ℕ) : Prop :=
  (s.queue i).occupied = true ∧ (s.queue i).packet = some k

def State.timesFreed (s : State) (k : ℕ) : ℕ :=
  s.freed.count k

def State.timesSent (s : State) (k : ℕ) : ℕ :=
  (s.sent.map (·.packet)).count k

inductive Fate
  | pending
  | transmitted
  | evicted
  deriving DecidableEq, Repr

def State.HasFate (s : State) (k : ℕ) : Fate → Prop
  | .pending => (∃! i, s.HoldsAt i k) ∧ s.timesSent k = 0 ∧ s.timesFreed k = 0
  | .transmitted => (∀ i, ¬ s.HoldsAt i k) ∧ s.timesSent k = 1 ∧ s.timesFreed k = 1
  | .evicted => (∀ i, ¬ s.HoldsAt i k) ∧ s.timesSent k = 0 ∧ s.timesFreed k = 1

def Fate.counts : Fate → ℕ × ℕ
  | .pending => (0, 0)
  | .transmitted => (1, 1)
  | .evicted => (0, 1)

lemma Fate.counts_injective : Injective Fate.counts := by
  intro f f'
  cases f <;> cases f' <;> decide

lemma State.HasFate.counts {s : State} {k : ℕ} {f : Fate} (h : s.HasFate k f) :
    (s.timesSent k, s.timesFreed k) = f.counts := by
  cases f <;>
    · obtain ⟨_, hsent, hfreed⟩ := h
      rw [hsent, hfreed]
      rfl

lemma State.HasFate.eq {s : State} {k : ℕ} {f f' : Fate} (h : s.HasFate k f)
    (h' : s.HasFate k f') : f = f' :=
  Fate.counts_injective (h.counts.symm.trans h'.counts)

def initState : State where
  queue := fun _ => ⟨none, 0, Vector.replicate 4 0, false⟩
  head := 0
  tail := 0
  memory := fun _ => []
  freed := []
  sent := []
  log := []

lemma initState_initial : Initial initState :=
  ⟨rfl, rfl, rfl, rfl, rfl, rfl⟩

def addressA : Ip4 := sender.ip4

def addressB : Ip4 := receiver.ip4

def smallPacket (ip : Ip4) : Handed where
  contents := List.replicate 6 0
  len := 6
  targetIp := ip

end Cottage.PendingQueue
