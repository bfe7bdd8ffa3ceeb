import Cottage.Net.Wire
import Cottage.Scheduler.Semaphore

/-!
# The state of the network stack

The tables of `arp.c`, `udp.c` and `route.c` with the operations on them that
do not look at a frame.  The tables are static variables, so they start zeroed;
a free cache entry therefore holds the address 0.0.0.0.  What leaves the stack
is recorded: `sent` lists the frames given to `transmit`, in order, and `woken`
the threads that `sem_signal` hands to the scheduler.
-/

namespace Cottage.Net

open IndexRing Scheduler Sem Function

structure Device where
  mac : Mac
  ip4 : Ip4
  deriving DecidableEq, Repr

structure Transmission where
  device : Device
  frame : List UInt8
  deriving DecidableEq, Repr

/-! ## Tables -/

structure ArpEntry where
  ip : Ip4
  mac : Mac
  deriving DecidableEq, Repr

abbrev arpCacheSize : ℕ := 32

structure ArpPendingEntry where
  packet : List UInt8
  len : UInt16
  targetIp : Ip4
  occupied : Bool
  deriving DecidableEq, Repr

abbrev arpPendingQueueSize : ℕ := 32

instance : NeZero arpPendingQueueSize :=
  ⟨by decide⟩

/-- A `net_addr_t`; port and address in network byte order. -/
structure NetAddr where
  family : UInt16
  port : UInt16
  ipv4 : UInt32
  deriving DecidableEq, Repr

def afIpv4 : UInt16 := 1

structure Datagram where
  remoteAddr : NetAddr
  len : ℕ
  payload : List UInt8
  deriving DecidableEq, Repr

abbrev recvQueueSize : ℕ := 32

lemma recvQueueSize_pos : 0 < recvQueueSize := by
  decide

structure UdpPcb where
  recvQueue : Ring (Option Datagram) recvQueueSize
  sem : Semaphore

inductive SockState
  | closed
  | bound
  deriving DecidableEq, Repr

structure SocketResource where
  state : SockState
  localAddr : NetAddr
  pcb : UdpPcb

structure RouteEntry where
  destNetwork : UInt32
  subnetMask : UInt32
  gateway : UInt32
  device : Device
  flags : UInt32
  deriving DecidableEq, Repr

abbrev routeTableSize : ℕ := 32

structure NetState where
  arpCache : Vector ArpEntry arpCacheSize
  lastArpCacheEntry : ℕ
  arpPendingQueue : Vector ArpPendingEntry arpPendingQueueSize
  arpPendingHead : Fin arpPendingQueueSize
  arpPendingTail : Fin arpPendingQueueSize
  udpPortTable : UInt16 → Option ℕ
  sockets : ℕ → SocketResource
  routeTable : Vector RouteEntry routeTableSize
  sent : List Transmission
  woken : List Tid

def NetState.transmit (s : NetState) (device : Device) (frame : List UInt8) : NetState :=
  { s with sent := s.sent ++ [⟨device, frame⟩] }

/-! ## ARP -/

def arpRequest : UInt16 := 1

def arpReply : UInt16 := 2

/-- The frames of `arp_send_request` and of the reply in `net_handle_arp`. -/
def arpFrame (destMac srcMac : Mac) (opcode : UInt8) (senderIp : Ip4) (targetMac : Mac)
    (targetIp : Ip4) : List UInt8 :=
  destMac.toList ++ srcMac.toList ++ [0x08, 0x06, 0x00, 0x01, 0x08, 0x00, 6, 4, 0x00, opcode] ++
    srcMac.toList ++ senderIp.toList ++ targetMac.toList ++ targetIp.toList

def arpCacheLookup (s : NetState) (ip : Ip4) : Option Mac :=
  (s.arpCache.toList.find? (·.ip = ip)).map (·.mac)

def arpSendRequest (device : Device) (targetIp : Ip4) (s : NetState) : NetState :=
  s.transmit device
    (arpFrame (Vector.replicate 6 0xFF) device.mac 1 device.ip4 (Vector.replicate 6 0) targetIp)

def arpLookup (device : Device) (ip : Ip4) (s : NetState) : NetState × Option Mac :=
  match arpCacheLookup s ip with
  | some mac => (s, some mac)
  | none => (arpSendRequest device ip s, none)

/-- The loop over the cache for an ARP reply, and the new entry if it finds
none. -/
def arpCacheStore (senderIp : Ip4) (senderMac : Mac) (s : NetState) : NetState :=
  if ∃ e ∈ s.arpCache.toList, e.ip = senderIp then
    { s with
      arpCache := s.arpCache.map fun e => if e.ip = senderIp then ⟨e.ip, senderMac⟩ else e }
  else if h : s.lastArpCacheEntry < arpCacheSize then
    { s with
      arpCache := s.arpCache.set s.lastArpCacheEntry ⟨senderIp, senderMac⟩ h
      lastArpCacheEntry := s.lastArpCacheEntry + 1 }
  else s

def arpPendingEnqueue (packet : List UInt8) (len : UInt16) (targetIp : Ip4) (s : NetState) :
    NetState :=
  let slot := s.arpPendingQueue[s.arpPendingTail]
  { s with
    arpPendingHead := if slot.occupied then s.arpPendingHead + 1 else s.arpPendingHead
    arpPendingQueue := s.arpPendingQueue.set s.arpPendingTail ⟨packet, len, targetIp, true⟩
    arpPendingTail := s.arpPendingTail + 1 }

/-- One turn of the loop of `arp_pending_drain`. -/
def drainSlot (device : Device) (resolvedIp : Ip4) (resolvedMac : Mac) (s : NetState)
    (i : Fin arpPendingQueueSize) : NetState :=
  let slot := s.arpPendingQueue[i]
  if slot.occupied ∧ slot.targetIp = resolvedIp then
    { s with
      sent := s.sent ++ [⟨device, (resolvedMac.toList ++ slot.packet.drop 6).take slot.len.toNat⟩]
      arpPendingQueue := s.arpPendingQueue.set i { slot with packet := [], occupied := false } }
  else s

def arpPendingDrain (device : Device) (resolvedIp : Ip4) (resolvedMac : Mac) (s : NetState) :
    NetState :=
  (List.finRange arpPendingQueueSize).foldl (drainSlot device resolvedIp resolvedMac) s

/-! ## Sockets -/

/-- The end of `net_handle_udp`: the datagram goes into the queue of the socket
and its semaphore is signalled. -/
def NetState.deliver (s : NetState) (socket : ℕ) (datagram : Datagram) : NetState :=
  let resource := s.sockets socket
  let signalled := semSignal resource.pcb.sem
  { s with
    sockets := update s.sockets socket { resource with
      pcb := ⟨resource.pcb.recvQueue.push (some datagram), signalled.1⟩ }
    woken := s.woken ++ signalled.2.toList }

lemma deliver_sockets_self (s : NetState) (socket : ℕ) (datagram : Datagram) :
    (s.deliver socket datagram).sockets socket = { s.sockets socket with
      pcb := ⟨(s.sockets socket).pcb.recvQueue.push (some datagram),
        (semSignal (s.sockets socket).pcb.sem).1⟩ } :=
  update_self socket _ s.sockets

lemma deliver_sockets_of_ne (s : NetState) {socket other : ℕ} (datagram : Datagram)
    (h : other ≠ socket) : (s.deliver socket datagram).sockets other = s.sockets other :=
  update_of_ne h _ s.sockets

/-! ## A small configuration -/

def sender : Device where
  mac := Vector.replicate 6 1
  ip4 := #v[10, 0, 0, 1]

def receiver : Device where
  mac := Vector.replicate 6 2
  ip4 := #v[10, 0, 0, 2]

def listening : NetState where
  arpCache := Vector.replicate _ ⟨Vector.replicate 4 0, Vector.replicate 6 0⟩
  lastArpCacheEntry := 0
  arpPendingQueue := Vector.replicate _ ⟨[], 0, Vector.replicate 4 0, false⟩
  arpPendingHead := 0
  arpPendingTail := 0
  udpPortTable := fun port => if port = 7 then some 0 else none
  sockets := fun _ =>
    ⟨.bound, ⟨afIpv4, htons 7, 0⟩, ⟨.empty (fun _ => none) recvQueueSize_pos, semInit 0 fun _ => 0⟩⟩
  routeTable := Vector.replicate _ ⟨0, 0, 0, ⟨Vector.replicate 6 0, Vector.replicate 4 0⟩, 0⟩
  sent := []
  woken := []

end Cottage.Net
