import Cottage.Net.Handlers

/-!
# The receive queue of a socket

The network thread in `net_handle_udp` and any number of threads in
`sys_recvfrom`, all on one socket.  A step is an access to the queue, a
critical section of the semaphore, or what a thread does with a datagram that
only it can reach.  Datagram buffers are new objects each time and are numbered
in the order in which they are made; a slot holds a pointer, which nobody
clears.
-/

namespace Cottage.SocketQueue

open ByteReader Reader IndexRing Net Scheduler Sem Transition Function

/-- The arguments of `sys_recvfrom`; `src` tells whether the caller wants the
address. -/
structure Call where
  len : ℕ
  src : Bool
  deriving DecidableEq, Repr

structure Returned where
  call : Call
  datagram : ℕ
  remoteAddr : Option NetAddr
  payload : List UInt8
  deriving DecidableEq, Repr

inductive Receiver
  | idle
  | wait (call : Call)
  | blocked (call : Call)
  | read (call : Call)
  | advance (call : Call) (datagram : ℕ)
  | finish (call : Call) (datagram : ℕ)
  deriving DecidableEq, Repr

inductive Network
  | idle
  | check (datagram : Datagram)
  | store (datagram : ℕ)
  | extend
  | signal
  deriving DecidableEq, Repr

/-- `datagrams` are the buffers made so far, `taken` those for which a thread
has advanced the head, and `failures` the calls that found a null pointer. -/
structure State where
  recvQueue : Ring (Option ℕ) recvQueueSize
  sem : Semaphore
  network : Network
  receivers : Tid → Receiver
  datagrams : List Datagram
  taken : List ℕ
  freed : List ℕ
  returned : List Returned
  failures : ℕ

inductive Event
  | deliver (datagram : Datagram)
  | network
  | recvfrom (t : Tid) (call : Call)
  | receiver (t : Tid)
  deriving DecidableEq, Repr

def State.setReceiver (s : State) (t : Tid) (receiver : Receiver) : State :=
  { s with receivers := update s.receivers t receiver }

/-- A woken thread returns from `sem_wait`. -/
def wake (s : State) (t : Tid) : State :=
  match s.receivers t with
  | .blocked call => s.setReceiver t (.read call)
  | _ => s

def networkStep (s : State) : Option State :=
  match s.network with
  | .idle => none
  | .check datagram =>
    if s.recvQueue.IsFull then some { s with network := .idle }
    else some { s with
      datagrams := s.datagrams ++ [datagram]
      network := .store s.datagrams.length }
  | .store k => some { s with recvQueue := s.recvQueue.store (some k), network := .extend }
  | .extend => some { s with recvQueue := s.recvQueue.extend, network := .signal }
  | .signal =>
    match semSignal s.sem with
    | (sem, none) => some { s with sem := sem, network := .idle }
    | (sem, some t) => some (wake { s with sem := sem, network := .idle } t)

def received (call : Call) (k : ℕ) (datagram : Datagram) : Returned where
  call := call
  datagram := k
  remoteAddr := if call.src then some datagram.remoteAddr else none
  payload := datagram.payload.take (min call.len datagram.len)

def receiverStep (s : State) (t : Tid) : Option State :=
  match s.receivers t with
  | .idle => none
  | .wait call =>
    match semWait s.sem t with
    | .acquired sem => some ({ s with sem := sem }.setReceiver t (.read call))
    | .blocked sem => some ({ s with sem := sem }.setReceiver t (.blocked call))
    | .panicked => none
  | .blocked _ => none
  | .read call =>
    match s.recvQueue.front with
    | none => some ({ s with failures := s.failures + 1 }.setReceiver t .idle)
    | some k => some (s.setReceiver t (.advance call k))
  | .advance call k =>
    some ({ s with recvQueue := s.recvQueue.pop, taken := s.taken ++ [k] }.setReceiver t
      (.finish call k))
  | .finish call k =>
    s.datagrams[k]?.map fun datagram =>
      { s with
        returned := s.returned ++ [received call k datagram]
        freed := s.freed ++ [k] }.setReceiver t .idle

def step (s : State) : Event → Option State
  | .deliver datagram =>
    if s.network = .idle ∧ datagram.len = datagram.payload.length then
      some { s with network := .check datagram }
    else none
  | .network => networkStep s
  | .recvfrom t call =>
    if s.receivers t = .idle then some (s.setReceiver t (.wait call)) else none
  | .receiver t => receiverStep s t

def Initial (s : State) : Prop :=
  s.recvQueue = .empty (fun _ => none) recvQueueSize_pos ∧ (∃ slots, s.sem = semInit 0 slots) ∧
    s.network = .idle ∧ (∀ t, s.receivers t = .idle) ∧ s.datagrams = [] ∧ s.taken = [] ∧
    s.freed = [] ∧ s.returned = [] ∧ s.failures = 0

def system : System State Event where
  init := Initial
  step := step

def State.HeadFree (s : State) : Prop :=
  ∀ t call k, s.receivers t ≠ .advance call k

/-- A thread reads the slot at the head only while no other thread is about to
advance the head. -/
def Exclusive (s : State) : Event → Prop
  | .receiver t => ∀ call, s.receivers t = .read call → s.HeadFree
  | _ => True

def Only (r : Tid) (_ : State) : Event → Prop
  | .recvfrom t _ => t = r
  | _ => True

instance (r : Tid) (s : State) (a : Event) : Decidable (Only r s a) :=
  match a with
  | .recvfrom _ _ => inferInstanceAs (Decidable (_ = _))
  | .deliver _ => .isTrue trivial
  | .network => .isTrue trivial
  | .receiver _ => .isTrue trivial

def initState : State where
  recvQueue := .empty (fun _ => none) recvQueueSize_pos
  sem := semInit 0 fun _ => 0
  network := .idle
  receivers := fun _ => .idle
  datagrams := []
  taken := []
  freed := []
  returned := []
  failures := 0

lemma initState_initial : Initial initState :=
  ⟨rfl, ⟨_, rfl⟩, rfl, fun _ => rfl, rfl, rfl, rfl, rfl, rfl⟩

def oneByte (b : UInt8) : Datagram where
  remoteAddr := ⟨afIpv4, 0, 0⟩
  len := 1
  payload := [b]

/-! ## The steps as one call -/

/-- The queue and the semaphore of a socket, with the pointers followed. -/
structure Shows (pcb : UdpPcb) (s : State) : Prop where
  head : s.recvQueue.head = pcb.recvQueue.head
  tail : s.recvQueue.tail = pcb.recvQueue.tail
  slot : ∀ i, pcb.recvQueue.slot i = (s.recvQueue.slot i).bind (s.datagrams[·]?)
  made : ∀ i k, s.recvQueue.slot i = some k → k < s.datagrams.length
  sem : s.sem = pcb.sem

/-- The steps of the network thread with none of a receiver in between. -/
def NetworkAlone : State → State → Prop :=
  Relation.ReflTransGen fun s s' => networkStep s = some s'

lemma networkStep_signal {s : State} (hnetwork : s.network = .signal) :
    ∃ receivers, networkStep s = some { s with
      sem := (semSignal s.sem).1
      network := .idle
      receivers := receivers } := by
  rw [networkStep, hnetwork]
  dsimp only
  split
  · rename_i heq
    exact ⟨s.receivers, by rw [heq]⟩
  · rename_i t heq
    rw [wake]
    split <;> rw [heq] <;> exact ⟨_, rfl⟩

variable {pcb : UdpPcb} {s : State} {datagram : Datagram}

lemma Shows.push (h : Shows pcb s) (sem : Semaphore) (receivers : Tid → Receiver) :
    Shows ⟨pcb.recvQueue.push (some datagram), sem⟩ { s with
      recvQueue := s.recvQueue.push (some s.datagrams.length)
      datagrams := s.datagrams ++ [datagram]
      sem := sem
      network := .idle
      receivers := receivers } := by
  refine ⟨h.head, congrArg (fun tail => (tail + 1) % recvQueueSize) h.tail, fun i => ?_,
    fun i k => ?_, rfl⟩
  · simp only [Ring.push, ← h.tail, update_apply]
    split_ifs with hi
    · simp
    · rw [h.slot]
      cases hslot : s.recvQueue.slot i with
      | none => rfl
      | some k => exact (List.getElem?_append_left (h.made i k hslot)).symm
  · simp only [Ring.push, update_apply, List.length_append, List.length_singleton]
    split_ifs with hi
    · rintro ⟨⟩
      exact Nat.lt_succ_self _
    · exact fun hslot => (h.made i k hslot).trans (Nat.lt_succ_self _)

lemma Shows.networkAlone (h : Shows pcb s) (hnetwork : s.network = .check datagram) :
    ∃ s', NetworkAlone s s' ∧ s'.network = .idle ∧
      Shows (if pcb.recvQueue.IsFull then pcb
        else ⟨pcb.recvQueue.push (some datagram), (semSignal pcb.sem).1⟩) s' := by
  have hfull : s.recvQueue.IsFull ↔ pcb.recvQueue.IsFull := by
    rw [Ring.IsFull, Ring.IsFull, h.head, h.tail]
  have hcheck : networkStep s = if s.recvQueue.IsFull then some { s with network := .idle }
      else some { s with
        datagrams := s.datagrams ++ [datagram]
        network := .store s.datagrams.length } := by
    rw [networkStep, hnetwork]
  simp only [hfull] at hcheck
  split_ifs at hcheck ⊢
  · exact ⟨_, .single hcheck, rfl, h.head, h.tail, h.slot, h.made, h.sem⟩
  · obtain ⟨receivers, hsignal⟩ := networkStep_signal (s := { s with
      recvQueue := s.recvQueue.push (some s.datagrams.length)
      datagrams := s.datagrams ++ [datagram]
      network := .signal }) rfl
    refine ⟨_, .head hcheck (.head rfl (.head rfl (.single hsignal))), rfl, ?_⟩
    rw [← h.sem]
    exact h.push _ receivers

/-- What `net_handle_udp` puts into the buffer. -/
def udpDatagram (packet : ℕ → UInt8) (ip payload : ℕ) (payloadLen : UInt16) : Datagram where
  remoteAddr := ⟨afIpv4, (read16 payload).run packet, le32 ((bytes (ip + 12) 4).run packet)⟩
  len := payloadLen.toNat - 8
  payload := ((bytes (payload + 8) (payloadLen.toNat - 8)).run packet).toList

/-- The effect of `net_handle_udp` on the queue of the socket is that of the
steps when nothing comes between them. -/
lemma networkAlone_netHandleUdp {net : NetState} {socket ip payload : ℕ} {payloadLen : UInt16}
    {packet : ℕ → UInt8} (hlong : ¬ payloadLen < 8)
    (hsocket : net.udpPortTable (ntohs ((read16 (payload + 2)).run packet)) = some socket)
    (h : Shows (net.sockets socket).pcb s)
    (hnetwork : s.network = .check (udpDatagram packet ip payload payloadLen)) :
    ∃ s', NetworkAlone s s' ∧ s'.network = .idle ∧
      Shows (((netHandleUdp ip payload payloadLen net).run packet).sockets socket).pcb s' := by
  obtain ⟨s', hrun, hidle, hshows⟩ := h.networkAlone hnetwork
  refine ⟨s', hrun, hidle, ?_⟩
  rw [netHandleUdp, if_neg hlong]
  simp only [run_bind, hsocket]
  split_ifs at hshows ⊢ with hfull
  · exact hshows
  · simp only [run_bind, run_pure, deliver_sockets_self]
    exact hshows

end Cottage.SocketQueue
