import Cottage.Net.SendLengths

/-!
# Packets that wait for an address

Senders, the network thread and the messages between them.  A call of
`sys_sendto` looks the next hop up in the cache; on a miss `arp_lookup` sends a
request, and in a later step the packet is put into the pending queue.  The
network thread takes an incoming message, stores the address of a reply in the
cache and then goes through the pending queue slot by slot.  Requests and
incoming messages are in flight until they are answered, received or lost, and
a message of any content may come in at any time.
-/

namespace Cottage.ArpPending

open Net Transition Function

structure ArpMessage where
  opcode : UInt16
  senderMac : Mac
  senderIp : Ip4
  targetIp : Ip4
  deriving DecidableEq, Repr

inductive Sender
  | idle
  | lookup (packet : List UInt8) (len : UInt16) (nextHop : Ip4)
  | enqueue (packet : List UInt8) (len : UInt16) (nextHop : Ip4)
  | transmit (packet : List UInt8)
  deriving DecidableEq, Repr

/-- Where `net_handle_arp` stands; `next` is the slot that `arp_pending_drain`
looks at next. -/
inductive Handler
  | idle
  | drain (resolvedIp : Ip4) (resolvedMac : Mac) (next : Fin arpPendingQueueSize)
  deriving DecidableEq, Repr

structure State (n : ℕ) where
  net : NetState
  senders : Fin n → Sender
  thread : Handler
  requests : List Ip4
  inbox : List ArpMessage

inductive Event (n : ℕ)
  | sendto (t : Fin n) (packet : List UInt8) (len : UInt16) (nextHop : Ip4)
  | lookup (t : Fin n)
  | enqueue (t : Fin n)
  | transmit (t : Fin n)
  | answer (ip : Ip4) (mac : Mac)
  | loseRequest (ip : Ip4)
  | arrive (m : ArpMessage)
  | lose (m : ArpMessage)
  | receive (m : ArpMessage)
  | drain
  deriving DecidableEq, Repr

variable {n : ℕ}

def State.setSender (s : State n) (t : Fin n) (sender : Sender) : State n :=
  { s with senders := update s.senders t sender }

def nextSlot (ip : Ip4) (mac : Mac) (i : Fin arpPendingQueueSize) : Handler :=
  if h : i + 1 < arpPendingQueueSize then .drain ip mac ⟨i + 1, h⟩ else .idle

def step (device : Device) (s : State n) : Event n → Option (State n)
  | .sendto t packet len nextHop =>
    if s.senders t = .idle then some (s.setSender t (.lookup packet len nextHop)) else none
  | .lookup t =>
    match s.senders t with
    | .lookup packet len nextHop =>
      match arpLookup device nextHop s.net with
      | (net, some mac) =>
        some { s.setSender t (.transmit (mac.toList ++ packet.drop 6)) with net := net }
      | (net, none) =>
        some { s.setSender t (.enqueue packet len nextHop) with
          net := net
          requests := nextHop :: s.requests }
    | _ => none
  | .enqueue t =>
    match s.senders t with
    | .enqueue packet len nextHop =>
      some { s.setSender t .idle with net := arpPendingEnqueue packet len nextHop s.net }
    | _ => none
  | .transmit t =>
    match s.senders t with
    | .transmit packet => some { s.setSender t .idle with net := s.net.transmit device packet }
    | _ => none
  | .answer ip mac =>
    if ip ∈ s.requests then
      some { s with
        requests := s.requests.erase ip
        inbox := ⟨arpReply, mac, ip, device.ip4⟩ :: s.inbox }
    else none
  | .loseRequest ip => some { s with requests := s.requests.erase ip }
  | .arrive m => some { s with inbox := m :: s.inbox }
  | .lose m => some { s with inbox := s.inbox.erase m }
  | .receive m =>
    if s.thread = .idle ∧ m ∈ s.inbox then
      if m.opcode = arpReply then
        some { s with
          net := arpCacheStore m.senderIp m.senderMac s.net
          thread := .drain m.senderIp m.senderMac 0
          inbox := s.inbox.erase m }
      else
        some { s with
          net := arpReceive device m.opcode m.senderMac m.senderIp m.targetIp s.net
          inbox := s.inbox.erase m }
    else none
  | .drain =>
    match s.thread with
    | .drain ip mac i =>
      some { s with net := drainSlot device ip mac s.net i, thread := nextSlot ip mac i }
    | .idle => none

/-- After `arp_pending_init`, with the cache as the kernel image has it. -/
def Initial (s : State n) : Prop :=
  s.net.arpCache = Vector.replicate _ ⟨Vector.replicate 4 0, Vector.replicate 6 0⟩ ∧
    s.net.lastArpCacheEntry = 0 ∧
    s.net.arpPendingQueue = Vector.replicate _ ⟨[], 0, Vector.replicate 4 0, false⟩ ∧
    s.net.arpPendingHead = 0 ∧ s.net.arpPendingTail = 0 ∧ (∀ t, s.senders t = .idle) ∧
    s.thread = .idle ∧ s.requests = [] ∧ s.inbox = []

def system (n : ℕ) (device : Device) : System (State n) (Event n) where
  init := Initial
  step := step device

/-! ## The sender as one call -/

section

variable {fds : ℕ → Option FileDescriptor} {fd : ℕ} {payload : List UInt8} {dest : NetAddr}
  {s' : NetState} {sockfd : FileDescriptor} {route : RouteResult} {random : UInt32} {unset : Mac}
  {port : UInt16} {a : State n} {t : Fin n}

lemma packetTo_eq (mac unset : Mac) (route : RouteResult) (dest : NetAddr) (port : UInt16)
    (payload : List UInt8) :
    packetTo mac route dest port payload =
      mac.toList ++ (packetTo unset route dest port payload).drop 6 := by
  have hmac : mac.toList = [mac[0], mac[1], mac[2], mac[3], mac[4], mac[5]] := by
    apply List.ext_getElem
    · simp
    · intro i _ hi
      have hi' : i < 6 := hi
      interval_cases i <;> rfl
  rw [hmac]
  rfl

lemma take_packetTo (hlen : payload.length ≤ 65493) (mac : Mac) (route : RouteResult)
    (dest : NetAddr) (port : UInt16) :
    (packetTo mac route dest port payload).take (sendLen payload).toNat =
      packetTo mac route dest port payload := by
  apply List.take_of_length_le
  rw [packetTo, length_udpPacket, sendLen, UInt16.toNat_ofNat']
  simp only [ethHeaderLen, ipv4HeaderLen, udpHeaderLen]
  omega

lemma run_of_cached {packet : List UInt8} {len : UInt16} {ip : Ip4} {mac : Mac} {device : Device}
    (hsender : a.senders t = .idle) (hmac : arpCacheLookup a.net ip = some mac) :
    (system n device).run a [.sendto t packet len ip, .lookup t, .transmit t] =
      some { a.setSender t .idle with
        net := a.net.transmit device (mac.toList ++ packet.drop 6) } := by
  simp [system, step, hsender, State.setSender, arpLookup, hmac]

lemma run_of_not_cached {packet : List UInt8} {len : UInt16} {ip : Ip4} {device : Device}
    (hsender : a.senders t = .idle) (hmac : arpCacheLookup a.net ip = none) :
    (system n device).run a [.sendto t packet len ip, .lookup t, .enqueue t] =
      some { a.setSender t .idle with
        net := arpPendingEnqueue packet len ip (arpSendRequest device ip a.net)
        requests := ip :: a.requests } := by
  simp [system, step, hsender, State.setSender, arpLookup, hmac]

/-- The steps of a sender with nothing in between do what `sys_sendto` does,
apart from the port that it may give to the socket. -/
lemma run_sysSendto (hsender : a.senders t = .idle)
    (hrouted : Routed fds fd dest a.net sockfd route) (hlen : payload.length ≤ 65493)
    (hport : sourcePort sockfd.resource random (arpLookup route.device (nextHop route) a.net).1 =
      some (s', port)) :
    ∃ a' last, (system n route.device).run a
        [.sendto t (packetTo unset route dest port payload) (sendLen payload) (nextHop route),
          .lookup t, last] = some a' ∧ a'.senders t = .idle ∧
      (sysSendto fds fd payload dest random unset a.net).1 =
        { a'.net with sockets := s'.sockets, udpPortTable := s'.udpPortTable } := by
  have hframe := eq_of_sourcePort hport
  cases hmac : arpCacheLookup a.net (nextHop route) with
  | none =>
    simp only [arpLookup, hmac] at hport hframe
    refine ⟨_, _, run_of_not_cached hsender hmac, update_self .., ?_⟩
    rw [sysSendto_of_not_cached hrouted hmac hport]
    dsimp only
    rw [hframe]
    rfl
  | some mac =>
    simp only [arpLookup, hmac] at hport hframe
    refine ⟨_, _, run_of_cached hsender hmac, update_self .., ?_⟩
    rw [sysSendto_of_cached hrouted hmac hport, take_packetTo hlen, packetTo_eq mac unset]
    rw [hframe]
    rfl

end

/-! ## Waiting packets -/

def Cached (net : NetState) (ip : Ip4) : Prop :=
  ∃ e ∈ net.arpCache.toList, e.ip = ip

instance (net : NetState) (ip : Ip4) : Decidable (Cached net ip) :=
  inferInstanceAs (Decidable (∃ e ∈ _, _))

def Waits (net : NetState) (i : Fin arpPendingQueueSize) (ip : Ip4) : Prop :=
  (net.arpPendingQueue.get i).occupied ∧ (net.arpPendingQueue.get i).targetIp = ip

instance (net : NetState) (i : Fin arpPendingQueueSize) (ip : Ip4) : Decidable (Waits net i ip) :=
  inferInstanceAs (Decidable (_ ∧ _))

variable {net : NetState} {ip : Ip4} {mac : Mac} {i : Fin arpPendingQueueSize} {device : Device}

lemma cached_arpCacheStore {ip' : Ip4} (h : Cached (arpCacheStore ip mac net) ip') :
    ip' = ip ∨ Cached net ip' := by
  obtain ⟨e, he, hip⟩ := h
  rw [arpCacheStore] at he
  split_ifs at he with hfound hlast
  · rw [Vector.toList_map, List.mem_map] at he
    obtain ⟨e', he', rfl⟩ := he
    refine .inr ⟨e', he', ?_⟩
    rw [← hip]
    split_ifs <;> rfl
  · rw [Vector.toList_set] at he
    rcases List.mem_or_eq_of_mem_set he with hmem | rfl
    · exact .inr ⟨e, hmem, hip⟩
    · exact .inl hip.symm
  · exact .inr ⟨e, he, hip⟩

lemma arpPendingQueue_arpCacheStore (ip : Ip4) (mac : Mac) (net : NetState) :
    (arpCacheStore ip mac net).arpPendingQueue = net.arpPendingQueue := by
  rw [arpCacheStore]
  split_ifs <;> rfl

lemma queue_set_of_ne {queue : Vector ArpPendingEntry arpPendingQueueSize}
    {j : Fin arpPendingQueueSize} (h : i ≠ j) (slot : ArpPendingEntry) :
    (queue.set i slot i.isLt).get j = queue.get j :=
  Vector.getElem_set_ne i.isLt j.isLt fun heq => h (Fin.ext heq)

lemma queue_set_self (queue : Vector ArpPendingEntry arpPendingQueueSize)
    (i : Fin arpPendingQueueSize) (slot : ArpPendingEntry) :
    (queue.set i slot i.isLt).get i = slot :=
  Vector.getElem_set_self _

lemma waits_arpPendingEnqueue {packet : List UInt8} {len : UInt16} {target : Ip4}
    (h : Waits (arpPendingEnqueue packet len target net) i ip) : ip = target ∨ Waits net i ip := by
  rw [Waits, arpPendingEnqueue] at h
  by_cases hi : net.arpPendingTail = i
  · subst hi
    simp only [queue_set_self] at h
    exact .inl h.2.symm
  · simp only [queue_set_of_ne hi] at h
    exact .inr h

lemma waits_drainSlot {ip' : Ip4} {j : Fin arpPendingQueueSize}
    (h : Waits (drainSlot device ip mac net i) j ip') : Waits net j ip' ∧ (ip' = ip → j ≠ i) := by
  rw [drainSlot] at h
  split_ifs at h with hslot
  · rw [Waits] at h
    by_cases hij : i = j
    · subst hij
      simp [queue_set_self] at h
    · simp only [queue_set_of_ne hij] at h
      exact ⟨h, fun _ hji => hij hji.symm⟩
  · refine ⟨h, ?_⟩
    rintro rfl rfl
    exact hslot h

lemma arpCache_drainSlot (device : Device) (ip : Ip4) (mac : Mac) (net : NetState)
    (i : Fin arpPendingQueueSize) : (drainSlot device ip mac net i).arpCache = net.arpCache := by
  rw [drainSlot]
  split_ifs <;> rfl

inductive Move (device : Device) (s : State n) (e : Event n) (s' : State n) : Prop
  | other (hcache : s'.net.arpCache = s.net.arpCache)
      (hqueue : s'.net.arpPendingQueue = s.net.arpPendingQueue) (hthread : s'.thread = s.thread)
  | enqueue (t : Fin n) (packet : List UInt8) (len : UInt16) (nextHop : Ip4) (he : e = .enqueue t)
      (hsender : s.senders t = .enqueue packet len nextHop)
      (hnet : s'.net = arpPendingEnqueue packet len nextHop s.net) (hthread : s'.thread = s.thread)
  | store (ip : Ip4) (mac : Mac) (hidle : s.thread = .idle)
      (hnet : s'.net = arpCacheStore ip mac s.net) (hthread : s'.thread = .drain ip mac 0)
  | drain (ip : Ip4) (mac : Mac) (i : Fin arpPendingQueueSize) (hdrain : s.thread = .drain ip mac i)
      (hnet : s'.net = drainSlot device ip mac s.net i) (hthread : s'.thread = nextSlot ip mac i)

lemma move_of_step {s s' : State n} {e : Event n} (hstep : step device s e = some s') :
    Move device s e s' := by
  cases e with
  | sendto t packet len nextHop =>
    simp only [step] at hstep
    split_ifs at hstep
    cases hstep
    exact .other rfl rfl rfl
  | lookup t =>
    simp only [step, arpLookup] at hstep
    cases hsender : s.senders t with
    | lookup packet len nextHop =>
      cases hlookup : arpCacheLookup s.net nextHop <;>
        simp only [hsender, hlookup, Option.some.injEq] at hstep <;> subst hstep <;>
        exact .other rfl rfl rfl
    | _ => simp [hsender] at hstep
  | enqueue t =>
    simp only [step] at hstep
    cases hsender : s.senders t with
    | enqueue packet len nextHop =>
      simp only [hsender] at hstep
      cases hstep
      exact .enqueue t packet len nextHop rfl hsender rfl rfl
    | _ => simp [hsender] at hstep
  | transmit t =>
    simp only [step] at hstep
    cases hsender : s.senders t with
    | transmit packet =>
      simp only [hsender] at hstep
      cases hstep
      exact .other rfl rfl rfl
    | _ => simp [hsender] at hstep
  | answer ip mac =>
    simp only [step] at hstep
    split_ifs at hstep
    cases hstep
    exact .other rfl rfl rfl
  | loseRequest ip | arrive m | lose m =>
    cases hstep
    exact .other rfl rfl rfl
  | receive m =>
    simp only [step] at hstep
    split_ifs at hstep with hidle hreply
    · cases hstep
      exact .store m.senderIp m.senderMac hidle.1 rfl rfl
    · cases hstep
      refine .other ?_ ?_ rfl <;> simp only [arpReceive, if_neg hreply] <;> split_ifs <;> rfl
  | drain =>
    simp only [step] at hstep
    cases hthread : s.thread with
    | drain ip mac i =>
      simp only [hthread] at hstep
      cases hstep
      exact .drain ip mac i hthread rfl rfl
    | idle => simp [hthread] at hstep

lemma drop_finRange (i : Fin arpPendingQueueSize) :
    (List.finRange arpPendingQueueSize).drop i =
      i :: (List.finRange arpPendingQueueSize).drop (i + 1) := by
  have hi : (i : ℕ) < (List.finRange arpPendingQueueSize).length := by
    rw [List.length_finRange]
    exact i.isLt
  rw [List.drop_eq_getElem_cons hi, List.getElem_finRange]
  rfl

lemma step_drain {s : State n} (hthread : s.thread = .drain ip mac i) :
    (system n device).step s .drain =
      some { s with net := drainSlot device ip mac s.net i, thread := nextSlot ip mac i } := by
  simp only [system, step, hthread]

lemma run_drain {s : State n} {k : ℕ} (hthread : s.thread = .drain ip mac i)
    (hk : i + (k + 1) = arpPendingQueueSize) :
    (system n device).run s (List.replicate (k + 1) .drain) =
      some { s with
        net := ((List.finRange arpPendingQueueSize).drop i).foldl (drainSlot device ip mac) s.net
        thread := .idle } := by
  induction k generalizing s i with
  | zero =>
    have hlast : ¬ (i : ℕ) + 1 < arpPendingQueueSize := by omega
    have hdrop : (List.finRange arpPendingQueueSize).drop (i + 1) = [] :=
      List.drop_eq_nil_of_le (by rw [List.length_finRange]; omega)
    rw [List.replicate_one, System.run_cons_of_step _ (step_drain hthread), drop_finRange,
      nextSlot, dif_neg hlast, hdrop]
    rfl
  | succ k ih =>
    have hlt : (i : ℕ) + 1 < arpPendingQueueSize := by omega
    have hnext : nextSlot ip mac i = .drain ip mac ⟨i + 1, hlt⟩ := dif_pos hlt
    rw [List.replicate_succ, System.run_cons_of_step _ (step_drain hthread), ih hnext (by
      dsimp only
      omega), drop_finRange i, List.foldl_cons]

/-- The steps of the network thread, taken one after the other, are
`net_handle_arp`. -/
theorem receive_alone {s : State n} {m : ArpMessage} (hidle : s.thread = .idle)
    (hmem : m ∈ s.inbox) (hreply : m.opcode = arpReply) :
    (system n device).run s (.receive m :: List.replicate arpPendingQueueSize .drain) =
      some { s with
        net := arpReceive device m.opcode m.senderMac m.senderIp m.targetIp s.net
        inbox := s.inbox.erase m } := by
  have hstep : (system n device).step s (.receive m) =
      some { s with
        net := arpCacheStore m.senderIp m.senderMac s.net
        thread := .drain m.senderIp m.senderMac 0
        inbox := s.inbox.erase m } := by
    simp only [system, step, hidle, hmem, hreply, and_self, if_true]
  have hother : arpReply ≠ arpRequest := by decide
  rw [System.run_cons_of_step _ hstep, run_drain rfl rfl]
  simp only [arpReceive, hreply, hother, if_false, if_true, arpPendingDrain, ← hidle]
  rfl

/-! ## No packet waits for a known address -/

/-- A packet waits for an address in the cache only while the network thread is
on its way to the slot. -/
def Inv (s : State n) : Prop :=
  ∀ i ip, Waits s.net i ip → Cached s.net ip → ∃ mac next, s.thread = .drain ip mac next ∧ next ≤ i

def queuedFor (s : State n) : Event n → Option Ip4
  | .enqueue t =>
    match s.senders t with
    | .enqueue _ _ nextHop => some nextHop
    | _ => none
  | _ => none

/-- A packet is put into the queue only while its next hop is not in the
cache. -/
def NotCached (s : State n) (e : Event n) : Prop :=
  ∀ nextHop ∈ queuedFor s e, ¬ Cached s.net nextHop

instance (s : State n) (e : Event n) : Decidable (NotCached s e) :=
  Option.decidableForallMem _

lemma Inv.step {s s' : State n} {e : Event n} (h : Inv s) (hok : NotCached s e)
    (hstep : step device s e = some s') : Inv s' := by
  intro j ip' hwaits hcached
  cases move_of_step hstep with
  | other hcache hqueue hthread =>
    rw [Waits, hqueue] at hwaits
    rw [Cached, hcache] at hcached
    rw [hthread]
    exact h j ip' hwaits hcached
  | enqueue t packet len nextHop he hsender hnet hthread =>
    rw [hnet] at hwaits hcached
    rw [hthread]
    rcases waits_arpPendingEnqueue hwaits with rfl | hwaits
    · have hqueued : queuedFor s e = some ip' := by simp only [he, queuedFor, hsender]
      exact absurd hcached (hok ip' hqueued)
    · exact h j ip' hwaits hcached
  | store ip mac hidle hnet hthread =>
    rw [hnet] at hwaits hcached
    rw [Waits, arpPendingQueue_arpCacheStore] at hwaits
    rcases cached_arpCacheStore hcached with rfl | hcached
    · exact ⟨mac, 0, hthread, Fin.zero_le j⟩
    · obtain ⟨mac', next, hdrain, _⟩ := h j ip' hwaits hcached
      rw [hidle] at hdrain
      cases hdrain
  | drain ip mac i hdrain hnet hthread =>
    rw [hnet] at hwaits hcached
    rw [Cached, arpCache_drainSlot] at hcached
    obtain ⟨hwaits, hne⟩ := waits_drainSlot hwaits
    obtain ⟨mac', next, hdrain', hle⟩ := h j ip' hwaits hcached
    rw [hdrain] at hdrain'
    cases hdrain'
    have hlt : i < j := Nat.lt_of_le_of_ne hle fun heq => hne rfl (Fin.ext heq.symm)
    have hnext : (i : ℕ) + 1 < arpPendingQueueSize := by omega
    refine ⟨mac, ⟨i + 1, hnext⟩, ?_, hlt⟩
    rw [hthread, nextSlot, dif_pos hnext]

/-- No call of `sys_sendto` is in progress, no message is in flight, and none
is being handled. -/
def Quiet (s : State n) : Prop :=
  (∀ t, s.senders t = .idle) ∧ s.thread = .idle ∧ s.requests = [] ∧ s.inbox = []

instance (s : State n) : Decidable (Quiet s) :=
  haveI : Decidable (∀ t, s.senders t = .idle) := Nat.decidableForallFin _
  inferInstanceAs (Decidable (_ ∧ _ ∧ _ ∧ _))

/-- In a quiet state no packet waits for an address that is in the cache. -/
def Settled (s : State n) : Prop :=
  Quiet s → ∀ i ip, Waits s.net i ip → ¬ Cached s.net ip

/-- In every run in which packets are queued only while their next hop is not
in the cache, every state is settled. -/
theorem settled_of_notCached {device : Device} {s : State n}
    (h : (system n device).ReachableVia NotCached s) : Settled s := by
  have hinv : Inv s := by
    apply h.invariant
    · intro s hs i ip hwaits _
      obtain ⟨_, _, hqueue, _⟩ := hs
      have hempty : (s.net.arpPendingQueue.get i).occupied = false := by
        rw [hqueue]
        exact congrArg ArpPendingEntry.occupied (Vector.getElem_replicate i.isLt)
      rw [Waits, hempty] at hwaits
      exact absurd hwaits.1 Bool.false_ne_true
    · exact fun _ _ _ hinv hok hstep => hinv.step hok hstep
  intro hquiet i ip hwaits hcached
  obtain ⟨mac, next, hdrain, _⟩ := hinv i ip hwaits hcached
  rw [hquiet.2.1] at hdrain
  cases hdrain

/-! ## A reply between lookup and queuing -/

def booted : State 1 where
  net := listening
  senders := fun _ => .idle
  thread := .idle
  requests := []
  inbox := []

lemma initial_booted : Initial booted :=
  ⟨rfl, rfl, rfl, rfl, rfl, fun _ => rfl, rfl, rfl, rfl⟩

def packetFor (ip : Ip4) : List UInt8 :=
  ethBuildHeader receiver.mac receiver.mac 0x0800 ++ ip.toList

theorem settled_of_lost_request :
    ∃ s, (system 1 receiver).ReachableVia NotCached s ∧
      (Quiet s ∧ Waits s.net 0 #v[10, 0, 0, 1]) ∧ Settled s := by
  have hrun : (((system 1 receiver).guard NotCached).run booted
      [.sendto 0 (packetFor #v[10, 0, 0, 1]) 18 #v[10, 0, 0, 1], .lookup 0, .enqueue 0,
        .loseRequest #v[10, 0, 0, 1]]).any
      (fun s => Quiet s ∧ Waits s.net 0 #v[10, 0, 0, 1]) = true := by
    decide +kernel
  obtain ⟨s, hs, hend⟩ := System.Reachable.exists_of_run_any (.init initial_booted) _ _ hrun
  have hvia := System.reachableVia_of_guard hs
  exact ⟨s, hvia, of_decide_eq_true hend, settled_of_notCached hvia⟩

/-- The reply is handled after the lookup and before the packet is in the
queue; the address is in the cache then, and the packet waits. -/
theorem waits_for_cached_address : ∃ s, (system 1 receiver).Reachable s ∧ ¬ Settled s := by
  have hrun : ((system 1 receiver).run booted
      ([.sendto 0 (packetFor #v[10, 0, 0, 1]) 18 #v[10, 0, 0, 1], .lookup 0,
        .answer #v[10, 0, 0, 1] sender.mac,
        .receive ⟨arpReply, sender.mac, #v[10, 0, 0, 1], receiver.ip4⟩] ++
        List.replicate arpPendingQueueSize .drain ++ [.enqueue 0])).any
      (fun s => Quiet s ∧ Waits s.net 0 #v[10, 0, 0, 1] ∧ Cached s.net #v[10, 0, 0, 1]) = true := by
    decide +kernel
  obtain ⟨s, hs, hend⟩ := System.Reachable.exists_of_run_any (.init initial_booted) _ _ hrun
  obtain ⟨hquiet, hwaits, hcached⟩ := of_decide_eq_true hend
  exact ⟨s, hs, fun hsettled => hsettled hquiet 0 _ hwaits hcached⟩

theorem receive_alone_reply :
    ∃ m t, (system 1 receiver).run { booted with inbox := [m] }
      (.receive m :: List.replicate arpPendingQueueSize .drain) = some t ∧
        Cached t.net sender.ip4 :=
  ⟨⟨arpReply, sender.mac, sender.ip4, receiver.ip4⟩, _,
    receive_alone rfl (.head _) rfl, by decide +kernel⟩

end Cottage.ArpPending
