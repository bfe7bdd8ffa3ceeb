import Cottage.Net.ArpCache
import Cottage.Net.Route

/-!
# Hosts on one network

Several hosts run the stack on one Ethernet.  A step is a call of `sys_sendto`
on one of them, or the network thread of one of them handling a frame that some
host has sent: any frame, at any time and any number of times, so frames may be
lost, repeated and overtaken.  Behind the frame the receive buffer holds stale
bytes.  Whatever happens, the caches only hold addresses of the hosts.
-/

namespace Cottage.Lan

open Net Transition ByteReader Reader ArpPending Function

/-! ## Runs -/

variable {ι : Type} [DecidableEq ι]

inductive Event (ι : Type)
  | sendto (i : ι) (fds : ℕ → Option FileDescriptor) (fd : ℕ) (payload : List UInt8)
      (dest : NetAddr) (random : UInt32) (unset : Mac)
  | receive (i j : ι) (k : ℕ) (stale : ℕ → UInt8)

def buffer (frame : List UInt8) (stale : ℕ → UInt8) (n : ℕ) : UInt8 :=
  frame[n]?.getD (stale n)

/-- What the network thread of a host makes of a frame. -/
def receive (device : Device) (frame : List UInt8) (stale : ℕ → UInt8) (s : NetState) : NetState :=
  (handler (buffer frame stale) device (UInt16.ofNat frame.length) s).run (buffer frame stale)

def step (hosts : ι → Device) (s : ι → NetState) : Event ι → Option (ι → NetState)
  | .sendto i fds fd payload dest random unset =>
    some (update s i (sysSendto fds fd payload dest random unset (s i)).1)
  | .receive i j k stale =>
    (s j).sent[k]?.map fun t => update s i (receive (hosts i) t.frame stale (s i))

structure Booted (device : Device) (s : NetState) : Prop where
  cache : EmptyCache s
  queue : ∀ k, (s.arpPendingQueue.get k).occupied = false
  sent : s.sent = []
  routes : ∀ k, (s.routeTable.get k).Up → (s.routeTable.get k).device = device

def lan (hosts : ι → Device) : System (ι → NetState) (Event ι) where
  init s := ∀ i, Booted (hosts i) (s i)
  step := step hosts

/-! ## Frames -/

/-- A frame sent by a host; lengths are 16 bits wide, so that part of a datagram
may be missing. -/
inductive FrameFrom (device : Device) : List UInt8 → Prop
  | short {frame : List UInt8} : frame.length < 42 → FrameFrom device frame
  | ipv4 (dest : Mac) (rest : List UInt8) :
      FrameFrom device (ethBuildHeader dest device.mac 0x0800 ++ rest)
  | arp (dest : Mac) (opcode : UInt8) (targetMac : Mac) (targetIp : Ip4) :
      FrameFrom device (arpFrame dest device.mac opcode device.ip4 targetMac targetIp)

lemma frameFrom_take (device : Device) (dest : Mac) (rest : List UInt8) (n : ℕ) :
    FrameFrom device ((ethBuildHeader dest device.mac 0x0800 ++ rest).take n) := by
  rcases Nat.lt_or_ge n 42 with hn | hn
  · exact .short ((List.length_take_le n _).trans_lt hn)
  · obtain ⟨m, rfl⟩ := Nat.exists_eq_add_of_le (show 14 ≤ n by omega)
    rw [show 14 + m = (ethBuildHeader dest device.mac 0x0800).length + m from rfl,
      List.take_length_add_append]
    exact .ipv4 dest _

lemma holds_buffer (front frame : List UInt8) (stale : ℕ → UInt8) :
    Holds (buffer (front ++ frame) stale) front.length frame := by
  induction frame generalizing front with
  | nil => trivial
  | cons b frame ih =>
    refine ⟨by simp [buffer], ?_⟩
    have htail := ih (front ++ [b])
    rwa [List.append_assoc, List.length_append] at htail

lemma toList_mac (mac : Mac) :
    mac.toList = [mac.get 0, mac.get 1, mac.get 2, mac.get 3, mac.get 4, mac.get 5] := by
  apply List.ext_getElem (by simp)
  intro i hi _
  rw [Vector.length_toList] at hi
  interval_cases i <;> simp [Vector.get]

lemma receive_arpFrame (device : Device) (dest mac : Mac) (opcode : UInt8) (ip : Ip4)
    (targetMac : Mac) (targetIp : Ip4) (stale : ℕ → UInt8) (s : NetState) :
    receive device (arpFrame dest mac opcode ip targetMac targetIp) stale s =
      arpReceive device (ntohs (le16 0 opcode)) mac ip targetIp s := by
  have hlen : (arpFrame dest mac opcode ip targetMac targetIp).length = 42 := by
    simp [arpFrame]
  have hholds := holds_buffer [] (arpFrame dest mac opcode ip targetMac targetIp) stale
  rw [List.nil_append] at hholds
  unfold receive
  generalize buffer _ stale = packet at hholds ⊢
  simp only [arpFrame, holds_append, List.length_append, Vector.length_toList,
    List.length_cons, List.length_nil] at hholds
  obtain ⟨⟨⟨⟨⟨⟨_, _⟩, htypes⟩, hmac⟩, hip⟩, _⟩, htarget⟩ := hholds
  obtain ⟨h12, h13, _, _, _, _, _, _, h20, h21, _⟩ := htypes
  have harp : ethertype packet = 0x0806 := by
    rw [ethertype, h12, h13]
    decide
  have hlong : 42 ≤ (ArpPacket.mk device packet 42).len.toNat := Nat.le_refl 42
  rw [handler, if_pos harp, hlen]
  refine (handle_of_long hlong s).trans ?_
  simp only [ArpPacket.opcode, ArpPacket.senderMac, ArpPacket.senderIp, h20, h21]
  rw [Vector.toList_inj.mp (hmac.ofFn Vector.length_toList),
    Vector.toList_inj.mp (hip.ofFn Vector.length_toList),
    Vector.toList_inj.mp (htarget.ofFn Vector.length_toList)]

/-! ## What every host keeps -/

/-- `device` is the device of the host. -/
structure Inv (hosts : ι → Device) (device : Device) (s : NetState) : Prop where
  cache : ∀ e ∈ s.arpCache.toList, e = unused ∨ ∃ h, hosts h = ⟨e.mac, e.ip⟩
  queue : ∀ k, (s.arpPendingQueue.get k).occupied = true → ∃ dest rest,
    (s.arpPendingQueue.get k).packet = ethBuildHeader dest device.mac 0x0800 ++ rest
  sent : ∀ t ∈ s.sent, FrameFrom device t.frame
  routes : ∀ k, (s.routeTable.get k).Up → (s.routeTable.get k).device = device

variable {hosts : ι → Device} {device : Device} {s : NetState} {ip : Ip4} {mac : Mac}

omit [DecidableEq ι]

lemma Booted.inv (h : Booted device s) : Inv hosts device s where
  cache e he := by
    rw [h.cache.1, Vector.toList_replicate] at he
    exact .inl (List.eq_of_mem_replicate he)
  queue k hk := by
    rw [h.queue k] at hk
    cases hk
  sent t ht := by
    rw [h.sent] at ht
    cases ht
  routes := h.routes

section

variable (h : Inv hosts device s)

include h

lemma Inv.transmit {frame : List UInt8} (hframe : FrameFrom device frame) (d : Device) :
    Inv hosts device (s.transmit d frame) := by
  refine ⟨h.cache, h.queue, fun t ht => ?_, h.routes⟩
  rcases List.mem_append.mp ht with ht | ht
  · exact h.sent t ht
  · rwa [List.mem_singleton.mp ht]

lemma Inv.arpCacheStore (hmac : ∃ i, hosts i = ⟨mac, ip⟩) :
    Inv hosts device (arpCacheStore ip mac s) := by
  unfold Net.arpCacheStore
  split_ifs with hfound hlast
  · refine ⟨fun e he => ?_, h.queue, h.sent, h.routes⟩
    simp only [Vector.toList_map, List.mem_map] at he
    obtain ⟨e', he', rfl⟩ := he
    split_ifs with hip
    · subst hip
      exact .inr hmac
    · exact h.cache e' he'
  · refine ⟨fun e he => ?_, h.queue, h.sent, h.routes⟩
    rcases List.mem_or_eq_of_mem_set he with he | rfl
    · exact h.cache e he
    · exact .inr hmac
  · exact h

lemma Inv.drainSlot (d : Device) (ip : Ip4) (mac : Mac) (k : Fin arpPendingQueueSize) :
    Inv hosts device (drainSlot d ip mac s k) := by
  unfold Net.drainSlot
  simp only
  split_ifs with hslot
  · obtain ⟨dest, rest, hpacket⟩ := h.queue k hslot.1
    refine ⟨h.cache, fun j hj => ?_, fun t ht => ?_, h.routes⟩
    · by_cases hjk : k = j
      · subst hjk
        simp [queue_set_self] at hj
      · simp only [queue_set_of_ne hjk] at hj ⊢
        exact h.queue j hj
    · rcases List.mem_append.mp ht with ht | ht
      · exact h.sent t ht
      · rw [List.mem_singleton.mp ht, toList_mac]
        change FrameFrom device (List.take _ (_ ++ List.drop 6 (s.arpPendingQueue.get k).packet))
        rw [hpacket]
        exact frameFrom_take device mac rest _
  · exact h

lemma Inv.arpPendingDrain (d : Device) (ip : Ip4) (mac : Mac) :
    Inv hosts device (arpPendingDrain d ip mac s) := by
  unfold Net.arpPendingDrain
  generalize List.finRange arpPendingQueueSize = slots
  induction slots generalizing s with
  | nil => exact h
  | cons k slots ih => exact ih (h.drainSlot d ip mac k)

lemma Inv.arpPendingEnqueue (dest : Mac) (rest : List UInt8) (len : UInt16) (ip : Ip4) :
    Inv hosts device
      (arpPendingEnqueue (ethBuildHeader dest device.mac 0x0800 ++ rest) len ip s) := by
  refine ⟨h.cache, fun k hk => ?_, h.sent, h.routes⟩
  simp only [Net.arpPendingEnqueue] at hk ⊢
  by_cases hkt : s.arpPendingTail = k
  · subst hkt
    simp only [queue_set_self]
    exact ⟨dest, rest, rfl⟩
  · simp only [queue_set_of_ne hkt] at hk ⊢
    exact h.queue k hk

lemma Inv.arpReceive (hmac : ∃ i, hosts i = ⟨mac, ip⟩) (opcode : UInt16) (targetIp : Ip4) :
    Inv hosts device (arpReceive device opcode mac ip targetIp s) := by
  unfold Net.arpReceive
  split_ifs
  · exact h.transmit (.arp mac 2 mac ip) device
  · exact h
  · exact (h.arpCacheStore hmac).arpPendingDrain device ip mac
  · exact h

lemma Inv.netHandleIcmp (packet : ℕ → UInt8) (ip payload : ℕ) (payloadLen : UInt16) :
    Inv hosts device ((netHandleIcmp device ip payload payloadLen s).run packet) := by
  unfold Net.netHandleIcmp
  split_ifs
  · exact h
  · simp only [run_bind, run_read]
    split_ifs
    · simp only [run_bind, run_bytes, run_pure, echoReply, List.append_assoc]
      exact h.transmit (frameFrom_take device _ _ _) device
    · exact h

lemma Inv.netHandleUdp (packet : ℕ → UInt8) (ip payload : ℕ) (payloadLen : UInt16) :
    Inv hosts device ((netHandleUdp ip payload payloadLen s).run packet) := by
  unfold Net.netHandleUdp
  split_ifs
  · exact h
  · simp only [run_bind, run_read16]
    split
    · exact h
    · split_ifs
      · exact h
      · simp only [run_bind, run_bytes, run_read16, run_pure]
        exact ⟨h.cache, h.queue, h.sent, h.routes⟩

lemma Inv.netHandleIpv4 (packet : ℕ → UInt8) (len : UInt16) :
    Inv hosts device ((netHandleIpv4 device len s).run packet) := by
  unfold Net.netHandleIpv4
  split_ifs
  · exact h
  · simp only [run_bind, run_read]
    split_ifs
    · exact h
    · simp only [run_bind, run_bytes]
      split_ifs
      · exact h
      · simp only [run_bind, run_read16, run_read]
        split_ifs
        · exact h.netHandleIcmp packet _ _ _
        · exact h.netHandleUdp packet _ _ _
        · exact h

lemma Inv.receive {frame : List UInt8} {i : ι} (hframe : FrameFrom (hosts i) frame)
    (stale : ℕ → UInt8) : Inv hosts device (receive device frame stale s) := by
  cases hframe with
  | arp dest opcode targetMac targetIp =>
    rw [receive_arpFrame]
    exact h.arpReceive ⟨i, rfl⟩ _ _
  | short hlen =>
    have hshort : UInt16.ofNat frame.length < 42 := by
      rw [UInt16.lt_iff_toNat_lt, UInt16.toNat_ofNat', Nat.mod_eq_of_lt (by omega)]
      exact hlen
    unfold Lan.receive handler
    rw [netHandleArp, if_pos hshort]
    split_ifs
    · exact h
    · exact h.netHandleIpv4 _ _
    · exact h
  | ipv4 dest rest =>
    have hne : ((0x08 : UInt8).toUInt16 <<< 8) ||| (0x00 : UInt8).toUInt16 ≠ 0x0806 := by decide
    unfold Lan.receive handler
    split_ifs with harp
    · exact absurd harp hne
    · exact h.netHandleIpv4 _ _
    · exact h

lemma Inv.sourcePort {socket : ℕ} {random : UInt32} {s' : NetState} {port : UInt16}
    (hport : sourcePort socket random s = some (s', port)) : Inv hosts device s' := by
  rw [Net.sourcePort] at hport
  split_ifs at hport
  · obtain ⟨_, _, heq⟩ := Option.map_eq_some_iff.mp hport
    cases heq
    exact ⟨h.cache, h.queue, h.sent, h.routes⟩
  · cases hport
    exact h

lemma Inv.device_of_routeLookup {destIp : UInt32} {route : RouteResult}
    (hroute : routeLookup s destIp = some route) : route.device = device := by
  rw [routeLookup_eq] at hroute
  obtain ⟨i, hi, rfl⟩ := Option.map_eq_some_iff.mp hroute
  exact h.routes i (of_bestMatch_eq_some hi).1.1

lemma Inv.sysSendto (fds : ℕ → Option FileDescriptor) (fd : ℕ) (payload : List UInt8)
    (dest : NetAddr) (random : UInt32) (unset : Mac) :
    Inv hosts device (sysSendto fds fd payload dest random unset s).1 := by
  by_cases hrouted : ∃ sockfd route, Routed fds fd dest s sockfd route
  · obtain ⟨sockfd, route, hrouted⟩ := hrouted
    have hdevice : route.device = device := h.device_of_routeLookup hrouted.route_eq
    have hrequest : Inv hosts device (arpSendRequest route.device (nextHop route) s) :=
      h.transmit (hdevice ▸ .arp _ 1 _ _) route.device
    by_cases hport : HasPort sockfd.resource s
    · cases hmac : arpCacheLookup s (nextHop route) with
      | some mac =>
        obtain ⟨s', port, hs'⟩ := exists_sourcePort random hport
        rw [sysSendto_of_cached hrouted hmac hs']
        exact (h.sourcePort hs').transmit (hdevice ▸ frameFrom_take route.device mac _ _) _
      | none =>
        obtain ⟨s', port, hs'⟩ := exists_sourcePort
          (s := arpSendRequest route.device (nextHop route) s) random hport
        rw [sysSendto_of_not_cached hrouted hmac hs', packetTo, udpPacket, hdevice]
        exact (hrequest.sourcePort hs').arpPendingEnqueue unset _ _ _
    · rw [sysSendto_of_not_hasPort hrouted hport, arpLookup]
      cases arpCacheLookup s (nextHop route) with
      | some mac => exact h
      | none => exact hrequest
  · obtain ⟨error, _, hresult⟩ : ∃ error < 0,
        Net.sysSendto fds fd payload dest random unset s = (s, error) :=
      sysSendto_of_not_routed fun sockfd route hr => hrouted ⟨sockfd, route, hr⟩
    rw [hresult]
    exact h

end

/-! ## The network -/

lemma inv_of_reachable [DecidableEq ι] {s : ι → NetState} (h : (lan hosts).Reachable s) (i : ι) :
    Inv hosts (hosts i) (s i) := by
  refine h.invariant (I := fun s => ∀ i, Inv hosts (hosts i) (s i)) (fun s hs i => (hs i).inv) ?_ i
  intro s e t hI hstep i
  cases e with
  | sendto j fds fd payload dest random unset =>
    cases hstep
    by_cases hij : i = j
    · subst hij
      simpa only [update_self] using (hI i).sysSendto fds fd payload dest random unset
    · simpa only [update_of_ne hij] using hI i
  | receive j from' k stale =>
    obtain ⟨t, ht, rfl⟩ := Option.map_eq_some_iff.mp hstep
    by_cases hij : i = j
    · subst hij
      simpa only [update_self] using
        (hI i).receive ((hI from').sent t (List.mem_of_getElem? ht)) stale
    · simpa only [update_of_ne hij] using hI i

/-- An address that a host finds in its cache is that of the host which has it,
and what a host sends carries its own addresses. -/
theorem caches_truthful [DecidableEq ι] {s : ι → NetState} (h : (lan hosts).Reachable s) (i : ι) :
    (∀ ip mac, ip ≠ noIp → arpCacheLookup (s i) ip = some mac → ∃ j, hosts j = ⟨mac, ip⟩) ∧
      ∀ t ∈ (s i).sent, FrameFrom (hosts i) t.frame := by
  have hI := inv_of_reachable h i
  refine ⟨fun ip mac hip hlookup => ?_, hI.sent⟩
  obtain ⟨e, hfound, rfl⟩ := Option.map_eq_some_iff.mp hlookup
  have hip' : e.ip = ip := by simpa using List.find?_some hfound
  rcases hI.cache e (List.mem_of_find?_eq_some hfound) with rfl | hj
  · exact absurd hip'.symm hip
  · rwa [hip'] at hj

def pair (i : Bool) : Device :=
  if i then sender else receiver

def started (i : Bool) : NetState :=
  { listening with routeTable := (routeAdd 0 0 0 (pair i) 0 routeInit).1 }

lemma booted_started (i : Bool) : Booted (pair i) (started i) := by
  refine ⟨⟨rfl, rfl⟩, ?_, rfl, ?_⟩
  · exact (by decide : ∀ k, (listening.arpPendingQueue.get k).occupied = false)
  · revert i
    decide +kernel

theorem caches_truthful_pair :
    ∃ s, (lan pair).Reachable s ∧ arpCacheLookup (s true) receiver.ip4 = some receiver.mac ∧
      ∃ j, pair j = ⟨receiver.mac, receiver.ip4⟩ := by
  have hstart : (lan pair).Reachable started := .init booted_started
  obtain ⟨s, hs, hlookup⟩ := hstart.exists_of_run_any
    [.sendto true (fun _ => some ⟨statIfsock, 0⟩) 3 [1] ⟨afIpv4, 0, le32 receiver.ip4⟩ 0 sender.mac,
      .receive false true 0 fun _ => 0, .receive true false 0 fun _ => 0]
    (fun s => arpCacheLookup (s true) receiver.ip4 = some receiver.mac) (by decide +kernel)
  have hlookup := of_decide_eq_true hlookup
  exact ⟨s, hs, hlookup, (caches_truthful hs true).1 _ _ (by decide) hlookup⟩

/-! ## An answered request -/

lemma lookup_arpCacheStore (hroom : Cached s ip ∨ s.lastArpCacheEntry < arpCacheSize) :
    arpCacheLookup (arpCacheStore ip mac s) ip = some mac := by
  have hentries : (∃ e ∈ (arpCacheStore ip mac s).arpCache.toList, e.ip = ip) ∧
      ∀ e ∈ (arpCacheStore ip mac s).arpCache.toList, e.ip = ip → e.mac = mac := by
    unfold Net.arpCacheStore
    split_ifs with hfound hlast
    · simp only [Vector.toList_map, List.mem_map]
      obtain ⟨e, he, rfl⟩ := hfound
      refine ⟨⟨_, ⟨e, he, rfl⟩, by rw [if_pos rfl]⟩, ?_⟩
      rintro _ ⟨e', _, rfl⟩ hip
      split_ifs at hip ⊢ with h
      · rfl
      · exact absurd hip h
    · simp only [Vector.toList_set]
      refine ⟨⟨⟨ip, mac⟩, List.mem_set (by simpa using hlast) _, rfl⟩, fun e he hip => ?_⟩
      rcases List.mem_or_eq_of_mem_set he with he | rfl
      · exact absurd ⟨e, he, hip⟩ hfound
      · rfl
    · exact absurd (hroom.resolve_left hfound) hlast
  obtain ⟨⟨e, he, hip⟩, hmac⟩ := hentries
  have hfound : ((arpCacheStore ip mac s).arpCache.toList.find? (·.ip = ip)).isSome :=
    List.find?_isSome.mpr ⟨e, he, decide_eq_true hip⟩
  obtain ⟨e', he'⟩ := Option.isSome_iff_exists.mp hfound
  rw [arpCacheLookup, he', Option.map_some,
    hmac e' (List.mem_of_find?_eq_some he') (by simpa using List.find?_some he')]

lemma not_waits_arpPendingDrain (d : Device) (k : Fin arpPendingQueueSize) :
    ¬ Waits (arpPendingDrain d ip mac s) k ip := by
  have hslots : ∀ (slots : List (Fin arpPendingQueueSize)) (s : NetState),
      Waits (slots.foldl (drainSlot d ip mac) s) k ip → Waits s k ip ∧ k ∉ slots := by
    intro slots
    induction slots with
    | nil => exact fun s h => ⟨h, List.not_mem_nil⟩
    | cons l slots ih =>
      intro s h
      obtain ⟨hwaits, hnot⟩ := ih _ h
      obtain ⟨hwaits, hne⟩ := waits_drainSlot hwaits
      exact ⟨hwaits, List.not_mem_cons_of_ne_of_not_mem (hne rfl) hnot⟩
  exact fun h => (hslots _ s h).2 (List.mem_finRange k)

/-- A request that reaches the host it asks for, and the answer to it, from any
state with room in the cache. -/
theorem answered_request_resolves [DecidableEq ι] {s : ι → NetState} {i j : ι} {k : ℕ} (hij : i ≠ j)
    (hsent : (s i).sent[k]? = some ⟨hosts i, arpFrame (Vector.replicate 6 0xFF) (hosts i).mac 1
      (hosts i).ip4 (Vector.replicate 6 0) (hosts j).ip4⟩)
    (hroom : Cached (s i) (hosts j).ip4 ∨ (s i).lastArpCacheEntry < arpCacheSize)
    (stale stale' : ℕ → UInt8) :
    ∃ t, (lan hosts).run s [.receive j i k stale, .receive i j (s j).sent.length stale'] = some t ∧
      arpCacheLookup (t i) (hosts j).ip4 = some (hosts j).mac ∧
      ∀ slot, ¬ Waits (t i) slot (hosts j).ip4 := by
  have hrequest : ntohs (le16 0 1) = arpRequest := by decide
  have hreply : ntohs (le16 0 2) = arpReply := by decide
  have hother : arpReply ≠ arpRequest := by decide
  have hanswer : (lan hosts).step s (.receive j i k stale) = some (update s j
      ((s j).transmit (hosts j) (arpFrame (hosts i).mac (hosts j).mac 2 (hosts j).ip4
        (hosts i).mac (hosts i).ip4))) := by
    simp only [lan, step, hsent, Option.map_some, receive_arpFrame, hrequest, arpReceive, if_true]
  refine ⟨update (update s j ((s j).transmit (hosts j) (arpFrame (hosts i).mac
    (hosts j).mac 2 (hosts j).ip4 (hosts i).mac (hosts i).ip4))) i (arpPendingDrain (hosts i)
      (hosts j).ip4 (hosts j).mac (arpCacheStore (hosts j).ip4 (hosts j).mac (s i))), ?_, ?_, ?_⟩
  · rw [System.run_cons_of_step _ hanswer, System.run_cons]
    simp only [lan, step, update_self, update_of_ne hij, NetState.transmit,
      List.getElem?_concat_length, Option.map_some, receive_arpFrame, hreply, arpReceive, hother,
      if_false, if_true]
    rfl
  · rw [update_self, arpCacheLookup, (sameCache_arpPendingDrain _ _ _ _).1]
    exact lookup_arpCacheStore hroom
  · intro slot
    rw [update_self]
    exact not_waits_arpPendingDrain (hosts i) slot

theorem answered_request_resolves_pair :
    ∃ s t, (s true).sent.length = 1 ∧ Waits (s true) 0 receiver.ip4 ∧
      (lan pair).run s [.receive false true 0 fun _ => 0, .receive true false 0 fun _ => 0] =
        some t ∧ ∀ slot, ¬ Waits (t true) slot receiver.ip4 := by
  obtain ⟨t, hrun, _, hwaits⟩ := @answered_request_resolves _ pair _ (fun i =>
    if i then (sysSendto (fun _ => some ⟨statIfsock, 0⟩) 3 [1] ⟨afIpv4, 0, le32 receiver.ip4⟩ 0
      sender.mac (started true)).1 else started false) true false 0 (by decide) (by decide +kernel)
      (.inr (by decide +kernel)) (fun _ => 0) fun _ => 0
  exact ⟨_, t, by decide +kernel, by decide +kernel, hrun, hwaits⟩

end Cottage.Lan
