import Mathlib.Data.Finset.Card
import Cottage.Net.ArpPending

/-!
# The ARP cache

What `arp_lookup` finds after any sequence of packets was given to
`net_handle_arp`.  An entry that was never used cannot be told from one for the
address 0.0.0.0, and entries are filled in order.  As long as the replies come
from at most as many other addresses as there are entries, the cache is a list
of the senders in the order of their first replies, each with its latest
hardware address, followed by unused entries.
-/

namespace Cottage.Net

open ByteReader Reader

structure ArpPacket where
  device : Device
  packet : ℕ → UInt8
  len : UInt16

def ArpPacket.handle (p : ArpPacket) (s : NetState) : NetState :=
  (netHandleArp p.device p.len s).run p.packet

def handlePackets (packets : List ArpPacket) (s : NetState) : NetState :=
  packets.foldl (fun s p => p.handle s) s

def ArpPacket.opcode (p : ArpPacket) : UInt16 :=
  ntohs (le16 (p.packet 20) (p.packet 21))

def ArpPacket.senderIp (p : ArpPacket) : Ip4 :=
  Vector.ofFn fun i => p.packet (28 + i)

def ArpPacket.senderMac (p : ArpPacket) : Mac :=
  Vector.ofFn fun i => p.packet (22 + i)

def ArpPacket.IsReply (p : ArpPacket) : Prop :=
  42 ≤ p.len.toNat ∧ p.opcode = arpReply

instance : DecidablePred ArpPacket.IsReply :=
  fun _ => inferInstanceAs (Decidable (_ ∧ _))

def replies (packets : List ArpPacket) : List (Ip4 × Mac) :=
  (packets.filter (·.IsReply)).map fun p => (p.senderIp, p.senderMac)

def latest (rs : List (Ip4 × Mac)) (ip : Ip4) : Option Mac :=
  ((rs.filter (·.1 = ip)).getLast?).map Prod.snd

def noIp : Ip4 :=
  Vector.replicate 4 0

def unused : ArpEntry :=
  ⟨noIp, Vector.replicate 6 0⟩

def EmptyCache (s : NetState) : Prop :=
  s.arpCache = Vector.replicate _ unused ∧ s.lastArpCacheEntry = 0

variable {s s' : NetState} {rs : List (Ip4 × Mac)} {ip : Ip4} {mac : Mac}

lemma latest_concat_self (rs : List (Ip4 × Mac)) (ip : Ip4) (mac : Mac) :
    latest (rs ++ [(ip, mac)]) ip = some mac := by
  simp [latest, List.filter_append]

lemma latest_concat_of_ne {ip' : Ip4} (h : ip' ≠ ip) :
    latest (rs ++ [(ip, mac)]) ip' = latest rs ip' := by
  simp [latest, List.filter_append, h.symm]

lemma latest_eq_none_iff : latest rs ip = none ↔ ip ∉ rs.map Prod.fst := by
  rw [latest, Option.map_eq_none_iff, List.getLast?_eq_none_iff, List.filter_eq_nil_iff,
    List.mem_map, not_exists]
  apply forall_congr'
  simp

structure Caches (s : NetState) (rs : List (Ip4 × Mac)) (order : List ArpEntry) : Prop where
  length_le : order.length ≤ arpCacheSize
  entries : s.arpCache.toList = order ++ List.replicate (arpCacheSize - order.length) unused
  last : s.lastArpCacheEntry = order.length
  nodup : (order.map ArpEntry.ip).Nodup
  senders : ∀ ip, ip ∈ order.map ArpEntry.ip ↔ ip ∈ rs.map Prod.fst
  current : ∀ e ∈ order, latest rs e.ip = some e.mac

lemma caches_of_emptyCache (h : EmptyCache s) : Caches s [] [] := by
  refine ⟨Nat.zero_le _, ?_, h.2, List.nodup_nil, fun _ => Iff.rfl, fun e he => ?_⟩
  · rw [h.1, Vector.toList_replicate]
    rfl
  · cases he

variable {order : List ArpEntry}

section

variable (h : Caches s rs order)

include h

lemma Caches.length_eq : order.length = (rs.map Prod.fst).toFinset.card := by
  have hset : (order.map ArpEntry.ip).toFinset = (rs.map Prod.fst).toFinset := by
    ext ip
    rw [List.mem_toFinset, List.mem_toFinset, h.senders]
  rw [← hset, List.toFinset_card_of_nodup h.nodup, List.length_map]

lemma Caches.found_iff (hip : ip ≠ noIp) :
    (∃ e ∈ s.arpCache.toList, e.ip = ip) ↔ ip ∈ order.map ArpEntry.ip := by
  rw [h.entries]
  constructor
  · rintro ⟨e, he, rfl⟩
    rcases List.mem_append.mp he with he | he
    · exact List.mem_map_of_mem he
    · rw [List.eq_of_mem_replicate he] at hip
      exact absurd rfl hip
  · intro hmem
    obtain ⟨e, he, heq⟩ := List.mem_map.mp hmem
    exact ⟨e, List.mem_append_left _ he, heq⟩

lemma Caches.update (hip : ip ≠ noIp) (hmem : ip ∈ order.map ArpEntry.ip) :
    Caches (arpCacheStore ip mac s) (rs ++ [(ip, mac)])
      (order.map fun e => if e.ip = ip then ⟨e.ip, mac⟩ else e) := by
  have hips : (order.map fun e => if e.ip = ip then (⟨e.ip, mac⟩ : ArpEntry) else e).map
      ArpEntry.ip = order.map ArpEntry.ip := by
    rw [List.map_map]
    apply List.map_congr_left
    intro e _
    dsimp only [Function.comp]
    split_ifs <;> rfl
  rw [arpCacheStore, if_pos ((h.found_iff hip).mpr hmem)]
  refine ⟨?_, ?_, ?_, ?_, fun ip' => ?_, fun e he => ?_⟩
  · rw [List.length_map]
    exact h.length_le
  · have hunused : (if unused.ip = ip then (⟨unused.ip, mac⟩ : ArpEntry) else unused) = unused :=
      if_neg hip.symm
    rw [Vector.toList_map, h.entries, List.map_append, List.map_replicate, hunused, List.length_map]
  · rw [List.length_map]
    exact h.last
  · rw [hips]
    exact h.nodup
  · rw [hips, List.map_append, List.mem_append, h.senders]
    constructor
    · exact .inl
    · rintro (hold | hnew)
      · exact hold
      · rw [List.mem_singleton.mp hnew]
        exact (h.senders ip).mp hmem
  · obtain ⟨e', he', rfl⟩ := List.mem_map.mp he
    split_ifs with heq
    · rw [heq]
      exact latest_concat_self rs ip mac
    · rw [latest_concat_of_ne heq]
      exact h.current e' he'

lemma Caches.insert (hip : ip ≠ noIp) (hnew : ip ∉ order.map ArpEntry.ip)
    (hlt : order.length < arpCacheSize) :
    Caches (arpCacheStore ip mac s) (rs ++ [(ip, mac)]) (order ++ [⟨ip, mac⟩]) := by
  have hlast : s.lastArpCacheEntry < arpCacheSize := h.last ▸ hlt
  rw [arpCacheStore, if_neg fun hfound => hnew ((h.found_iff hip).mp hfound), dif_pos hlast]
  refine ⟨?_, ?_, ?_, ?_, fun ip' => ?_, fun e he => ?_⟩
  · rw [List.length_append]
    exact hlt
  · obtain ⟨free, hfree⟩ := Nat.exists_eq_add_of_lt hlt
    have hrest : arpCacheSize - order.length = free + 1 := by omega
    have hrest' : arpCacheSize - (order ++ [(⟨ip, mac⟩ : ArpEntry)]).length = free := by
      rw [List.length_append, List.length_singleton]
      omega
    rw [Vector.toList_set, h.entries, hrest, hrest', h.last, List.replicate_succ,
      List.set_append_right _ _ le_rfl, Nat.sub_self, List.set_cons_zero, List.append_assoc]
    rfl
  · rw [List.length_append, ← h.last]
    rfl
  · rw [List.map_append, List.map_singleton]
    simpa [List.concat_eq_append] using h.nodup.concat hnew
  · rw [List.map_append, List.map_append, List.mem_append, List.mem_append, h.senders]
    rfl
  · rcases List.mem_append.mp he with he | he
    · have hne : e.ip ≠ ip := fun heq => hnew (heq ▸ List.mem_map_of_mem he)
      rw [latest_concat_of_ne hne]
      exact h.current e he
    · rw [List.mem_singleton.mp he]
      exact latest_concat_self rs ip mac

lemma Caches.lookup (hip : ip ≠ noIp) : arpCacheLookup s ip = latest rs ip := by
  cases hfind : s.arpCache.toList.find? (·.ip = ip) with
  | none =>
    have hnone : ip ∉ order.map ArpEntry.ip := by
      rw [← h.found_iff hip]
      rintro ⟨e, he, heq⟩
      simpa [heq] using List.find?_eq_none.mp hfind e he
    rw [arpCacheLookup, hfind, Option.map_none]
    exact (latest_eq_none_iff.mpr fun hmem => hnone ((h.senders ip).mpr hmem)).symm
  | some e =>
    have heq : e.ip = ip := by
      simpa using List.find?_some hfind
    have hmem := List.mem_of_find?_eq_some hfind
    rw [h.entries] at hmem
    rw [arpCacheLookup, hfind, Option.map_some, ← heq]
    rcases List.mem_append.mp hmem with hmem | hmem
    · exact (h.current e hmem).symm
    · rw [← heq, List.eq_of_mem_replicate hmem] at hip
      exact absurd rfl hip

lemma Caches.congr (hcache : s'.arpCache = s.arpCache)
    (hlast : s'.lastArpCacheEntry = s.lastArpCacheEntry) : Caches s' rs order :=
  ⟨h.length_le, hcache ▸ h.entries, hlast ▸ h.last, h.nodup, h.senders, h.current⟩

end

/-! ## Packets -/

def SameCache (s s' : NetState) : Prop :=
  s'.arpCache = s.arpCache ∧ s'.lastArpCacheEntry = s.lastArpCacheEntry

lemma sameCache_arpPendingDrain (device : Device) (ip : Ip4) (mac : Mac) (s : NetState) :
    SameCache s (arpPendingDrain device ip mac s) := by
  unfold arpPendingDrain
  generalize List.finRange arpPendingQueueSize = slots
  induction slots generalizing s with
  | nil => exact ⟨rfl, rfl⟩
  | cons i slots ih =>
    have hslot : SameCache s (drainSlot device ip mac s i) := by
      rw [drainSlot]
      split_ifs <;> exact ⟨rfl, rfl⟩
    obtain ⟨hcache, hlast⟩ := ih (drainSlot device ip mac s i)
    exact ⟨hcache.trans hslot.1, hlast.trans hslot.2⟩

variable {p : ArpPacket}

lemma handle_of_long (hlen : 42 ≤ p.len.toNat) (s : NetState) :
    p.handle s = arpReceive p.device p.opcode p.senderMac p.senderIp
      (Vector.ofFn fun i => p.packet (38 + i)) s := by
  have hlong : ¬ p.len < 42 := fun hlt => hlen.not_gt (UInt16.lt_iff_toNat_lt.mp hlt)
  rw [ArpPacket.handle, netHandleArp, if_neg hlong]
  rfl

lemma sameCache_handle (h : ¬ p.IsReply) (s : NetState) : SameCache s (p.handle s) := by
  by_cases hlen : 42 ≤ p.len.toNat
  · have hopcode : p.opcode ≠ arpReply := fun heq => h ⟨hlen, heq⟩
    rw [handle_of_long hlen, arpReceive, if_neg hopcode]
    split_ifs <;> exact ⟨rfl, rfl⟩
  · have hshort : p.len < 42 := UInt16.lt_iff_toNat_lt.mpr (not_le.mp hlen)
    rw [ArpPacket.handle, netHandleArp, if_pos hshort]
    exact ⟨rfl, rfl⟩

lemma handle_of_isReply (h : p.IsReply) (s : NetState) :
    SameCache (arpCacheStore p.senderIp p.senderMac s) (p.handle s) := by
  have hrequest : ¬ p.opcode = arpRequest := by
    rw [h.2]
    decide
  rw [handle_of_long h.1, arpReceive, if_neg hrequest, if_pos h.2]
  exact sameCache_arpPendingDrain _ _ _ _

lemma replies_concat_of_isReply (h : p.IsReply) (packets : List ArpPacket) :
    replies (packets ++ [p]) = replies packets ++ [(p.senderIp, p.senderMac)] := by
  simp [replies, List.filter_append, h]

lemma replies_concat_of_not_isReply (h : ¬ p.IsReply) (packets : List ArpPacket) :
    replies (packets ++ [p]) = replies packets := by
  simp [replies, List.filter_append, h]

def senders (packets : List ArpPacket) : List Ip4 :=
  (replies packets).map Prod.fst

lemma exists_caches (hs : EmptyCache s) {packets : List ArpPacket}
    (hcount : (senders packets).toFinset.card ≤ arpCacheSize) (hzero : noIp ∉ senders packets) :
    ∃ order, Caches (handlePackets packets s) (replies packets) order := by
  induction packets using List.reverseRecOn with
  | nil => exact ⟨[], caches_of_emptyCache hs⟩
  | append_singleton packets p ih =>
    have hhandle : handlePackets (packets ++ [p]) s = p.handle (handlePackets packets s) := by
      rw [handlePackets, List.foldl_append]
      rfl
    rw [hhandle]
    by_cases hreply : p.IsReply
    · have hreplies := replies_concat_of_isReply hreply packets
      have hsenders : senders (packets ++ [p]) = senders packets ++ [p.senderIp] := by
        rw [senders, hreplies, List.map_append]
        rfl
      rw [hsenders] at hcount hzero
      have hsubset : (senders packets).toFinset ⊆ (senders packets ++ [p.senderIp]).toFinset := by
        rw [List.toFinset_append]
        exact Finset.subset_union_left
      obtain ⟨order, hcaches⟩ := ih ((Finset.card_le_card hsubset).trans hcount)
        fun hmem => hzero (List.mem_append_left _ hmem)
      have hip : p.senderIp ≠ noIp := by
        rintro heq
        exact hzero (List.mem_append_right _ (List.mem_singleton.mpr heq.symm))
      obtain ⟨hcache, hlast⟩ := handle_of_isReply hreply (handlePackets packets s)
      rw [hreplies]
      by_cases hmem : p.senderIp ∈ order.map ArpEntry.ip
      · exact ⟨_, (hcaches.update hip hmem).congr hcache hlast⟩
      · have hlt : order.length < arpCacheSize := by
          apply lt_of_lt_of_le _ hcount
          rw [hcaches.length_eq]
          apply Finset.card_lt_card
          refine Finset.ssubset_iff_of_subset hsubset |>.mpr ⟨p.senderIp, by simp, ?_⟩
          rwa [List.mem_toFinset, senders, ← hcaches.senders]
        exact ⟨_, (hcaches.insert hip hmem hlt).congr hcache hlast⟩
    · have hreplies := replies_concat_of_not_isReply hreply packets
      rw [senders, hreplies] at hcount hzero
      obtain ⟨order, hcaches⟩ := ih hcount hzero
      obtain ⟨hcache, hlast⟩ := sameCache_handle hreply (handlePackets packets s)
      rw [hreplies]
      exact ⟨order, hcaches.congr hcache hlast⟩

/-- A lookup finds the sender of a reply with the hardware address of the most
recent one, and no other packet changes the cache. -/
theorem arp_cache_law (hs : EmptyCache s) (packets : List ArpPacket)
    (hcount : (senders packets).toFinset.card ≤ 32) (hzero : noIp ∉ senders packets) :
    (∀ device ip, ip ≠ noIp →
      (arpLookup device ip (handlePackets packets s)).2 = latest (replies packets) ip) ∧
      ∀ p : ArpPacket, ¬ p.IsReply → ∀ s, SameCache s (p.handle s) := by
  refine ⟨fun device ip hip => ?_, fun p hp s => sameCache_handle hp s⟩
  obtain ⟨order, hcaches⟩ := exists_caches hs hcount hzero
  rw [← hcaches.lookup hip, arpLookup]
  cases arpCacheLookup (handlePackets packets s) ip <;> rfl

def gatewayReply : ArpPacket where
  device := receiver
  packet := fun i => ([0xFF, 0xFF, 0xFF, 0xFF, 0xFF, 0xFF, 0x52, 0x55, 0x0A, 0x00, 0x02, 0x02,
    0x08, 0x06, 0, 1, 8, 0, 6, 4, 0, 2, 0x52, 0x55, 0x0A, 0x00, 0x02, 0x02, 10, 0, 2, 2]).getD i 0
  len := 42

theorem arp_cache_law_gateway : EmptyCache listening ∧
    (senders [gatewayReply]).toFinset.card ≤ 32 ∧ noIp ∉ senders [gatewayReply] ∧
    (arpLookup gatewayReply.device #v[10, 0, 2, 2] (handlePackets [gatewayReply] listening)).2 =
      some #v[0x52, 0x55, 0x0A, 0x00, 0x02, 0x02] := by
  have hs : EmptyCache listening := ⟨rfl, rfl⟩
  have hcount : (senders [gatewayReply]).toFinset.card ≤ 32 := by decide +kernel
  have hzero : noIp ∉ senders [gatewayReply] := by decide +kernel
  refine ⟨hs, hcount, hzero, ?_⟩
  rw [(arp_cache_law hs [gatewayReply] hcount hzero).1 _ _ (by decide +kernel)]
  decide +kernel

end Cottage.Net
