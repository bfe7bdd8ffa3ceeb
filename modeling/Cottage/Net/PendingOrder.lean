import Cottage.Net.PendingConservation

/-!
# The order of the ARP pending queue

As a queue of 32 packets, the pending queue should evict only when it is full
and send the packets for an address in the order they came in.  In terms of the
slots: a call of `enqueue` evicts too early when the slot it comes to is taken
and another one is free, and a drain sends packets in the wrong order when one
of them lies before the slot filled next and another one at or behind it.
-/

namespace Cottage.PendingQueue

open Net Transition

variable {s s' : State}

def State.pendingCount (s : State) : ℕ :=
  (List.finRange arpPendingQueueSize).countP fun i => (s.queue i).occupied

/-- The queue evicts only when it is full, and a drain sends the packets in the
order in which they were enqueued. -/
structure Fifo (s : State) : Prop where
  evicts_full : s.evicted ≠ none → s.pendingCount = arpPendingQueueSize
  ordered : ∀ device ip mac s', arpPendingDrain device ip mac s = some s' →
    ∃ new, s'.sent = s.sent ++ new ∧ (new.map (·.packet)).Pairwise (· < ·)

def State.sends (s : State) (ip : Ip4) (i : Fin arpPendingQueueSize) : Option ℕ :=
  if (s.queue i).Matches ip then (s.queue i).packet else none

variable {ip : Ip4} {i : Fin arpPendingQueueSize}

lemma sends_eq_some_iff {k : ℕ} :
    s.sends ip i = some k ↔ s.HoldsAt i k ∧ (s.queue i).targetIp = ip := by
  rw [State.sends, State.HoldsAt]
  split_ifs with hmatch
  · rw [and_right_comm]
    exact (and_iff_right hmatch).symm
  · constructor
    · exact False.elim
    · exact fun h => absurd ⟨h.1.1, h.2⟩ hmatch

lemma drainSlot_sent {device : Device} {mac : Mac}
    (hdrain : drainSlot device ip mac s i = some s') :
    (∃ new, s'.sent = s.sent ++ new ∧ new.map (·.packet) = (s.sends ip i).toList) ∧
      ∀ j ≠ i, s'.sends ip j = s.sends ip j := by
  rw [drainSlot] at hdrain
  split_ifs at hdrain with hmatch
  · obtain ⟨p, hp, rfl⟩ := Option.map_eq_some_iff.mp hdrain
    refine ⟨⟨_, rfl, ?_⟩, ?_⟩
    · rw [State.sends, if_pos hmatch, hp]
      rfl
    · intro j hji
      simp only [State.sends, State.release, Function.update_of_ne hji]
  · cases hdrain
    refine ⟨⟨[], (List.append_nil _).symm, ?_⟩, fun _ _ => rfl⟩
    rw [State.sends, if_neg hmatch]
    rfl

lemma foldlM_drainSlot_sent {device : Device} {mac : Mac}
    {slots : List (Fin arpPendingQueueSize)} (hnodup : slots.Nodup)
    (hdrain : slots.foldlM (drainSlot device ip mac) s = some s') :
    ∃ new, s'.sent = s.sent ++ new ∧ new.map (·.packet) = slots.filterMap (s.sends ip) := by
  induction slots generalizing s with
  | nil =>
    cases hdrain
    exact ⟨[], (List.append_nil _).symm, rfl⟩
  | cons i slots ih =>
    obtain ⟨hi, hnodup⟩ := List.nodup_cons.mp hnodup
    obtain ⟨s₁, hslot, hrest⟩ := Option.bind_eq_some_iff.mp hdrain
    obtain ⟨⟨new, hsent, hnew⟩, hother⟩ := drainSlot_sent hslot
    obtain ⟨later, hsent', hlater⟩ := ih hnodup hrest
    refine ⟨new ++ later, ?_, ?_⟩
    · rw [hsent', hsent, List.append_assoc]
    · have hsame : slots.filterMap (s₁.sends ip) = slots.filterMap (s.sends ip) := by
        apply List.filterMap_congr
        intro j hj
        exact hother j fun hji => hi (hji ▸ hj)
      rw [List.map_append, hnew, hlater, hsame]
      cases hsends : s.sends ip i with
      | none => rw [List.filterMap_cons_none hsends, Option.toList_none, List.nil_append]
      | some k =>
        rw [List.filterMap_cons_some hsends, Option.toList_some, List.singleton_append]

/-- No address has packets on both sides of the slot filled next. -/
def State.OneSided (s : State) : Prop :=
  ∀ i j, i < s.tail → s.tail ≤ j → (s.queue i).occupied = true → (s.queue j).occupied = true →
    (s.queue i).targetIp ≠ (s.queue j).targetIp

lemma Inv.lt_iff (h : Inv s) {j : Fin arpPendingQueueSize} {k l : ℕ} (hij : i < j)
    (hk : s.HoldsAt i k) (hl : s.HoldsAt j l) : k < l ↔ ¬ (i < s.tail ∧ s.tail ≤ j) := by
  obtain ⟨_, _, hwindow, hslot, _⟩ := h.slot i k hk
  obtain ⟨_, _, hwindow', hslot', _⟩ := h.slot j l hl
  have hlt := h.lt_length hk
  have hlt' := h.lt_length hl
  have htail := h.tail_eq
  rw [Fin.le_def]
  dsimp only [arpPendingQueueSize] at hwindow hwindow' hslot hslot' htail
  omega

lemma pairwise_finRange {n : ℕ} {R : Fin n → Fin n → Prop} :
    (List.finRange n).Pairwise R ↔ ∀ i j, i < j → R i j := by
  rw [← List.ofFn_id, List.pairwise_ofFn]
  exact Iff.rfl

lemma Inv.ordered_iff (h : Inv s) :
    (∀ ip, ((List.finRange arpPendingQueueSize).filterMap (s.sends ip)).Pairwise (· < ·)) ↔
      s.OneSided := by
  simp only [List.pairwise_filterMap, pairwise_finRange]
  constructor
  · intro hpairwise i j hi hj hocc hocc' htarget
    obtain ⟨k, hk⟩ := (h.packet i).mp hocc
    obtain ⟨l, hl⟩ := (h.packet j).mp hocc'
    have hij : i < j := Nat.lt_of_lt_of_le hi hj
    have hlt := hpairwise (s.queue j).targetIp i j hij k
      (sends_eq_some_iff.mpr ⟨⟨hocc, hk⟩, htarget⟩) l (sends_eq_some_iff.mpr ⟨⟨hocc', hl⟩, rfl⟩)
    exact (h.lt_iff hij ⟨hocc, hk⟩ ⟨hocc', hl⟩).mp hlt ⟨hi, hj⟩
  · intro hsided ip i j hij k hk l hl
    obtain ⟨hheld, htarget⟩ := sends_eq_some_iff.mp hk
    obtain ⟨hheld', htarget'⟩ := sends_eq_some_iff.mp hl
    rw [h.lt_iff hij hheld hheld']
    rintro ⟨hi, hj⟩
    exact hsided i j hi hj hheld.1 hheld'.1 (htarget.trans htarget'.symm)

lemma pendingCount_eq_iff :
    s.pendingCount = arpPendingQueueSize ↔ ∀ i, (s.queue i).occupied = true := by
  have hlength : (List.finRange arpPendingQueueSize).length = arpPendingQueueSize :=
    List.length_finRange
  have hcount := @List.countP_eq_length _ (List.finRange arpPendingQueueSize)
    fun i => (s.queue i).occupied
  rw [hlength] at hcount
  rw [State.pendingCount, hcount]
  simp only [List.mem_finRange, true_implies]

/-- The queue is first in, first out exactly as long as the slot filled next is
taken only if all are, and no address has packets on both sides of it. -/
theorem fifo_iff (hs : system.Reachable s) :
    Fifo s ↔ ((s.queue s.tail).occupied = true → ∀ i, (s.queue i).occupied = true) ∧
      s.OneSided := by
  have h := inv_of_reachable hs
  have hevicted : s.evicted ≠ none ↔ (s.queue s.tail).occupied = true := by
    rw [State.evicted]
    split_ifs with hocc
    · obtain ⟨k, hk⟩ := (h.packet s.tail).mp hocc
      simp [hk, hocc]
    · simp [hocc]
  rw [← h.ordered_iff, ← pendingCount_eq_iff, ← hevicted]
  constructor
  · intro hfifo
    refine ⟨hfifo.evicts_full, fun ip => ?_⟩
    obtain ⟨s', hdrain, _⟩ := h.arpPendingDrain sender ip sender.mac
    obtain ⟨new, hsent, hordered⟩ := hfifo.ordered _ _ _ _ hdrain
    obtain ⟨new', hsent', hnew⟩ := foldlM_drainSlot_sent (List.nodup_finRange _) hdrain
    obtain rfl := List.append_cancel_left (hsent.symm.trans hsent')
    exact hnew ▸ hordered
  · rintro ⟨hfull, hordered⟩
    refine ⟨hfull, fun device ip mac s' hdrain => ?_⟩
    obtain ⟨new, hsent, hnew⟩ := foldlM_drainSlot_sent (List.nodup_finRange _) hdrain
    exact ⟨new, hsent, hnew ▸ hordered ip⟩

theorem fifo_iff_two_packets : ∃ s, system.Reachable s ∧ s.log.length = 2 ∧ Fifo s := by
  obtain ⟨s, hs, hstate⟩ := System.Reachable.exists_of_run_any (S := system)
    (.init initState_initial) [.enqueue (smallPacket addressA), .enqueue (smallPacket addressA)]
    (fun s => decide (s.log.length = 2 ∧ (s.queue s.tail).occupied = false ∧
      ∀ j, s.tail ≤ j → (s.queue j).occupied = false)) (by decide +kernel)
  obtain ⟨hlog, htail, hfree⟩ := of_decide_eq_true hstate
  refine ⟨s, hs, hlog, (fifo_iff hs).mpr ⟨?_, ?_⟩⟩
  · intro hocc
    cases htail.symm.trans hocc
  · intro i j _ hj _ hocc
    cases (hfree j hj).symm.trans hocc

/-- After a drain the next call evicts the only packet that is pending; and of 33
packets for one address the newest one is sent first. -/
theorem evicts_only_pending_packet :
    (∃ s, system.Reachable s ∧ s.evicted = some 0 ∧ s.pendingCount = 1) ∧
      ∃ s, system.Reachable s ∧ (s.sent.map fun t => (t.packet, t.resolvedIp)).take 2 =
        [(32, addressA), (1, addressA)] := by
  constructor
  · obtain ⟨s, hs, hstate⟩ := System.Reachable.exists_of_run_any (S := system)
      (.init initState_initial)
      (.enqueue (smallPacket addressA) ::
        (List.replicate 31 (.enqueue (smallPacket addressB)) ++
          [.drain sender addressB receiver.mac]))
      (fun s => decide (s.evicted = some 0 ∧ s.pendingCount = 1)) (by decide +kernel)
    exact ⟨s, hs, of_decide_eq_true hstate⟩
  · obtain ⟨s, hs, hstate⟩ := System.Reachable.exists_of_run_any (S := system)
      (.init initState_initial)
      (List.replicate 33 (.enqueue (smallPacket addressA)) ++ [.drain sender addressA receiver.mac])
      (fun s => decide ((s.sent.map fun t => (t.packet, t.resolvedIp)).take 2 =
        [(32, addressA), (1, addressA)])) (by decide +kernel)
    exact ⟨s, hs, of_decide_eq_true hstate⟩

end Cottage.PendingQueue
