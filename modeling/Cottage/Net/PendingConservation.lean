import Cottage.Net.PendingQueue

/-!
# Conservation of the pending packets

The invariant of the pending queue: an occupied slot holds the buffer of one of
the last 32 calls, in the slot of that call, and every buffer handed over is
either in its slot or has been freed once.  At the end the queue of buffers is
related to the queue of packets that the network stack works with.
-/

namespace Cottage.PendingQueue

open Net Transition Function

/-- The slot holds the buffer of a call among the last 32, in the slot of that
call, and as the call handed it over. -/
def State.SlotOk (s : State) (i : Fin arpPendingQueueSize) (k : ℕ) : Prop :=
  ∃ call, s.log[k]? = some call ∧ s.log.length ≤ k + arpPendingQueueSize ∧
    k % arpPendingQueueSize = i ∧ (s.queue i).len = call.len ∧
    (s.queue i).targetIp = call.targetIp ∧ s.memory k = call.contents

def State.SentOk (s : State) (t : Sent) : Prop :=
  ∃ call, s.log[t.packet]? = some call ∧ call.targetIp = t.resolvedIp ∧ t.len = call.len ∧
    t.frame = (t.resolvedMac.toList ++ call.contents.drop 6).take call.len.toNat

structure Inv (s : State) : Prop where
  tail_eq : (s.tail : ℕ) = s.log.length % arpPendingQueueSize
  packet : ∀ i, (s.queue i).occupied = true ↔ ∃ k, (s.queue i).packet = some k
  slot : ∀ i k, s.HoldsAt i k → s.SlotOk i k
  fate : ∀ k < s.log.length, ∃ f, s.HasFate k f
  later : ∀ k, s.log.length ≤ k → s.timesSent k = 0 ∧ s.timesFreed k = 0
  sent : ∀ t ∈ s.sent, s.SentOk t
  full : ∀ call ∈ s.log, call.Full

variable {s s' : State}

lemma inv_of_initial (h : Initial s) : Inv s := by
  obtain ⟨hqueue, _, htail, hfreed, hsent, hlog⟩ := h
  refine ⟨?_, ?_, ?_, ?_, ?_, ?_, ?_⟩
  · rw [htail, hlog]
    rfl
  · intro i
    rw [hqueue]
    simp
  · intro i k hi
    rw [State.HoldsAt, hqueue] at hi
    exact absurd hi.1 Bool.false_ne_true
  · intro k hk
    rw [hlog] at hk
    cases hk
  · intro k _
    rw [State.timesSent, State.timesFreed, hsent, hfreed]
    exact ⟨rfl, rfl⟩
  · intro t ht
    rw [hsent] at ht
    cases ht
  · intro call hcall
    rw [hlog] at hcall
    cases hcall

variable {i : Fin arpPendingQueueSize} {k p : ℕ} {device : Device} {ip : Ip4} {mac : Mac}

lemma Inv.lt_length (h : Inv s) (hk : s.HoldsAt i k) : k < s.log.length := by
  obtain ⟨call, hcall, _⟩ := h.slot i k hk
  exact (List.getElem?_eq_some_iff.mp hcall).1

lemma Inv.holdsAt_inj (h : Inv s) {j : Fin arpPendingQueueSize} (hi : s.HoldsAt i k)
    (hj : s.HoldsAt j k) : i = j := by
  obtain ⟨_, _, _, hik, _⟩ := h.slot i k hi
  obtain ⟨_, _, _, hjk, _⟩ := h.slot j k hj
  exact Fin.ext (hik.symm.trans hjk)

lemma Inv.pending (h : Inv s) (hi : s.HoldsAt i k) : s.HasFate k .pending := by
  obtain ⟨f, hf⟩ := h.fate k (h.lt_length hi)
  cases f with
  | pending => exact hf
  | transmitted => exact absurd hi (hf.1 i)
  | evicted => exact absurd hi (hf.1 i)

section Release

variable (device : Device) (ip : Ip4) (mac : Mac) {i j : Fin arpPendingQueueSize} {k p : ℕ}

lemma holdsAt_release :
    (s.release device ip mac i p).HoldsAt j k ↔ j ≠ i ∧ s.HoldsAt j k := by
  by_cases hji : j = i
  · simp [State.HoldsAt, State.release, hji]
  · simp [State.HoldsAt, State.release, hji]

lemma timesFreed_release :
    (s.release device ip mac i p).timesFreed k = s.timesFreed k + if p = k then 1 else 0 := by
  simp only [State.timesFreed, State.release, List.count_append, List.count_singleton, beq_iff_eq]

lemma timesSent_release :
    (s.release device ip mac i p).timesSent k = s.timesSent k + if p = k then 1 else 0 := by
  simp only [State.timesSent, State.release, List.map_append, List.map_singleton,
    List.count_append, List.count_singleton, beq_iff_eq]

lemma hasFate_release_of_ne (hne : k ≠ p) (hi : s.HoldsAt i p) {f : Fate} (hf : s.HasFate k f) :
    (s.release device ip mac i p).HasFate k f := by
  have hholds (j : Fin arpPendingQueueSize) :
      (s.release device ip mac i p).HoldsAt j k ↔ s.HoldsAt j k := by
    rw [holdsAt_release, and_iff_right_of_imp]
    rintro hj rfl
    exact hne (Option.some.inj (hj.2.symm.trans hi.2))
  cases f <;>
    simpa only [State.HasFate, hholds, timesFreed_release, timesSent_release, if_neg hne.symm,
      Nat.add_zero] using hf

lemma hasFate_release_self (h : Inv s) (hi : s.HoldsAt i p) :
    (s.release device ip mac i p).HasFate p .transmitted := by
  obtain ⟨_, hsent, hfreed⟩ := h.pending hi
  refine ⟨?_, ?_, ?_⟩
  · intro j hj
    rw [holdsAt_release] at hj
    exact hj.1 (h.holdsAt_inj hj.2 hi)
  · rw [timesSent_release, hsent, if_pos rfl]
  · rw [timesFreed_release, hfreed, if_pos rfl]

lemma Inv.release (h : Inv s) (hi : s.HoldsAt i p) (hip : (s.queue i).targetIp = ip) :
    Inv (s.release device ip mac i p) := by
  have hlt := h.lt_length hi
  refine ⟨h.tail_eq, ?_, ?_, ?_, ?_, ?_, h.full⟩
  · intro j
    by_cases hji : j = i
    · simp [State.release, hji]
    · simp only [State.release, update_of_ne hji]
      exact h.packet j
  · intro j k hj
    obtain ⟨hji, hheld⟩ := (holdsAt_release device ip mac).mp hj
    have hkp : k ≠ p := by
      rintro hkp
      exact hji (h.holdsAt_inj hheld (hkp ▸ hi))
    simp only [State.SlotOk, State.release, update_of_ne hji, update_of_ne hkp]
    exact h.slot j k hheld
  · intro k hk
    by_cases hkp : k = p
    · subst hkp
      exact ⟨.transmitted, hasFate_release_self device ip mac h hi⟩
    · obtain ⟨f, hf⟩ := h.fate k hk
      exact ⟨f, hasFate_release_of_ne device ip mac hkp hi hf⟩
  · intro k hk
    have hkp : k ≠ p := Nat.ne_of_gt (Nat.lt_of_lt_of_le hlt hk)
    rw [timesSent_release, timesFreed_release, if_neg hkp.symm]
    exact h.later k hk
  · intro t ht
    rcases List.mem_append.mp ht with ht | ht
    · exact h.sent t ht
    · obtain rfl := List.mem_singleton.mp ht
      obtain ⟨call, hcall, _, _, hlen, htarget, hmemory⟩ := h.slot i p hi
      refine ⟨call, hcall, htarget.symm.trans hip, hlen, ?_⟩
      rw [hmemory, hlen]

end Release

lemma Inv.drainSlot (h : Inv s) (device : Device) (ip : Ip4) (mac : Mac)
    (i : Fin arpPendingQueueSize) :
    ∃ s', drainSlot device ip mac s i = some s' ∧ Inv s' := by
  rw [PendingQueue.drainSlot]
  by_cases hmatch : (s.queue i).Matches ip
  · obtain ⟨p, hp⟩ := (h.packet i).mp hmatch.1
    rw [if_pos hmatch, hp]
    exact ⟨_, rfl, h.release device ip mac ⟨hmatch.1, hp⟩ hmatch.2⟩
  · rw [if_neg hmatch]
    exact ⟨s, rfl, h⟩

lemma Inv.foldlM_drainSlot (h : Inv s) (device : Device) (ip : Ip4) (mac : Mac)
    (slots : List (Fin arpPendingQueueSize)) :
    ∃ s', slots.foldlM (PendingQueue.drainSlot device ip mac) s = some s' ∧ Inv s' := by
  induction slots generalizing s with
  | nil => exact ⟨s, rfl, h⟩
  | cons i slots ih =>
    obtain ⟨s₁, hslot, h₁⟩ := h.drainSlot device ip mac i
    rw [List.foldlM_cons, hslot]
    exact ih h₁

lemma Inv.arpPendingDrain (h : Inv s) (device : Device) (ip : Ip4) (mac : Mac) :
    ∃ s', arpPendingDrain device ip mac s = some s' ∧ Inv s' :=
  h.foldlM_drainSlot device ip mac _

lemma Inv.le_of_tail (h : Inv s) (hp : s.HoldsAt s.tail p) (hk : s.HoldsAt i k) : p ≤ k := by
  obtain ⟨_, hcall, hwindow, hslot, _⟩ := h.slot s.tail p hp
  obtain ⟨_, _, hwindow', _⟩ := h.slot i k hk
  have hlt := h.lt_length hp
  rw [h.tail_eq] at hslot
  dsimp only [arpPendingQueueSize] at hslot hwindow hwindow'
  omega

lemma evicted_eq_some_iff : s.evicted = some p ↔ s.HoldsAt s.tail p := by
  rw [State.evicted, State.HoldsAt]
  split_ifs with hocc
  · exact (and_iff_right hocc).symm
  · simp [hocc]

section Enqueue

variable (packet : Handed) {i : Fin arpPendingQueueSize} {k : ℕ}

def State.enqueue (s : State) (packet : Handed) : State :=
  PendingQueue.arpPendingEnqueue s.log.length packet.len packet.targetIp (s.hand packet)

lemma holdsAt_enqueue :
    (s.enqueue packet).HoldsAt i k ↔
      i = s.tail ∧ k = s.log.length ∨ i ≠ s.tail ∧ s.HoldsAt i k := by
  by_cases hi : i = s.tail
  · subst hi
    simp [State.HoldsAt, State.enqueue, arpPendingEnqueue, State.hand, @eq_comm _ k]
  · simp [State.HoldsAt, State.enqueue, arpPendingEnqueue, State.hand, hi]

lemma timesFreed_enqueue :
    (s.enqueue packet).timesFreed k = s.timesFreed k + if s.evicted = some k then 1 else 0 := by
  have hfreed : (s.enqueue packet).freed = s.freed ++ s.evicted.toList := rfl
  rw [State.timesFreed, hfreed, List.count_append]
  cases s.evicted with
  | none => rfl
  | some p => simp [State.timesFreed, List.count_singleton]

lemma timesSent_enqueue : (s.enqueue packet).timesSent k = s.timesSent k := rfl

lemma hasFate_enqueue_new (h : Inv s) :
    (s.enqueue packet).HasFate s.log.length .pending := by
  have hnot (i : Fin arpPendingQueueSize) : ¬ s.HoldsAt i s.log.length := fun hi =>
    Nat.lt_irrefl _ (h.lt_length hi)
  obtain ⟨hsent, hfreed⟩ := h.later s.log.length le_rfl
  refine ⟨⟨s.tail, (holdsAt_enqueue packet).mpr (.inl ⟨rfl, rfl⟩), ?_⟩, hsent, ?_⟩
  · intro j hj
    rcases (holdsAt_enqueue packet).mp hj with ⟨rfl, _⟩ | ⟨_, hj⟩
    · rfl
    · exact absurd hj (hnot j)
  · rw [timesFreed_enqueue, hfreed, if_neg]
    rw [evicted_eq_some_iff]
    exact hnot _

lemma hasFate_enqueue_evicted (h : Inv s) (hp : s.HoldsAt s.tail k) :
    (s.enqueue packet).HasFate k .evicted := by
  obtain ⟨_, hsent, hfreed⟩ := h.pending hp
  refine ⟨?_, hsent, ?_⟩
  · intro j hj
    rcases (holdsAt_enqueue packet).mp hj with ⟨_, heq⟩ | ⟨hne, hj⟩
    · exact Nat.ne_of_lt (h.lt_length hp) heq
    · exact hne (h.holdsAt_inj hj hp)
  · rw [timesFreed_enqueue, hfreed, if_pos (evicted_eq_some_iff.mpr hp)]

lemma hasFate_enqueue_of_ne (hk : k < s.log.length) (hp : ¬ s.HoldsAt s.tail k)
    {f : Fate} (hf : s.HasFate k f) : (s.enqueue packet).HasFate k f := by
  have hholds (j : Fin arpPendingQueueSize) :
      (s.enqueue packet).HoldsAt j k ↔ s.HoldsAt j k := by
    rw [holdsAt_enqueue]
    constructor
    · rintro (⟨_, heq⟩ | ⟨_, hj⟩)
      · exact absurd heq (Nat.ne_of_lt hk)
      · exact hj
    · intro hj
      exact .inr ⟨fun hjt => hp (hjt ▸ hj), hj⟩
  have hevicted : s.evicted ≠ some k := mt evicted_eq_some_iff.mp hp
  cases f <;>
    simpa only [State.HasFate, hholds, timesFreed_enqueue, timesSent_enqueue, if_neg hevicted,
      Nat.add_zero] using hf

lemma Inv.enqueue (h : Inv s) (hfull : packet.Full) : Inv (s.enqueue packet) := by
  have hlength : (s.enqueue packet).log.length = s.log.length + 1 := List.length_append
  have hlog {k : ℕ} {call : Handed} (hcall : s.log[k]? = some call) :
      (s.enqueue packet).log[k]? = some call := by
    have hk := (List.getElem?_eq_some_iff.mp hcall).1
    exact (List.getElem?_append_left hk).trans hcall
  refine ⟨?_, ?_, ?_, ?_, ?_, ?_, ?_⟩
  · have htail : ((s.enqueue packet).tail : ℕ) = (s.tail + 1) % arpPendingQueueSize := rfl
    rw [htail, hlength, h.tail_eq, Nat.mod_add_mod]
  · intro i
    by_cases hit : i = s.tail
    · simp [State.enqueue, arpPendingEnqueue, State.hand, hit]
    · simp only [State.enqueue, arpPendingEnqueue, State.hand, update_of_ne hit]
      exact h.packet i
  · intro i k hi
    rcases (holdsAt_enqueue packet).mp hi with ⟨rfl, rfl⟩ | ⟨hne, hheld⟩
    · refine ⟨packet, List.getElem?_concat_length, ?_, h.tail_eq.symm, ?_, ?_, ?_⟩
      · rw [hlength]
        exact Nat.add_le_add_left (by decide) _
      all_goals simp [State.enqueue, arpPendingEnqueue, State.hand]
    · obtain ⟨call, hcall, hwindow, hslot, hlen, htarget, hmemory⟩ := h.slot i k hheld
      have hk := h.lt_length hheld
      have hne' : k % arpPendingQueueSize ≠ s.tail := fun heq =>
        hne (Fin.ext (hslot.symm.trans heq))
      refine ⟨call, hlog hcall, ?_, hslot, ?_, ?_, ?_⟩
      · rw [h.tail_eq] at hne'
        dsimp only [arpPendingQueueSize] at hne' hwindow ⊢
        omega
      · simpa [State.enqueue, arpPendingEnqueue, State.hand, hne] using hlen
      · simpa [State.enqueue, arpPendingEnqueue, State.hand, hne] using htarget
      · simpa [State.enqueue, arpPendingEnqueue, State.hand, Nat.ne_of_lt hk] using hmemory
  · intro k hk
    by_cases hnew : k = s.log.length
    · subst hnew
      exact ⟨.pending, hasFate_enqueue_new packet h⟩
    · have hk' : k < s.log.length := by omega
      by_cases hp : s.HoldsAt s.tail k
      · exact ⟨.evicted, hasFate_enqueue_evicted packet h hp⟩
      · obtain ⟨f, hf⟩ := h.fate k hk'
        exact ⟨f, hasFate_enqueue_of_ne packet hk' hp hf⟩
  · intro k hk
    obtain ⟨hsent, hfreed⟩ := h.later k (by omega)
    have hevicted : s.evicted ≠ some k := fun heq => by
      have hlt := h.lt_length (evicted_eq_some_iff.mp heq)
      omega
    rw [timesFreed_enqueue, if_neg hevicted]
    exact ⟨hsent, hfreed⟩
  · intro t ht
    obtain ⟨call, hcall, hrest⟩ := h.sent t ht
    exact ⟨call, hlog hcall, hrest⟩
  · intro call hcall
    rcases List.mem_append.mp hcall with hcall | hcall
    · exact h.full call hcall
    · exact List.mem_singleton.mp hcall ▸ hfull

end Enqueue

/-! ## Runs -/

lemma Inv.step {a : Event} (h : Inv s) (hstep : step s a = some s') : Inv s' := by
  cases a with
  | enqueue packet =>
    simp only [PendingQueue.step] at hstep
    split_ifs at hstep with hfull
    rw [Option.some.injEq] at hstep
    exact hstep ▸ h.enqueue packet hfull
  | drain device ip mac =>
    obtain ⟨s₁, hdrain, h₁⟩ := h.arpPendingDrain device ip mac
    obtain rfl : s₁ = s' := Option.some.inj (hdrain.symm.trans hstep)
    exact h₁

lemma inv_of_reachable (hs : system.Reachable s) : Inv s :=
  hs.invariant (fun _ => inv_of_initial) fun _ _ _ => Inv.step

/-- The frame has the length of the packet, the address of the drain in its
first six bytes, and the bytes of the packet behind them. -/
def State.SentAs (s : State) (t : Sent) (call : Handed) : Prop :=
  s.log[t.packet]? = some call ∧ call.targetIp = t.resolvedIp ∧ t.len = call.len ∧
    t.frame.length = call.len.toNat ∧
    ∀ i < call.len.toNat,
      t.frame[i]? = if i < 6 then t.resolvedMac.toList[i]? else call.contents[i]?

lemma Inv.sentAs (h : Inv s) {t : Sent} (ht : t ∈ s.sent) : ∃ call, s.SentAs t call := by
  obtain ⟨call, hcall, htarget, hlen, hframe⟩ := h.sent t ht
  obtain ⟨hsix, hlength⟩ := h.full call (List.mem_of_getElem? hcall)
  have hmac : t.resolvedMac.toList.length = 6 := Vector.length_toList
  refine ⟨call, hcall, htarget, hlen, ?_, ?_⟩
  · rw [hframe, List.length_take, List.length_append, hmac, List.length_drop]
    omega
  · intro i hi
    rw [hframe, List.getElem?_take_of_lt hi, List.getElem?_append, hmac]
    split_ifs with hsmall
    · rfl
    · rw [List.getElem?_drop]
      congr 1
      omega

/-! ## What a call does to a buffer -/

lemma drainSlot_cases (hslot : PendingQueue.drainSlot device ip mac s i = some s') :
    s' = s ∧ ¬ (s.queue i).Matches ip ∨
      ∃ p, s.HoldsAt i p ∧ (s.queue i).targetIp = ip ∧ s' = s.release device ip mac i p := by
  rw [PendingQueue.drainSlot] at hslot
  split_ifs at hslot with hmatch
  · obtain ⟨p, hp, rfl⟩ := Option.map_eq_some_iff.mp hslot
    exact .inr ⟨p, ⟨hmatch.1, hp⟩, hmatch.2, rfl⟩
  · exact .inl ⟨(Option.some.inj hslot).symm, hmatch⟩

lemma Inv.fate_drainSlot (h : Inv s)
    (hslot : PendingQueue.drainSlot device ip mac s i = some s') {f : Fate} (hf : s.HasFate k f) :
    s'.HasFate k f ∨ s'.HasFate k .transmitted := by
  rcases drainSlot_cases hslot with ⟨rfl, _⟩ | ⟨p, hp, _, rfl⟩
  · exact .inl hf
  · by_cases hkp : k = p
    · subst hkp
      exact .inr (hasFate_release_self device ip mac h hp)
    · exact .inl (hasFate_release_of_ne device ip mac hkp hp hf)

lemma Inv.log_foldlM {slots : List (Fin arpPendingQueueSize)} (h : Inv s)
    (hdrain : slots.foldlM (PendingQueue.drainSlot device ip mac) s = some s') :
    s'.log = s.log := by
  induction slots generalizing s with
  | nil => rw [Option.some.inj hdrain]
  | cons i slots ih =>
    obtain ⟨s₁, hslot, h₁⟩ := h.drainSlot device ip mac i
    rw [List.foldlM_cons, hslot] at hdrain
    rw [ih h₁ hdrain]
    rcases drainSlot_cases hslot with ⟨rfl, _⟩ | ⟨p, _, _, rfl⟩ <;> rfl

lemma Inv.fate_foldlM {slots : List (Fin arpPendingQueueSize)} (h : Inv s)
    (hdrain : slots.foldlM (PendingQueue.drainSlot device ip mac) s = some s') {f : Fate}
    (hf : s.HasFate k f) : s'.HasFate k f ∨ s'.HasFate k .transmitted := by
  induction slots generalizing s f with
  | nil => exact .inl (Option.some.inj hdrain ▸ hf)
  | cons i slots ih =>
    obtain ⟨s₁, hslot, h₁⟩ := h.drainSlot device ip mac i
    rw [List.foldlM_cons, hslot] at hdrain
    rcases h.fate_drainSlot hslot hf with hf₁ | hf₁
    · exact ih h₁ hdrain hf₁
    · exact .inr ((ih h₁ hdrain hf₁).elim id id)

lemma Inv.transmitted_foldlM {slots : List (Fin arpPendingQueueSize)} (h : Inv s)
    (hdrain : slots.foldlM (PendingQueue.drainSlot device ip mac) s = some s')
    (hi : i ∈ slots) (hk : s.HoldsAt i k) (hip : (s.queue i).targetIp = ip) :
    s'.HasFate k .transmitted := by
  induction slots generalizing s with
  | nil => cases hi
  | cons j slots ih =>
    obtain ⟨s₁, hslot, h₁⟩ := h.drainSlot device ip mac j
    rw [List.foldlM_cons, hslot] at hdrain
    rcases drainSlot_cases hslot with ⟨rfl, hmatch⟩ | ⟨p, hp, _, rfl⟩
    · refine ih h₁ hdrain ((List.mem_cons.mp hi).resolve_left ?_) hk hip
      rintro rfl
      exact hmatch ⟨hk.1, hip⟩
    · by_cases hij : i = j
      · subst hij
        cases hk.2.symm.trans hp.2
        have hsent := hasFate_release_self device ip mac h hp
        exact (h₁.fate_foldlM hdrain hsent).elim id id
      · have hqueue : (s.release device ip mac j p).queue i = s.queue i :=
          update_of_ne hij _ _
        refine ih h₁ hdrain ((List.mem_cons.mp hi).resolve_left hij) ?_ (hqueue ▸ hip)
        exact (holdsAt_release device ip mac).mpr ⟨hij, hk⟩

lemma Inv.evicted_step {e : Event} (h : Inv s) (hstep : PendingQueue.step s e = some s')
    (hk : s'.HasFate k .evicted) :
    s.HasFate k .evicted ∨
      (∃ packet, e = .enqueue packet) ∧ (∃ i, s.HoldsAt i k) ∧ ∀ i j, s.HoldsAt i j → k ≤ j := by
  have hlt : k < s'.log.length := by
    by_contra hle
    have hnot := ((h.step hstep).later k (not_lt.mp hle)).2
    exact absurd (hnot.symm.trans hk.2.2) Nat.zero_ne_one
  cases e with
  | enqueue packet =>
    simp only [PendingQueue.step, Option.ite_none_right_eq_some, Option.some.injEq] at hstep
    obtain ⟨_, rfl⟩ := hstep
    by_cases hp : s.HoldsAt s.tail k
    · exact .inr ⟨⟨packet, rfl⟩, ⟨_, hp⟩, fun i j => h.le_of_tail hp⟩
    · left
      have hne : k ≠ s.log.length := by
        rintro rfl
        cases hk.eq (hasFate_enqueue_new packet h)
      have hlength : (s.enqueue packet).log.length = s.log.length + 1 := List.length_append
      have hlt' : k < s.log.length := by
        rw [State.enqueue] at hlength
        omega
      obtain ⟨f, hf⟩ := h.fate k hlt'
      exact hk.eq (hasFate_enqueue_of_ne packet hlt' hp hf) ▸ hf
  | drain device ip mac =>
    left
    obtain ⟨f, hf⟩ := h.fate k (h.log_foldlM hstep ▸ hlt)
    rcases h.fate_foldlM hstep hf with hf' | hf'
    · exact hk.eq hf' ▸ hf
    · cases hk.eq hf'

/-- Every buffer handed over has exactly one of the three fates, what was sent
is the packet with the address of the drain, the buffer that is evicted next is
the oldest one pending, and no drain writes to a null pointer.  A call that
frees a buffer unsent is an `arp_pending_enqueue`, and the buffer the oldest one
pending; a drain sends every packet that waits for its address. -/
structure Conserved (s : State) : Prop where
  fate : ∀ k < s.log.length, ∃! f, s.HasFate k f
  sent : ∀ t ∈ s.sent, ∃ call, s.SentAs t call
  oldest : ∀ p, s.evicted = some p → (∃ i, s.HoldsAt i p) ∧ ∀ i k, s.HoldsAt i k → p ≤ k
  drains : ∀ device ip mac, arpPendingDrain device ip mac s ≠ none
  evicts : ∀ e s' k, step s e = some s' → s'.HasFate k .evicted → s.HasFate k .evicted ∨
    (∃ packet, e = .enqueue packet) ∧ (∃ i, s.HoldsAt i k) ∧ ∀ i j, s.HoldsAt i j → k ≤ j
  transmits : ∀ device ip mac s', arpPendingDrain device ip mac s = some s' →
    ∀ i k, s.HoldsAt i k → (s.queue i).targetIp = ip → s'.HasFate k .transmitted

/-- No buffer is lost or freed twice by any sequence of calls. -/
theorem buffers_conserved (hs : system.Reachable s) : Conserved s := by
  have h := inv_of_reachable hs
  refine ⟨?_, fun t => h.sentAs, ?_, ?_, fun _ _ _ => h.evicted_step,
    fun _ _ _ _ hdrain i k => h.transmitted_foldlM hdrain (List.mem_finRange i)⟩
  · intro k hk
    obtain ⟨f, hf⟩ := h.fate k hk
    exact ⟨f, hf, fun f' hf' => hf'.eq hf⟩
  · intro p hp
    have hheld := evicted_eq_some_iff.mp hp
    exact ⟨⟨s.tail, hheld⟩, fun i k => h.le_of_tail hheld⟩
  · intro device ip mac
    obtain ⟨s', hdrain, _⟩ := h.arpPendingDrain device ip mac
    rw [hdrain]
    exact Option.some_ne_none s'

theorem buffers_conserved_one_of_two :
    ∃ s, system.Reachable s ∧ s.freed = [0] ∧ s.log.length = 2 ∧ Conserved s := by
  obtain ⟨s, hs, hfreed⟩ := System.Reachable.exists_of_run_any (S := system)
    (.init initState_initial)
    [.enqueue (smallPacket addressA), .enqueue (smallPacket addressB),
      .drain sender addressA receiver.mac]
    (fun s => decide (s.freed = [0] ∧ s.log.length = 2)) (by decide +kernel)
  obtain ⟨hfreed, hlog⟩ := of_decide_eq_true hfreed
  exact ⟨s, hs, hfreed, hlog, buffers_conserved hs⟩

/-! ## The packets in the buffers -/

def State.entry (s : State) (i : Fin arpPendingQueueSize) : ArpPendingEntry where
  packet := ((s.queue i).packet.map s.memory).getD []
  len := (s.queue i).len
  targetIp := (s.queue i).targetIp
  occupied := (s.queue i).occupied

def State.load (s : State) (net : NetState) : NetState :=
  { net with
    arpPendingQueue := Vector.ofFn s.entry
    arpPendingHead := s.head
    arpPendingTail := s.tail
    sent := net.sent ++ s.sent.map fun t => ⟨t.device, t.frame⟩ }

lemma set_ofFn {α : Type} {n : ℕ} (f : Fin n → α) (i : Fin n) (a : α) :
    (Vector.ofFn f).set i a = Vector.ofFn (update f i a) := by
  apply Vector.ext
  intro j hj
  rw [Vector.getElem_set, Vector.getElem_ofFn, Vector.getElem_ofFn]
  by_cases hij : (i : ℕ) = j
  · subst hij
    simp
  · have hne : (⟨j, hj⟩ : Fin n) ≠ i := fun heq => hij (congrArg Fin.val heq).symm
    rw [if_neg hij, update_of_ne hne]

variable (h : Inv s)

include h

lemma Inv.entry_release (hi : s.HoldsAt i p) (device : Device) (ip : Ip4) (mac : Mac) :
    (s.release device ip mac i p).entry =
      update s.entry i { s.entry i with packet := [], occupied := false } := by
  funext j
  by_cases hji : j = i
  · subst hji
    simp [State.entry, State.release]
  · simp only [State.entry, State.release, update_of_ne hji]
    cases hpacket : (s.queue j).packet with
    | none => rfl
    | some k =>
      have hkp : k ≠ p := by
        rintro rfl
        exact hji (h.holdsAt_inj ⟨(h.packet j).mpr ⟨k, hpacket⟩, hpacket⟩ hi)
      simp only [Option.map_some, update_of_ne hkp]

lemma Inv.load_release (hi : s.HoldsAt i p) (device : Device) (mac : Mac) (net : NetState) :
    (s.release device (s.queue i).targetIp mac i p).load net =
      Net.drainSlot device (s.queue i).targetIp mac (s.load net) i := by
  have hentry : (s.load net).arpPendingQueue[i] = s.entry i := Vector.getElem_ofFn i.isLt
  have hpacket : (s.entry i).packet = s.memory p := by
    simp only [State.entry, hi.2]
    rfl
  rw [Net.drainSlot]
  simp only [hentry]
  rw [if_pos ⟨hi.1, rfl⟩, hpacket]
  simp only [State.load, set_ofFn, ← h.entry_release hi device (s.queue i).targetIp mac]
  rw [State.release]
  simp only [List.map_append, List.append_assoc, List.map_singleton]
  rfl

lemma Inv.load_drainSlot (hdrain : PendingQueue.drainSlot device ip mac s i = some s')
    (net : NetState) : s'.load net = Net.drainSlot device ip mac (s.load net) i := by
  rw [PendingQueue.drainSlot] at hdrain
  split_ifs at hdrain with hmatch
  · obtain ⟨p, hp, rfl⟩ := Option.map_eq_some_iff.mp hdrain
    obtain ⟨hocc, rfl⟩ := hmatch
    exact h.load_release ⟨hocc, hp⟩ device mac net
  · cases hdrain
    have hentry : (s.load net).arpPendingQueue[i] = s.entry i := Vector.getElem_ofFn i.isLt
    rw [Net.drainSlot]
    simp only [hentry]
    exact (if_neg hmatch).symm

lemma Inv.load_foldlM {slots : List (Fin arpPendingQueueSize)}
    (hdrain : slots.foldlM (PendingQueue.drainSlot device ip mac) s = some s') (net : NetState) :
    s'.load net = slots.foldl (Net.drainSlot device ip mac) (s.load net) := by
  induction slots generalizing s with
  | nil => exact congrArg (State.load · net) (Option.some.inj hdrain).symm
  | cons i slots ih =>
    obtain ⟨s₁, hslot, h₁⟩ := h.drainSlot device ip mac i
    rw [List.foldlM_cons, hslot] at hdrain
    rw [List.foldl_cons, ← h.load_drainSlot hslot net]
    exact ih h₁ hdrain

lemma Inv.load_arpPendingDrain (hdrain : PendingQueue.arpPendingDrain device ip mac s = some s')
    (net : NetState) : s'.load net = Net.arpPendingDrain device ip mac (s.load net) :=
  h.load_foldlM hdrain net

lemma Inv.entry_enqueue (packet : Handed) :
    (s.enqueue packet).entry =
      update s.entry s.tail ⟨packet.contents, packet.len, packet.targetIp, true⟩ := by
  funext j
  by_cases hjt : j = s.tail
  · subst hjt
    simp [State.entry, State.enqueue, arpPendingEnqueue, State.hand]
  · simp only [State.entry, State.enqueue, arpPendingEnqueue, State.hand, update_of_ne hjt]
    cases hpacket : (s.queue j).packet with
    | none => rfl
    | some k =>
      have hk : k ≠ s.log.length :=
        Nat.ne_of_lt (h.lt_length ⟨(h.packet j).mpr ⟨k, hpacket⟩, hpacket⟩)
      simp only [Option.map_some, update_of_ne hk]

lemma Inv.load_enqueue (packet : Handed) (net : NetState) :
    (s.enqueue packet).load net =
      Net.arpPendingEnqueue packet.contents packet.len packet.targetIp (s.load net) := by
  have hentry : (s.load net).arpPendingQueue[s.tail] = s.entry s.tail :=
    Vector.getElem_ofFn s.tail.isLt
  have htail : (s.load net).arpPendingTail = s.tail := rfl
  rw [Net.arpPendingEnqueue]
  simp only [htail, hentry]
  simp only [State.load, set_ofFn, h.entry_enqueue packet]
  rfl

def onPackets (net : NetState) : Event → NetState
  | .enqueue packet => Net.arpPendingEnqueue packet.contents packet.len packet.targetIp net
  | .drain device ip mac => Net.arpPendingDrain device ip mac net

lemma Inv.load_step {e : Event} (hstep : PendingQueue.step s e = some s') (net : NetState) :
    s'.load net = onPackets (s.load net) e := by
  cases e with
  | enqueue packet =>
    simp only [PendingQueue.step] at hstep
    split_ifs at hstep
    rw [← Option.some.inj hstep]
    exact h.load_enqueue packet net
  | drain device ip mac => exact h.load_arpPendingDrain hstep net

omit h

/-- The queue of buffers behaves as the queue of packets. -/
theorem packets_of_buffers (hs : system.Reachable s) {events : List Event}
    (hrun : system.run s events = some s') (net : NetState) :
    s'.load net = events.foldl onPackets (s.load net) := by
  induction events generalizing s with
  | nil => rw [Option.some.inj hrun, List.foldl_nil]
  | cons e events ih =>
    obtain ⟨s₁, hstep, hrest⟩ := Option.bind_eq_some_iff.mp hrun
    rw [List.foldl_cons, ← (inv_of_reachable hs).load_step hstep net]
    exact ih (.step hs trivial hstep) hrest

theorem packets_of_buffers_drained :
    ∃ events s, system.run initState events = some s ∧ s.freed = [0] ∧
      s.load listening = events.foldl onPackets (initState.load listening) := by
  have hany : (system.run initState [.enqueue (smallPacket addressA),
      .drain sender addressA receiver.mac]).any (·.freed = [0]) = true := by
    decide +kernel
  obtain ⟨s, hs, hfreed⟩ := (Option.any_eq_true _ _).mp hany
  exact ⟨_, s, hs, of_decide_eq_true hfreed,
    packets_of_buffers (.init initState_initial) hs listening⟩

end Cottage.PendingQueue
