import Cottage.Net.SocketQueueFifo

/-!
# One and several receivers

With a single receiver no other thread can come between reading the slot at the
head and advancing the head, and the socket is a queue of 31 datagrams.  Two
receivers that are admitted together may take the same datagram.
-/

namespace Cottage.SocketQueue

open IndexRing Net Scheduler Sem Transition Function

variable {s s' : State} {t r : Tid}

lemma wake_receivers_of_idle {u : Tid} (ht : s.receivers t = .idle) :
    (wake s u).receivers t = .idle := by
  rw [wake]
  cases hu : s.receivers u with
  | blocked call =>
    have hne : t ≠ u := by
      rintro rfl
      cases ht.symm.trans hu
    simpa only [State.setReceiver, update_of_ne hne] using ht
  | _ => exact ht

lemma networkStep_receivers_of_idle (hstep : networkStep s = some s')
    (ht : s.receivers t = .idle) : s'.receivers t = .idle := by
  rw [networkStep] at hstep
  cases hnetwork : s.network with
  | idle =>
    rw [hnetwork] at hstep
    cases hstep
  | check datagram =>
    simp only [hnetwork] at hstep
    split_ifs at hstep <;> exact Option.some.inj hstep ▸ ht
  | store k =>
    simp only [hnetwork] at hstep
    exact Option.some.inj hstep ▸ ht
  | extend =>
    simp only [hnetwork] at hstep
    exact Option.some.inj hstep ▸ ht
  | signal =>
    simp only [hnetwork] at hstep
    split at hstep
    · exact Option.some.inj hstep ▸ ht
    · exact Option.some.inj hstep ▸ wake_receivers_of_idle ht

lemma receiverStep_receivers_of_ne {u : Tid} (hstep : receiverStep s u = some s')
    (hne : t ≠ u) : s'.receivers t = s.receivers t := by
  rw [receiverStep] at hstep
  cases hu : s.receivers u with
  | idle | blocked =>
    rw [hu] at hstep
    cases hstep
  | wait call =>
    simp only [hu] at hstep
    split at hstep
    · exact Option.some.inj hstep ▸ update_of_ne hne _ _
    · exact Option.some.inj hstep ▸ update_of_ne hne _ _
    · cases hstep
  | read call =>
    simp only [hu] at hstep
    split at hstep <;> exact Option.some.inj hstep ▸ update_of_ne hne _ _
  | advance call k =>
    simp only [hu] at hstep
    exact Option.some.inj hstep ▸ update_of_ne hne _ _
  | finish call k =>
    simp only [hu] at hstep
    obtain ⟨datagram, _, rfl⟩ := Option.map_eq_some_iff.mp hstep
    exact update_of_ne hne _ _

lemma step_receivers_of_idle {a : Event} (hstep : step s a = some s')
    (ht : s.receivers t = .idle) (hcall : ∀ call, a ≠ .recvfrom t call) :
    s'.receivers t = .idle := by
  cases a with
  | deliver datagram =>
    simp only [step] at hstep
    split_ifs at hstep
    exact Option.some.inj hstep ▸ ht
  | network => exact networkStep_receivers_of_idle hstep ht
  | recvfrom u call =>
    have hne : t ≠ u := by
      rintro rfl
      exact hcall call rfl
    simp only [step] at hstep
    split_ifs at hstep
    cases hstep
    exact (update_of_ne hne _ _).trans ht
  | receiver u =>
    have hne : t ≠ u := by
      rintro rfl
      simp only [step, receiverStep, ht] at hstep
      cases hstep
    exact (receiverStep_receivers_of_ne hstep hne).trans ht

def Receiver.reading : Receiver → Bool
  | .read _ => true
  | _ => false

def Receiver.advancing : Receiver → Bool
  | .advance _ _ => true
  | _ => false

/-- Only threads of the list receive, and each reads the slot at the head while
none of the others is about to advance the head. -/
def Among (l : List Tid) (s : State) : Event → Prop
  | .recvfrom t _ => t ∈ l
  | .receiver t => (s.receivers t).reading = true → ∀ t' ∈ l, (s.receivers t').advancing = false
  | _ => True

instance (l : List Tid) (s : State) (a : Event) : Decidable (Among l s a) :=
  match a with
  | .recvfrom _ _ => inferInstanceAs (Decidable (_ ∈ _))
  | .receiver _ => inferInstanceAs (Decidable (_ → _))
  | .deliver _ => .isTrue trivial
  | .network => .isTrue trivial

lemma exclusive_of_among {l : List Tid} (hs : system.ReachableVia (Among l) s) :
    system.ReachableVia Exclusive s ∧ ∀ t, t ∉ l → s.receivers t = .idle := by
  induction hs with
  | init hs => exact ⟨.init hs, fun t _ => hs.2.2.2.1 t⟩
  | @step s s' a _ hok hstep ih =>
    obtain ⟨hvia, hidle⟩ := ih
    refine ⟨.step hvia ?_ hstep, ?_⟩
    · cases a with
      | receiver u =>
        intro call hread t call' k hadvance
        by_cases ht : t ∈ l
        · have hfree := hok (by rw [hread]; rfl) t ht
          rw [hadvance] at hfree
          cases hfree
        · rw [hidle t ht] at hadvance
          cases hadvance
      | _ => trivial
    · intro t ht
      apply step_receivers_of_idle hstep (hidle t ht)
      rintro call rfl
      exact ht hok

lemma among_of_only (hs : system.ReachableVia (Only r) s) :
    system.ReachableVia (Among [r]) s := by
  induction hs with
  | init hs => exact .init hs
  | @step s s' a _ hok hstep ih =>
    refine .step ih ?_ hstep
    cases a with
    | recvfrom t call => exact List.mem_singleton.mpr hok
    | receiver t =>
      intro hreading t' ht'
      rw [List.mem_singleton.mp ht']
      by_cases htr : t = r
      · subst htr
        cases hr : s.receivers t with
        | read call => rfl
        | _ => simp [hr, Receiver.reading] at hreading
      · have hidle := (exclusive_of_among ih).2 t (by simpa using htr)
        rw [hidle] at hreading
        cases hreading
    | _ => trivial

def Receiver.finishing : Receiver → List ℕ
  | .finish _ k => [k]
  | _ => []

def Settled (s : State) (r : Tid) : Prop :=
  s.taken = s.freed ++ (s.receivers r).finishing

lemma wake_finishing (u : Tid) :
    ((wake s u).receivers r).finishing = (s.receivers r).finishing := by
  rw [wake]
  cases hu : s.receivers u with
  | blocked call =>
    by_cases hru : r = u
    · subst hru
      simp [State.setReceiver, hu, Receiver.finishing]
    · simp only [State.setReceiver, update_of_ne hru]
  | _ => rfl

lemma wake_taken (u : Tid) : (wake s u).taken = s.taken ∧ (wake s u).freed = s.freed := by
  rw [wake]
  cases s.receivers u <;> exact ⟨rfl, rfl⟩

lemma Settled.networkStep (h : Settled s r) (hstep : networkStep s = some s') :
    Settled s' r := by
  rw [SocketQueue.networkStep] at hstep
  cases hnetwork : s.network <;> simp only [hnetwork, reduceCtorEq] at hstep
  case check datagram =>
    split_ifs at hstep <;> exact Option.some.inj hstep ▸ h
  case store k =>
    exact Option.some.inj hstep ▸ h
  case extend =>
    exact Option.some.inj hstep ▸ h
  case signal =>
    split at hstep
    · exact Option.some.inj hstep ▸ h
    · cases hstep
      rw [Settled, wake_finishing, (wake_taken _).1, (wake_taken _).2]
      exact h

lemma Settled.receiverStep (h : Settled s r) (hstep : receiverStep s r = some s') :
    Settled s' r := by
  rw [Settled] at h
  rw [SocketQueue.receiverStep] at hstep
  cases hr : s.receivers r <;> rw [hr] at h <;> simp only [hr, reduceCtorEq] at hstep
  case wait call =>
    split at hstep
    · cases hstep
      simpa [Settled, State.setReceiver, Receiver.finishing] using h
    · cases hstep
      simpa [Settled, State.setReceiver, Receiver.finishing] using h
    · cases hstep
  case read call =>
    split at hstep <;>
      · cases hstep
        simpa [Settled, State.setReceiver, Receiver.finishing] using h
  case advance call k =>
    cases hstep
    simpa [Settled, State.setReceiver, Receiver.finishing] using h
  case finish call k =>
    obtain ⟨datagram, _, rfl⟩ := Option.map_eq_some_iff.mp hstep
    simpa [Settled, State.setReceiver, Receiver.finishing] using h

lemma settled_of_only (hs : system.ReachableVia (Only r) s) : Settled s r := by
  induction hs with
  | init hs =>
    obtain ⟨_, _, _, hidle, _, htaken, hfreed, _⟩ := hs
    rw [Settled, htaken, hfreed, hidle r]
    rfl
  | @step s s' a hvia hok hstep ih =>
    cases a with
    | deliver datagram =>
      simp only [system, step] at hstep
      split_ifs at hstep
      exact Option.some.inj hstep ▸ ih
    | network => exact ih.networkStep hstep
    | recvfrom t call =>
      obtain rfl : t = r := hok
      simp only [system, step] at hstep
      split_ifs at hstep with hidle
      cases hstep
      rw [Settled, hidle] at ih
      simpa [Settled, State.setReceiver, Receiver.finishing] using ih
    | receiver t =>
      by_cases htr : t = r
      · subst htr
        exact ih.receiverStep hstep
      · have hidle := (exclusive_of_among (among_of_only hvia)).2 t (by simpa using htr)
        simp only [system, step, receiverStep, hidle] at hstep
        cases hstep

/-- The datagrams accepted so far, and the one that is about to be. -/
def State.kept (s : State) : List Datagram :=
  match s.network with
  | .check datagram => s.datagrams ++ [datagram]
  | _ => s.datagrams

def Event.arrivals : Event → List Datagram
  | .deliver datagram => [datagram]
  | .network | .recvfrom _ _ | .receiver _ => []

lemma wake_kept (s : State) (t : Tid) : (wake s t).kept = s.kept := by
  rw [wake]
  split <;> rfl

lemma networkStep_kept {s' : State} (hstep : SocketQueue.networkStep s = some s') :
    s'.kept = s.kept ∨
      s'.kept = s.datagrams ∧ s.recvQueue.IsFull ∧ ∃ datagram, s.network = .check datagram := by
  rw [SocketQueue.networkStep] at hstep
  cases hnetwork : s.network <;> simp only [hnetwork, Option.some.injEq, reduceCtorEq] at hstep
  case check datagram =>
    split_ifs at hstep with hfull
    · cases hstep
      exact .inr ⟨rfl, hfull, datagram, rfl⟩
    · cases hstep
      exact .inl (by simp [State.kept, hnetwork])
  case signal =>
    left
    split at hstep
    · cases hstep
      simp [State.kept, hnetwork]
    · cases hstep
      rw [wake_kept]
      simp [State.kept, hnetwork]
  all_goals
    subst hstep
    exact .inl (by simp [State.kept, hnetwork])

lemma receiverStep_kept {s' : State} {t : Tid}
    (hstep : SocketQueue.receiverStep s t = some s') : s'.kept = s.kept := by
  rw [SocketQueue.receiverStep] at hstep
  cases hr : s.receivers t <;> simp only [hr, Option.some.injEq, reduceCtorEq] at hstep
  case wait call => split at hstep <;> cases hstep <;> rfl
  case read call => split at hstep <;> cases hstep <;> rfl
  case advance call k =>
    subst hstep
    rfl
  case finish call k =>
    obtain ⟨datagram, _, rfl⟩ := Option.map_eq_some_iff.mp hstep
    rfl

/-- The socket is a queue of 31 datagrams: a datagram is dropped only when 31 of
those made are not yet taken; the calls return the datagrams in order, each
with its address and as many bytes as asked for; buffers are freed once, by the
calls that return them; no call finds an empty queue; and a call does not block
while there is something in it, nor stop anywhere else. -/
structure Fifo (s : State) (r : Tid) : Prop where
  full_iff : ∀ datagram, s.network = .check datagram →
    (s.recvQueue.IsFull ↔ s.datagrams.length = s.taken.length + 31)
  kept : ∀ e s', step s e = some s' → s'.kept = s.kept ++ e.arrivals ∨
    s'.kept = s.datagrams ∧ s.datagrams.length = s.taken.length + 31
  in_order : ∀ i (ret : Returned), s.returned[i]? = some ret →
    ∃ datagram, s.datagrams[i]? = some datagram ∧ ret = received ret.call i datagram
  freed_once : s.freed = List.range s.returned.length
  never_fails : s.failures = 0
  blocks_empty : ∀ call, s.receivers r = .blocked call → s.network = .idle →
    s.datagrams.length = s.taken.length
  goes_on : receiverStep s r = none → s.receivers r = .idle ∨ ∃ call, s.receivers r = .blocked call

variable {admitted : List Tid}

lemma Inv.freed_eq (h : Inv s admitted) (hsettled : Settled s r) :
    s.freed = List.range s.freed.length := by
  have htaken := h.taken
  have hprefix : s.freed = s.taken.take s.freed.length := by
    rw [hsettled, List.take_left]
  rw [htaken, List.take_range] at hprefix
  have hle : s.freed.length ≤ s.taken.length := by
    rw [hsettled, List.length_append]
    omega
  rwa [Nat.min_eq_left hle] at hprefix

lemma length_le_one {l : List Tid} (hnodup : l.Nodup) (hmem : ∀ t ∈ l, t = r) :
    l.length ≤ 1 := by
  cases l with
  | nil => exact Nat.zero_le 1
  | cons t l =>
    obtain ⟨hnot, _⟩ := List.nodup_cons.mp hnodup
    cases l with
    | nil => exact Nat.le_refl 1
    | cons u l =>
      have htu : t = u := (hmem t (by simp)).trans (hmem u (by simp)).symm
      exact absurd (htu ▸ List.mem_cons_self) hnot

section

variable (h : Inv s admitted) (hidle : ∀ t, t ≠ r → s.receivers t = .idle)

include h hidle

lemma Inv.not_full : ¬ s.sem.waiters.IsFull := by
  intro hfull
  rw [Ring.isFull_iff, ← Ring.length_toList] at hfull
  have hmem : ∀ t ∈ s.sem.waiters.toList, t = r := by
    intro t ht
    by_contra hne
    rw [h.threads.waiters_iff, hidle t hne] at ht
    exact ht
  have hlength := length_le_one h.waiters_nodup hmem
  have hmax : semMaxWaiters = 64 := rfl
  omega

lemma Inv.goes_on (hstep : SocketQueue.receiverStep s r = none) :
    s.receivers r = .idle ∨ ∃ call, s.receivers r = .blocked call := by
  rw [SocketQueue.receiverStep] at hstep
  cases hr : s.receivers r with
  | idle => exact .inl rfl
  | blocked call => exact .inr ⟨call, rfl⟩
  | wait call =>
    simp only [hr, semWait] at hstep
    by_cases hpos : 0 < s.sem.count
    · simp [hpos] at hstep
    · simp [hpos, h.not_full hidle] at hstep
  | read call =>
    simp only [hr] at hstep
    split at hstep <;> cases hstep
  | advance call k =>
    simp only [hr] at hstep
    cases hstep
  | finish call k =>
    simp only [hr] at hstep
    have hlt := (h.threads.finish r call k hr).1
    have htotal := h.total
    rw [Option.map_eq_none_iff, List.getElem?_eq_none_iff] at hstep
    omega

lemma Inv.blocks_empty {call : Call} (hblocked : s.receivers r = .blocked call)
    (hnetwork : s.network = .idle) : s.datagrams.length = s.taken.length := by
  have hwaiting : r ∈ s.sem.waiters.toList := by
    rw [h.threads.waiters_iff, hblocked]
    trivial
  have hcount : ¬ 0 < s.sem.count := fun hpos => by
    rw [(Ring.toList_eq_nil_iff _).mpr (h.isEmpty_of_pos hpos)] at hwaiting
    exact List.not_mem_nil hwaiting
  have hadmitted : admitted = [] := by
    apply List.eq_nil_iff_forall_not_mem.mpr
    intro t ht
    rw [h.threads.admitted_iff] at ht
    by_cases htr : t = r
    · rw [htr, hblocked] at ht
      exact ht
    · rw [hidle t htr] at ht
      exact ht
  have hbalance := h.balance
  have htotal := h.total
  simp only [hnetwork, hadmitted, Network.unsignalled, List.length_nil] at hbalance
  simp only [hnetwork, Network.unqueued] at htotal
  rw [pos_iff] at hcount
  omega

end

lemma Inv.full_iff {datagram : Datagram} (h : Inv s admitted)
    (hnetwork : s.network = .check datagram) :
    s.recvQueue.IsFull ↔ s.datagrams.length = s.taken.length + 31 := by
  have htotal := h.total
  simp only [hnetwork, Network.unqueued] at htotal
  have hmax : recvQueueSize = 32 := rfl
  rw [Ring.isFull_iff]
  omega

lemma Inv.kept {e : Event} {s' : State} (h : Inv s admitted)
    (hstep : SocketQueue.step s e = some s') :
    s'.kept = s.kept ++ e.arrivals ∨
      s'.kept = s.datagrams ∧ s.datagrams.length = s.taken.length + 31 := by
  cases e with
  | deliver datagram =>
    simp only [SocketQueue.step, Option.ite_none_right_eq_some, Option.some.injEq] at hstep
    obtain ⟨⟨hidle, _⟩, rfl⟩ := hstep
    exact .inl (by simp [State.kept, hidle, Event.arrivals])
  | network =>
    rw [Event.arrivals, List.append_nil]
    refine (networkStep_kept hstep).imp_right ?_
    rintro ⟨hkept, hfull, datagram, hnetwork⟩
    exact ⟨hkept, (h.full_iff hnetwork).mp hfull⟩
  | recvfrom t call =>
    simp only [SocketQueue.step, Option.ite_none_right_eq_some, Option.some.injEq] at hstep
    obtain ⟨_, rfl⟩ := hstep
    exact .inl (List.append_nil _).symm
  | receiver t =>
    rw [Event.arrivals, List.append_nil]
    exact .inl (receiverStep_kept hstep)

/-- With one receiving thread the socket is a queue in every interleaving. -/
theorem fifo_of_only (hs : system.ReachableVia (Only r) s) : Fifo s r := by
  have hsettled := settled_of_only hs
  obtain ⟨hvia, hidle⟩ := exclusive_of_among (among_of_only hs)
  have hidle' : ∀ t, t ≠ r → s.receivers t = .idle := fun t ht => hidle t (by simpa using ht)
  obtain ⟨admitted, h⟩ := inv_of_exclusive hvia
  have hlength : s.freed.length = s.returned.length := by rw [← h.returned, List.length_map]
  have hfreed := h.freed_eq hsettled
  refine ⟨fun _ => h.full_iff, fun _ _ => h.kept, ?_, hlength ▸ hfreed, h.failures, ?_,
    h.goes_on hidle'⟩
  · intro i ret hret
    have hindex : ret.datagram = i := by
      have hmap : s.freed[i]? = some ret.datagram := by
        rw [← h.returned, List.getElem?_map, hret]
        rfl
      rw [hfreed, List.getElem?_range (hlength ▸ (List.getElem?_eq_some_iff.mp hret).1)] at hmap
      exact (Option.some.inj hmap).symm
    obtain ⟨datagram, hdatagram, heq⟩ := h.received ret (List.mem_of_getElem? hret)
    rw [hindex] at hdatagram heq
    exact ⟨datagram, hdatagram, heq⟩
  · intro call hblocked hnetwork
    exact h.blocks_empty hidle' hblocked hnetwork

def delivery (b : UInt8) : List Event :=
  .deliver (oneByte b) :: List.replicate 4 .network

def reception (t : Tid) : List Event :=
  .recvfrom t ⟨1, true⟩ :: List.replicate 4 (.receiver t)

theorem fifo_of_only_two_returned :
    ∃ s, system.ReachableVia (Only 4) s ∧ s.returned.map (·.payload) = [[1], [2]] ∧
      s.datagrams.length = 3 ∧ Fifo s 4 := by
  obtain ⟨s, hs, hstate⟩ := System.Reachable.exists_of_run_any (S := system.guard (Only 4))
    (.init initState_initial)
    (delivery 1 ++ reception 4 ++ delivery 2 ++ delivery 3 ++ reception 4)
    (fun s => decide (s.returned.map (·.payload) = [[1], [2]] ∧ s.datagrams.length = 3))
    (by decide +kernel)
  obtain ⟨hreturned, hdatagrams⟩ := of_decide_eq_true hstate
  have hvia := System.reachableVia_of_guard hs
  exact ⟨s, hvia, hreturned, hdatagrams, fifo_of_only hvia⟩

/-! ## Several receivers -/

structure ExactlyOnce (s : State) : Prop where
  returned : (s.returned.map (·.datagram)).Nodup
  freed : s.freed.Nodup

/-- Each datagram is returned and freed at most once while no receiver reads a
slot that another one is about to leave behind. -/
theorem exactlyOnce_of_exclusive (hs : system.ReachableVia Exclusive s) : ExactlyOnce s := by
  obtain ⟨admitted, h⟩ := inv_of_exclusive hs
  exact ⟨h.returned ▸ h.freed_nodup, h.freed_nodup⟩

theorem exactlyOnce_of_exclusive_two_receivers :
    ∃ s, system.ReachableVia Exclusive s ∧ s.returned.map (·.payload) = [[1], [2]] ∧
      ExactlyOnce s := by
  obtain ⟨s, hs, hstate⟩ := System.Reachable.exists_of_run_any (S := system.guard (Among [4, 5]))
    (.init initState_initial)
    (delivery 1 ++ delivery 2 ++ reception 4 ++ reception 5)
    (fun s => decide (s.returned.map (·.payload) = [[1], [2]])) (by decide +kernel)
  have hvia := (exclusive_of_among (System.reachableVia_of_guard hs)).1
  exact ⟨s, hvia, of_decide_eq_true hstate, exactlyOnce_of_exclusive hvia⟩

/-- Two threads are admitted together and read the same slot: the first datagram
is returned twice and its buffer freed twice, and the second is lost. -/
theorem datagram_returned_twice :
    ∃ s, system.Reachable s ∧ s.returned.map (·.payload) = [[1], [1]] ∧ s.freed = [0, 0] ∧
      s.datagrams.length = 2 := by
  obtain ⟨s, hs, hstate⟩ := System.Reachable.exists_of_run_any (S := system)
    (.init initState_initial)
    (delivery 1 ++ delivery 2 ++
      [.recvfrom 4 ⟨1, true⟩, .recvfrom 5 ⟨1, true⟩, .receiver 4, .receiver 5, .receiver 4,
        .receiver 5, .receiver 4, .receiver 5, .receiver 4, .receiver 5])
    (fun s => decide (s.returned.map (·.payload) = [[1], [1]] ∧ s.freed = [0, 0] ∧
      s.datagrams.length = 2)) (by decide +kernel)
  exact ⟨s, hs, of_decide_eq_true hstate⟩

end Cottage.SocketQueue
