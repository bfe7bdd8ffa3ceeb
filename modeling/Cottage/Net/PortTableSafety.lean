import Cottage.Net.PortTable

/-!
# Consistency of the port table

The invariant behind it: threads that are entering a socket into the table work
on different sockets and different ports, and what they have written so far is
known from where they stand.  Everything else in the table and in the sockets
agrees.
-/

namespace Cottage.PortTable

open Net Transition Function

variable {T : Type}

def Pc.socket : Pc → Option ℕ
  | .idle => none
  | .bindCheck x _ | .bindLock x _ | .bindTest x _ | .bindAddr x _ | .bindTable x _
  | .bindState x _ | .bindUnlock x | .sendPort x | .sendScan x _ _ | .sendAddr x _
  | .sendState x _ | .sendTable x _ => some x

lemma Pc.socket_of_entering {pc : Pc} {x : ℕ} {p : UInt16} (h : pc.entering = some (x, p)) :
    pc.socket = some x := by
  cases pc with
  | bindTable | bindState | sendState | sendTable =>
    exact congrArg (Option.map Prod.fst) h
  | _ => cases h

def State.Halfway (s : State T) : Pc → Prop
  | .bindTable x addr => (s.sockets x).state = .closed ∧ s.udpPortTable (ntohs addr.port) = none
  | .bindState x addr => s.udpPortTable (ntohs addr.port) = some x
  | .sendState x port => (s.sockets x).state = .closed ∧ s.udpPortTable port = none
  | .sendTable x port => (s.sockets x).state = .bound ∧ s.udpPortTable port = none
  | _ => True

structure Inv (s : State T) : Prop where
  alone : ∀ t t' x p x' p', (s.pc t).entering = some (x, p) →
    (s.pc t').entering = some (x', p') → t ≠ t' → x ≠ x' ∧ p ≠ p'
  addr : ∀ t x p, (s.pc t).entering = some (x, p) → (s.sockets x).localAddr.port = htons p
  halfway : ∀ t, s.Halfway (s.pc t)
  entry : ∀ p x, s.udpPortTable p = some x → (s.sockets x).localAddr.port = htons p ∧
    ((s.sockets x).state = .bound ∨ ∃ t, (s.pc t).entering = some (x, p))
  bound : ∀ x, (s.sockets x).state = .bound → s.udpPortTable (s.sockets x).port = some x ∨
    ∃ t, (s.pc t).entering = some (x, (s.sockets x).port)
  known : ∀ t x, (s.pc t).socket = some x → x < s.socketCount
  known_entry : ∀ p x, s.udpPortTable p = some x → x < s.socketCount

variable {s s' : State T} {t : T} {x : ℕ} {p : UInt16}

lemma Inv.consistent (h : Inv s) (hquiet : s.Quiet) : Consistent s := by
  have hnone (t : T) (x : ℕ) (p : UInt16) : (s.pc t).entering ≠ some (x, p) := by
    rw [hquiet t]
    exact (Option.some_ne_none _).symm
  refine ⟨?_, ?_, ?_⟩
  · intro p p' x hp hp'
    have hport := (h.entry p x hp).1.symm.trans (h.entry p' x hp').1
    rw [← ntohs_htons p, hport, ntohs_htons]
  · intro p x hp
    obtain ⟨hport, hbound | ⟨t, ht⟩⟩ := h.entry p x hp
    · exact ⟨hbound, hport⟩
    · exact absurd ht (hnone t x p)
  · intro x _ hbound
    obtain hentry | ⟨t, ht⟩ := h.bound x hbound
    · exact hentry
    · exact absurd ht (hnone t x _)

lemma inv_of_initial (h : Initial s) : Inv s := by
  obtain ⟨htable, _, _, hclosed, hidle⟩ := h
  have hnone (t : T) (x : ℕ) (p : UInt16) : (s.pc t).entering ≠ some (x, p) := by
    rw [hidle t]
    exact (Option.some_ne_none _).symm
  refine ⟨?_, ?_, ?_, ?_, ?_, ?_, ?_⟩
  · exact fun t _ x p _ _ ht _ _ => absurd ht (hnone t x p)
  · exact fun t x p ht => absurd ht (hnone t x p)
  · intro t
    rw [hidle t]
    trivial
  · intro p x hp
    rw [htable p] at hp
    cases hp
  · intro x hbound
    rw [hclosed x] at hbound
    cases hbound
  · intro t x ht
    rw [hidle t] at ht
    cases ht
  · intro p x hp
    rw [htable p] at hp
    cases hp

section

variable [DecidableEq T]

lemma pc_setPc (s : State T) (t u : T) (pc : Pc) :
    (s.setPc t pc).pc u = if u = t then pc else s.pc u :=
  update_apply s.pc t pc u

lemma Inv.setPc (h : Inv s) {pc : Pc} (hbefore : (s.pc t).entering = none)
    (hafter : pc.entering = none) (hhalf : s.Halfway pc)
    (hsocket : ∀ x, pc.socket = some x → x < s.socketCount) : Inv (s.setPc t pc) := by
  have hentering (u : T) : ((s.setPc t pc).pc u).entering = (s.pc u).entering := by
    rw [pc_setPc]
    split_ifs with hut
    · rw [hafter, hut, hbefore]
    · rfl
  refine ⟨?_, ?_, ?_, ?_, ?_, ?_, h.known_entry⟩
  · intro u u' x p x' p'
    rw [hentering, hentering]
    exact h.alone u u' x p x' p'
  · intro u x p
    rw [hentering]
    exact h.addr u x p
  · intro u
    rw [pc_setPc]
    split_ifs
    · exact hhalf
    · exact h.halfway u
  · intro p x hp
    simp only [hentering]
    exact h.entry p x hp
  · intro x hbound
    simp only [hentering]
    exact h.bound x hbound
  · intro u x
    rw [pc_setPc]
    split_ifs
    · exact hsocket x
    · exact h.known u x

omit [DecidableEq T] in
lemma Inv.setLock (h : Inv s) (held : Bool) : Inv (s.setLock held) :=
  ⟨h.alone, h.addr, h.halfway, h.entry, h.bound, h.known, h.known_entry⟩

omit [DecidableEq T] in
lemma State.Halfway.congr {pc : Pc} (h : s.Halfway pc)
    (hstate : ∀ x p, pc.entering = some (x, p) → (s'.sockets x).state = (s.sockets x).state)
    (htable : ∀ x p, pc.entering = some (x, p) → s'.udpPortTable p = s.udpPortTable p) :
    s'.Halfway pc := by
  cases pc with
  | bindTable x addr =>
    rw [State.Halfway, hstate x _ rfl, htable x _ rfl]
    exact h
  | bindState x addr =>
    rw [State.Halfway, htable x _ rfl]
    exact h
  | sendState x port =>
    rw [State.Halfway, hstate x _ rfl, htable x _ rfl]
    exact h
  | sendTable x port =>
    rw [State.Halfway, hstate x _ rfl, htable x _ rfl]
    exact h
  | _ => trivial

omit [DecidableEq T] in
lemma State.Free.notMem (hfree : s.Free x p) (h : Inv s) (q : UInt16) :
    s.udpPortTable q ≠ some x := by
  intro hq
  obtain ⟨_, hbound | ⟨t, ht⟩⟩ := h.entry q x hq
  · cases hfree.1.symm.trans hbound
  · exact (hfree.2.2 t (x, q) ht).1 rfl

lemma Inv.claim (h : Inv s) {pc : Pc} {addr : NetAddr} (hfree : s.Free x p)
    (hbefore : (s.pc t).entering = none) (hknown : x < s.socketCount) (haddr : addr.port = htons p)
    (hafter : pc.entering = some (x, p)) (hsocket : pc.socket = some x) (hhalf : s.Halfway pc) :
    Inv ((s.setSocket x { s.sockets x with localAddr := addr }).setPc t pc) := by
  set s₁ := (s.setSocket x { s.sockets x with localAddr := addr }).setPc t pc with hs₁
  have hpc (u : T) : s₁.pc u = if u = t then pc else s.pc u := pc_setPc _ t u pc
  have hother {y : ℕ} (hy : y ≠ x) : s₁.sockets y = s.sockets y := update_of_ne hy _ _
  have hself : s₁.sockets x = { s.sockets x with localAddr := addr } := update_self _ _ _
  have hstate (y : ℕ) : (s₁.sockets y).state = (s.sockets y).state := by
    by_cases hy : y = x
    · rw [hy, hself]
    · rw [hother hy]
  have hkeep {u : T} {y : ℕ} {q : UInt16} (hu : (s.pc u).entering = some (y, q)) :
      (s₁.pc u).entering = some (y, q) := by
    rw [hpc, if_neg, hu]
    rintro rfl
    cases hbefore.symm.trans hu
  have hcases {u : T} {y : ℕ} {q : UInt16} (hu : (s₁.pc u).entering = some (y, q)) :
      (u = t ∧ y = x ∧ q = p) ∨ (u ≠ t ∧ (s.pc u).entering = some (y, q)) := by
    rw [hpc] at hu
    split_ifs at hu with hut
    · cases hafter.symm.trans hu
      exact .inl ⟨hut, rfl, rfl⟩
    · exact .inr ⟨hut, hu⟩
  refine ⟨?_, ?_, ?_, ?_, ?_, ?_, h.known_entry⟩
  · intro u u' y q y' q' hu hu' hne
    obtain ⟨hut, rfl, rfl⟩ | ⟨_, hold⟩ := hcases hu
    · obtain ⟨hut', _⟩ | ⟨_, hold'⟩ := hcases hu'
      · exact absurd (hut.trans hut'.symm) hne
      · exact ⟨(hfree.2.2 u' (y', q') hold').1.symm, (hfree.2.2 u' (y', q') hold').2.symm⟩
    · obtain ⟨_, rfl, rfl⟩ | ⟨_, hold'⟩ := hcases hu'
      · exact hfree.2.2 u (y, q) hold
      · exact h.alone u u' y q y' q' hold hold' hne
  · intro u y q hu
    obtain ⟨_, rfl, rfl⟩ | ⟨_, hold⟩ := hcases hu
    · rw [hself, haddr]
    · rw [hother (hfree.2.2 u (y, q) hold).1]
      exact h.addr u y q hold
  · intro u
    have hhalf' : s.Halfway (s₁.pc u) := by
      rw [hpc]
      split_ifs
      · exact hhalf
      · exact h.halfway u
    exact hhalf'.congr (fun y _ _ => hstate y) fun _ _ _ => rfl
  · intro q y hq
    have hy : y ≠ x := by
      rintro rfl
      exact hfree.notMem h q hq
    obtain ⟨hport, hbound⟩ := h.entry q y hq
    rw [hother hy]
    exact ⟨hport, hbound.imp_right fun ⟨u, hu⟩ => ⟨u, hkeep hu⟩⟩
  · intro y hbound
    rw [hstate] at hbound
    have hy : y ≠ x := by
      rintro rfl
      cases hfree.1.symm.trans hbound
    rw [hother hy]
    exact (h.bound y hbound).imp_right fun ⟨u, hu⟩ => ⟨u, hkeep hu⟩
  · intro u y hu
    rw [hpc] at hu
    split_ifs at hu
    · exact Option.some.inj (hsocket.symm.trans hu) ▸ hknown
    · exact h.known u y hu

lemma Inv.writeEntry (h : Inv s) {pc : Pc} (hbefore : (s.pc t).entering = some (x, p))
    (hfree : s.udpPortTable p = none) (hsocket : ∀ y, pc.socket = some y → y = x)
    (hknown : x < s.socketCount)
    (hafter : pc.entering = some (x, p) ∨ pc.entering = none ∧ (s.sockets x).state = .bound)
    (hhalf : (s.setEntry p x).Halfway pc) : Inv ((s.setEntry p x).setPc t pc) := by
  set s₁ := (s.setEntry p x).setPc t pc with hs₁
  have hpc (u : T) : s₁.pc u = if u = t then pc else s.pc u := pc_setPc _ t u pc
  have hother {q : UInt16} (hq : q ≠ p) : s₁.udpPortTable q = s.udpPortTable q :=
    update_of_ne hq _ _
  have hself : s₁.udpPortTable p = some x := update_self _ _ _
  have hkeep {u : T} {y : ℕ} {q : UInt16} (hu : (s.pc u).entering = some (y, q)) (hq : q ≠ p) :
      (s₁.pc u).entering = some (y, q) := by
    rw [hpc, if_neg, hu]
    rintro rfl
    exact hq (Prod.mk.inj (Option.some.inj (hu.symm.trans hbefore))).2
  have hcases {u : T} {y : ℕ} {q : UInt16} (hu : (s₁.pc u).entering = some (y, q)) :
      (s.pc u).entering = some (y, q) := by
    rw [hpc] at hu
    split_ifs at hu with hut
    · obtain hafter | ⟨hnone, _⟩ := hafter
      · rw [hut, hbefore, ← hafter, hu]
      · cases hnone.symm.trans hu
    · exact hu
  refine ⟨?_, ?_, ?_, ?_, ?_, ?_, ?_⟩
  · exact fun u u' y q y' q' hu hu' => h.alone u u' y q y' q' (hcases hu) (hcases hu')
  · exact fun u y q hu => h.addr u y q (hcases hu)
  · intro u
    rw [hpc]
    split_ifs with hut
    · exact hhalf.congr (fun _ _ _ => rfl) fun _ _ _ => rfl
    · refine (h.halfway u).congr (fun _ _ _ => rfl) fun y q hu => hother ?_
      exact (h.alone u t y q x p hu hbefore hut).2
  · intro q y hq
    by_cases hqp : q = p
    · subst hqp
      cases hself.symm.trans hq
      refine ⟨h.addr t x q hbefore, ?_⟩
      obtain hafter | ⟨_, hbound⟩ := hafter
      · exact .inr ⟨t, by rw [hpc, if_pos rfl, hafter]⟩
      · exact .inl hbound
    · rw [hother hqp] at hq
      obtain ⟨hport, hbound⟩ := h.entry q y hq
      exact ⟨hport, hbound.imp_right fun ⟨u, hu⟩ => ⟨u, hkeep hu hqp⟩⟩
  · intro y hbound
    have hbound' : (s.sockets y).state = .bound := hbound
    have hport : (s₁.sockets y).port = (s.sockets y).port := rfl
    rw [hport]
    by_cases hyp : (s.sockets y).port = p
    · left
      obtain hentry | ⟨u, hu⟩ := h.bound y hbound'
      · rw [hyp, hfree] at hentry
        cases hentry
      · by_cases hut : u = t
        · subst hut
          cases hbefore.symm.trans hu
          rw [hyp, hself]
        · exact absurd hyp (h.alone u t _ _ x p hu hbefore hut).2
    · rw [hother hyp]
      exact (h.bound y hbound').imp_right fun ⟨u, hu⟩ => ⟨u, hkeep hu hyp⟩
  · intro u y hu
    rw [hpc] at hu
    split_ifs at hu
    · exact hsocket y hu ▸ hknown
    · exact h.known u y hu
  · intro q y hq
    by_cases hqp : q = p
    · rw [hqp, hself] at hq
      exact Option.some.inj hq ▸ hknown
    · rw [hother hqp] at hq
      exact h.known_entry q y hq

lemma Inv.writeState (h : Inv s) {pc : Pc} (hbefore : (s.pc t).entering = some (x, p))
    (hsocket : pc.socket = some x) (hknown : x < s.socketCount)
    (hafter : pc.entering = some (x, p) ∨ pc.entering = none ∧ s.udpPortTable p = some x)
    (hhalf : (s.setSocket x { s.sockets x with state := .bound }).Halfway pc) :
    Inv ((s.setSocket x { s.sockets x with state := .bound }).setPc t pc) := by
  set s₁ := (s.setSocket x { s.sockets x with state := .bound }).setPc t pc with hs₁
  have hpc (u : T) : s₁.pc u = if u = t then pc else s.pc u := pc_setPc _ t u pc
  have hother {y : ℕ} (hy : y ≠ x) : s₁.sockets y = s.sockets y := update_of_ne hy _ _
  have hself : s₁.sockets x = { s.sockets x with state := .bound } := update_self _ _ _
  have haddr (y : ℕ) : (s₁.sockets y).localAddr = (s.sockets y).localAddr := by
    by_cases hy : y = x
    · rw [hy, hself]
    · rw [hother hy]
  have hport (y : ℕ) : (s₁.sockets y).port = (s.sockets y).port := by
    rw [Socket.port, haddr, Socket.port]
  have hkeep {u : T} {y : ℕ} {q : UInt16} (hu : (s.pc u).entering = some (y, q)) (hy : y ≠ x) :
      (s₁.pc u).entering = some (y, q) := by
    rw [hpc, if_neg, hu]
    rintro rfl
    exact hy (Prod.mk.inj (Option.some.inj (hu.symm.trans hbefore))).1
  have hcases {u : T} {y : ℕ} {q : UInt16} (hu : (s₁.pc u).entering = some (y, q)) :
      (s.pc u).entering = some (y, q) := by
    rw [hpc] at hu
    split_ifs at hu with hut
    · obtain hafter | ⟨hnone, _⟩ := hafter
      · rw [hut, hbefore, ← hafter, hu]
      · cases hnone.symm.trans hu
    · exact hu
  refine ⟨?_, ?_, ?_, ?_, ?_, ?_, h.known_entry⟩
  · exact fun u u' y q y' q' hu hu' => h.alone u u' y q y' q' (hcases hu) (hcases hu')
  · intro u y q hu
    rw [haddr]
    exact h.addr u y q (hcases hu)
  · intro u
    rw [hpc]
    split_ifs with hut
    · exact hhalf.congr (fun _ _ _ => rfl) fun _ _ _ => rfl
    · refine (h.halfway u).congr (fun y q hu => ?_) fun _ _ _ => rfl
      rw [hother (h.alone u t y q x p hu hbefore hut).1]
  · intro q y hq
    obtain ⟨hport, hbound⟩ := h.entry q y hq
    rw [haddr]
    refine ⟨hport, ?_⟩
    by_cases hy : y = x
    · rw [hy, hself]
      exact .inl rfl
    · rw [hother hy]
      exact hbound.imp_right fun ⟨u, hu⟩ => ⟨u, hkeep hu hy⟩
  · intro y hbound
    rw [hport]
    by_cases hy : y = x
    · subst hy
      have hyp : (s.sockets y).port = p := by
        rw [Socket.port, h.addr t y p hbefore, ntohs_htons]
      rw [hyp]
      obtain hafter | ⟨_, hentry⟩ := hafter
      · exact .inr ⟨t, by rw [hpc, if_pos rfl, hafter]⟩
      · exact .inl hentry
    · rw [hother hy] at hbound
      exact (h.bound y hbound).imp_right fun ⟨u, hu⟩ => ⟨u, hkeep hu hy⟩
  · intro u y hu
    rw [hpc] at hu
    split_ifs at hu
    · exact Option.some.inj (hsocket.symm.trans hu) ▸ hknown
    · exact h.known u y hu

/-! ## Runs -/

omit [DecidableEq T] in
lemma Inv.addSocket (h : Inv s) :
    Inv { s.setSocket s.socketCount Socket.new with socketCount := s.socketCount + 1 } := by
  set s₁ : State T := { s.setSocket s.socketCount Socket.new with
    socketCount := s.socketCount + 1 } with hs₁
  have hother {y : ℕ} (hy : y ≠ s.socketCount) : s₁.sockets y = s.sockets y :=
    update_of_ne hy _ _
  have hentering {u : T} {y : ℕ} {q : UInt16} (hu : (s.pc u).entering = some (y, q)) :
      y ≠ s.socketCount := by
    apply Nat.ne_of_lt
    exact h.known u y (Pc.socket_of_entering hu)
  refine ⟨h.alone, ?_, ?_, ?_, ?_, ?_, ?_⟩
  · intro u y q hu
    rw [hother (hentering hu)]
    exact h.addr u y q hu
  · intro u
    refine (h.halfway u).congr (fun y q hu => ?_) fun _ _ _ => rfl
    rw [hother (hentering hu)]
  · intro q y hq
    rw [hother (Nat.ne_of_lt (h.known_entry q y hq))]
    exact h.entry q y hq
  · intro y hbound
    have hy : y ≠ s.socketCount := by
      rintro rfl
      have hself : s₁.sockets s.socketCount = Socket.new := update_self _ _ _
      rw [hself] at hbound
      cases hbound
    rw [hother hy] at hbound ⊢
    exact h.bound y hbound
  · exact fun u y hu => Nat.lt_succ_of_lt (h.known u y hu)
  · exact fun q y hq => Nat.lt_succ_of_lt (h.known_entry q y hq)

lemma Inv.move (h : Inv s) {random : UInt32} (hok : Undisturbed s (.move t random))
    (hmove : move s t random = some s') : Inv s' := by
  have hhalf := h.halfway t
  have hknown := h.known t
  have hentering : ∀ pc, s.pc t = pc → (s.pc t).entering = pc.entering := fun _ => congrArg _
  simp only [PortTable.move] at hmove
  simp only [Undisturbed] at hok
  cases hpc : s.pc t <;> simp only [hpc, Option.some.injEq, reduceCtorEq] at hmove hknown hhalf hok
  case bindCheck x addr =>
    split_ifs at hmove <;> cases hmove
    · exact h.setPc (hentering _ hpc) rfl trivial fun _ hx => by cases hx
    · exact h.setPc (hentering _ hpc) rfl trivial hknown
  case bindLock x addr =>
    split_ifs at hmove
    cases hmove
    exact (h.setLock true).setPc (hentering _ hpc) rfl trivial hknown
  case bindTest x addr =>
    split_ifs at hmove <;> cases hmove
    · exact h.setPc (hentering _ hpc) rfl trivial hknown
    · exact h.setPc (hentering _ hpc) rfl trivial hknown
  case bindAddr x addr =>
    subst hmove
    have hfree := hok (x, _) rfl
    exact h.claim hfree (hentering _ hpc) (hknown x rfl) (ntohs_htons addr.port).symm rfl rfl
      ⟨hfree.1, hfree.2.1⟩
  case bindTable x addr =>
    subst hmove
    exact h.writeEntry (hentering _ hpc) hhalf.2 (fun _ hy => (Option.some.inj hy).symm)
      (hknown x rfl) (.inl rfl) (update_self _ _ _)
  case bindState x addr =>
    subst hmove
    exact h.writeState (hentering _ hpc) rfl (hknown x rfl) (.inr ⟨rfl, hhalf⟩) trivial
  case bindUnlock x =>
    subst hmove
    exact (h.setLock false).setPc (hentering _ hpc) rfl trivial fun _ hx => by cases hx
  case sendPort x =>
    split_ifs at hmove <;> cases hmove
    · exact h.setPc (hentering _ hpc) rfl trivial hknown
    · exact h.setPc (hentering _ hpc) rfl trivial fun _ hx => by cases hx
  case sendScan x start i =>
    split_ifs at hmove <;> cases hmove
    · exact h.setPc (hentering _ hpc) rfl trivial hknown
    · exact h.setPc (hentering _ hpc) rfl trivial hknown
    · exact h.setPc (hentering _ hpc) rfl trivial fun _ hx => by cases hx
  case sendAddr x port =>
    subst hmove
    have hfree := hok (x, _) rfl
    exact h.claim hfree (hentering _ hpc) (hknown x rfl) rfl rfl rfl ⟨hfree.1, hfree.2.1⟩
  case sendState x port =>
    subst hmove
    refine h.writeState (hentering _ hpc) rfl (hknown x rfl) (.inl rfl) ⟨?_, hhalf.2⟩
    have hself : (s.setSocket x { s.sockets x with state := .bound }).sockets x =
        { s.sockets x with state := .bound } := update_self _ _ _
    rw [hself]
  case sendTable x port =>
    subst hmove
    exact h.writeEntry (hentering _ hpc) hhalf.2 (fun _ hy => by cases hy)
      (hknown x rfl) (.inr ⟨rfl, hhalf.1⟩) trivial

lemma Inv.step (h : Inv s) {a : Event T} (hok : Undisturbed s a) (hstep : step s a = some s') :
    Inv s' := by
  cases a with
  | socket t =>
    simp only [PortTable.step] at hstep
    split_ifs at hstep
    cases hstep
    exact h.addSocket
  | bind t x addr =>
    simp only [PortTable.step] at hstep
    split_ifs at hstep with hidle
    cases hstep
    exact h.setPc (by rw [hidle.1]; rfl) rfl trivial fun y hy => Option.some.inj hy ▸ hidle.2
  | sendto t x =>
    simp only [PortTable.step] at hstep
    split_ifs at hstep with hidle
    cases hstep
    exact h.setPc (by rw [hidle.1]; rfl) rfl trivial fun y hy => Option.some.inj hy ▸ hidle.2
  | move t random => exact h.move hok hstep

/-- As long as addresses are written to free sockets for free ports, table and
sockets agree whenever no call is in progress. -/
theorem consistent_of_undisturbed (hs : (system T).ReachableVia Undisturbed s)
    (hquiet : s.Quiet) : Consistent s :=
  (hs.invariant (fun _ => inv_of_initial) fun _ _ _ h => h.step).consistent hquiet

end

/-! ## Two runs -/

theorem consistent_of_undisturbed_two_sockets :
    ∃ s : State (Fin 1), (system (Fin 1)).ReachableVia Undisturbed s ∧ s.Quiet ∧
      s.udpPortTable 7 = some 0 ∧ s.udpPortTable 49152 = some 1 ∧ Consistent s := by
  obtain ⟨s, hs, hstate⟩ := System.Reachable.exists_of_run_any
    (S := (system (Fin 1)).guard Undisturbed) (.init boot_initial)
    ([.socket 0, .socket 0, .bind 0 0 ⟨afIpv4, htons 7, 0⟩] ++ List.replicate 7 (.move 0 0) ++
      [.sendto 0 0, .move 0 0, .sendto 0 1] ++ List.replicate 5 (.move 0 0))
    (fun s => decide (s.Quiet ∧ s.udpPortTable 7 = some 0 ∧ s.udpPortTable 49152 = some 1))
    (by decide +kernel)
  obtain ⟨hquiet, hentry, hentry'⟩ := of_decide_eq_true hstate
  have hs' := System.reachableVia_of_guard hs
  exact ⟨s, hs', hquiet, hentry, hentry', consistent_of_undisturbed hs' hquiet⟩

/-- One thread binds a socket to port 0, which makes it look unbound to
`sys_sendto`: the socket ends up at two ports. -/
theorem socket_at_two_ports :
    ∃ s : State (Fin 1), (system (Fin 1)).Reachable s ∧ s.Quiet ∧
      s.udpPortTable 0 = some 0 ∧ s.udpPortTable 49152 = some 0 := by
  obtain ⟨s, hs, hstate⟩ := System.Reachable.exists_of_run_any (S := system (Fin 1))
    (.init boot_initial)
    ([.socket 0, .bind 0 0 ⟨afIpv4, 0, 0⟩] ++ List.replicate 7 (.move 0 0) ++ [.sendto 0 0] ++
      List.replicate 5 (.move 0 0))
    (fun s => decide (s.Quiet ∧ s.udpPortTable 0 = some 0 ∧ s.udpPortTable 49152 = some 0))
    (by decide +kernel)
  exact ⟨s, hs, of_decide_eq_true hstate⟩

end Cottage.PortTable
