import Cottage.Fs.MountChains

/-!
# Reduction of nodes terminates

Whatever is mounted and created, in any order, following the pointers from any
node ends, as long as the devtmpfs is never mounted on the node where the way
from its own root ends.
-/

namespace Cottage.Mounts

open Cottage.Vfs Cottage.Transition Cottage.PointerChain

variable {h : Heap} {K : NodePtr → Prop}

variable {s s' : State}

/-- The nodes that something may point to.  In the array of the devtmpfs only
the cells that its root counts are among them. -/
def Known (s : State) : NodePtr → Prop
  | .node id => id < s.heap.nextNode
  | .child array index =>
    array < s.heap.nextArray ∧
      ∀ root, s.devtmpfsRoot = some root → (s.heap.get root).children = some array →
        index < s.heap.count root

/-- Arrays belong to nodes that exist, and the one of the devtmpfs only to its
root. -/
structure Arrays (s : State) : Prop where
  children_lt : ∀ p array, (s.heap.get p).children = some array → array < s.heap.nextArray
  root : ∀ root, s.devtmpfsRoot = some root → ∃ id array, root = .node id ∧
    id < s.heap.nextNode ∧ (s.heap.get root).children = some array ∧
    0 ≤ (s.heap.get root).childrenCount ∧
    ∀ p, (s.heap.get p).children = some array → p = root

structure Sound (s : State) : Prop extends Arrays s where
  vfsRoot_lt : 0 < s.heap.nextNode
  confined : Confined (next s.heap) (Known s)
  handles : ∀ p ∈ s.handles, Known s p

lemma Known.extended (ha : Arrays s) (hx : Extends s.heap K h) {p : NodePtr}
    (hp : Known s p) : Known { s with heap := h } p := by
  cases p with
  | node id => exact Nat.lt_of_lt_of_le hp hx.nextNode_le
  | child array index =>
    refine ⟨hp.1.trans_le hx.nextArray_le, ?_⟩
    intro root hroot hchildren
    obtain ⟨id, _, rfl, hid, _⟩ := ha.root root hroot
    have hlt := hp.2 _ hroot ((hx.children_eq id hid).symm.trans hchildren)
    have hle := hx.count_le id hid
    simp only [Heap.count] at hlt ⊢
    omega

lemma Arrays.extended (ha : Arrays s) (hx : Extends s.heap K h) :
    Arrays { s with heap := h } where
  children_lt p array hp := by
    rcases hx.children_of p array hp with hold | ⟨_, hlt⟩
    · exact (ha.children_lt p array hold).trans_le hx.nextArray_le
    · exact hlt
  root root hroot := by
    obtain ⟨id, array, rfl, hid, hchildren, hcount, honly⟩ := ha.root root hroot
    refine ⟨id, array, rfl, hid.trans_le hx.nextNode_le, ?_, ?_, ?_⟩
    · rw [← hchildren]
      exact hx.children_eq id hid
    · exact Int.le_trans hcount (hx.count_le id hid)
    · intro p hp
      rcases hx.children_of p array hp with hold | ⟨hle, _⟩
      · exact honly p hold
      · exact absurd (ha.children_lt _ _ hchildren) (Nat.not_lt_of_le hle)

lemma Sound.closed (hs : Sound s) : Closed s.heap (Known s) where
  root := hs.vfsRoot_lt
  next p t _ ht := hs.confined.into p t ht
  child p name q hp hchild := by
    obtain ⟨array, i, rfl, harray, hi⟩ := nodeGetChild_eq_some hchild
    refine ⟨hs.children_lt p array harray, ?_⟩
    intro root hroot hchildren
    obtain ⟨_, array', _, _, hchildren', _, honly⟩ := hs.root root hroot
    cases hchildren.symm.trans hchildren'
    rwa [← honly p harray]

variable {s₁ : State} {name : Name} {parent target : NodePtr} {fuel : ℕ}

lemma Extends.sound (hx : Extends s₁.heap K h) (ha : Arrays s₁) (hroot : K vfsRoot)
    (hK : ∀ p, K p → Known { s₁ with heap := h } p) {handles : List NodePtr}
    (hhandles : ∀ p ∈ handles, K p) :
    Sound { s₁ with heap := h, handles := handles } where
  children_lt := (ha.extended hx).children_lt
  root := (ha.extended hx).root
  vfsRoot_lt := hK _ hroot
  confined := hx.confined.mono hK
  handles p hp := hK p (hhandles p hp)

lemma Sound.withHandle (hs : Sound s) {p : Option NodePtr} (hp : ∀ q, p = some q → Known s q) :
    Sound (s.returned s.heap p) := by
  refine ⟨⟨hs.children_lt, hs.root⟩, hs.vfsRoot_lt, hs.confined, ?_⟩
  intro q hq
  rcases List.mem_append.mp hq with hq | hq
  · exact hp q (Option.mem_toList.mp hq)
  · exact hs.handles q hq

def KnownOr (s : State) (node p : NodePtr) : Prop :=
  Known s p ∨ p = node

lemma KnownOr.not_node {id id' : ℕ} (hlt : id < id') (hle : s.heap.nextNode ≤ id') :
    ¬ KnownOr s (.node id) (.node id') := by
  rintro (hknown | heq)
  · exact absurd hknown (Nat.not_lt_of_le hle)
  · exact absurd (NodePtr.node.inj heq) (Nat.ne_of_gt hlt)

lemma freshNode_children {parent : Option NodePtr} {dir : Bool} {resource array : ℕ}
    (harray : (freshNode h parent name dir resource).children = some array) :
    array = h.nextArray ∧ dir = true ∧
      (freshNode h parent name dir resource).childrenCount = 0 := by
  cases dir with
  | false => cases harray
  | true => exact ⟨(Option.some.inj harray).symm, rfl, rfl⟩

lemma Sound.extends_tmpfsNode (hs : Sound s) (parent : NodePtr) (name : Name) (mode : ℕ) :
    Extends s.heap (KnownOr s (.node s.heap.nextNode))
      (tmpfsCreateNode parent name mode s.heap).1 := by
  apply Extends.tmpfsNode
  exact extends_self s.heap (hs.confined.mono fun p hp => .inl hp)

lemma Sound.createIn (hs : Sound s) {mode : ℕ} (hparent : Known s parent)
    (hcreate : createIn parent name mode s.heap = some (h, target)) :
    target = .node s.heap.nextNode ∧
      Extends s.heap (KnownOr s (.node s.heap.nextNode)) h ∧ s.heap.nextNode < h.nextNode := by
  obtain ⟨h₁, hmade, _, hget, _, hnextNode, hnextArray, _⟩ :=
    tmpfsCreateNode_spec parent name mode s.heap
  have hx := hs.extends_tmpfsNode parent name mode
  rw [hmade] at hx
  have hself := hget (.node s.heap.nextNode)
  rw [if_pos rfl] at hself
  simp only [Vfs.createIn, hmade] at hcreate
  obtain ⟨h₂, hadd, hrest⟩ := Option.bind_eq_some_iff.mp hcreate
  obtain ⟨array, harray, _⟩ := Option.map_eq_some_iff.mp hadd
  have hx₂ : Extends s.heap (KnownOr s (.node s.heap.nextNode)) h₂ := by
    refine hx.addChild harray ?_ ?_ hadd
    · intro a ha
      rw [hself] at ha
      obtain ⟨rfl, hdir, _⟩ := freshNode_children ha
      rw [hnextArray, if_pos hdir]
      exact ⟨le_rfl, Nat.lt_succ_self _⟩
    · have hend : next h₁ (.node s.heap.nextNode) = none := by
        rw [next, hself]
        rfl
      rw [hend]
      exact hx.confined.update_none _
  obtain ⟨hnextNode₂, _, hframe⟩ := vfsAddChild_frame hadd
  have hself₂ : h₂.get (.node s.heap.nextNode) =
      freshNode s.heap (some parent) name (statIsDir mode) (s.heap.nextResource + 1) := by
    rw [hframe, hself]
    rintro rfl
    exact absurd hparent (Nat.lt_irrefl _)
  have hlt : s.heap.nextNode < h₂.nextNode := by
    omega
  split_ifs at hrest
  · obtain ⟨h₃, hdots, heq⟩ := Option.bind_eq_some_iff.mp hrest
    obtain ⟨rfl, rfl⟩ := Prod.mk.inj (Option.some.inj heq)
    have hdotted {h₀ : Heap} (hx : Extends h₀ (KnownOr s (.node s.heap.nextNode)) h₂) :
        Extends h₀ (KnownOr s (.node s.heap.nextNode)) h₃ := by
      refine hx.dotentries hlt (.inr rfl) (.inl hparent) ?_ ?_ hdots
      · intro id hid
        exact KnownOr.not_node (hlt.trans_le hid) (hlt.le.trans hid)
      · intro array harray
        rw [hself₂] at harray ⊢
        obtain ⟨rfl, _, hcount⟩ := freshNode_children harray
        rw [hcount]
        refine ⟨Int.le_refl 0, ?_⟩
        rintro i _ (hknown | heq)
        · exact absurd hknown.1 (Nat.lt_irrefl _)
        · cases heq
    have hle := (hdotted (extends_self h₂ hx₂.confined)).nextNode_le
    exact ⟨rfl, hdotted hx₂, hlt.trans_le hle⟩
  · cases hrest
    exact ⟨rfl, hx₂, hlt⟩

lemma Sound.create (hs : Sound s) {mode : ℕ} {node : Option NodePtr} {errno : Option Errno}
    (hparent : Known s parent)
    (hcreate : internalCreate fuel parent name mode s.heap = some (h, node, errno)) :
    Sound (s.returned h node) := by
  obtain ⟨found, hfound, hrest⟩ := Option.bind_eq_some_iff.mp hcreate
  have hin := hs.closed.path2node hparent hfound
  cases hnode : found.node with
  | some existing =>
    rw [hnode] at hrest
    obtain ⟨rfl, heq⟩ := Prod.mk.inj (Option.some.inj hrest)
    cases heq
    exact hs.withHandle fun q hq => (by cases hq)
  | none =>
    cases hp : found.parent with
    | none =>
      rw [hnode, hp] at hrest
      obtain ⟨rfl, heq⟩ := Prod.mk.inj (Option.some.inj hrest)
      cases heq
      exact hs.withHandle fun q hq => (by cases hq)
    | some parentOfTgt =>
      rw [hnode, hp] at hrest
      obtain ⟨basename, _, hrest⟩ := Option.bind_eq_some_iff.mp hrest
      obtain ⟨⟨h₁, target⟩, hin', hrest⟩ := Option.bind_eq_some_iff.mp hrest
      obtain ⟨rfl, heq⟩ := Prod.mk.inj (Option.some.inj hrest)
      cases heq
      obtain ⟨rfl, hx, hlt⟩ := hs.createIn (hin.parent _ hp).1 hin'
      refine hx.sound hs.toArrays (.inl hs.vfsRoot_lt) ?_ ?_
      · rintro p (hknown | rfl)
        · exact Known.extended hs.toArrays hx hknown
        · exact hlt
      · intro p hp
        rcases List.mem_cons.mp hp with rfl | hp
        · exact .inr rfl
        · exact .inl (hs.handles p hp)

lemma mountNode_cases {fs : Fsid} {node : NodePtr}
    (hmount : mountNode fs parent name s = (s', node)) :
    (fs = .devtmpfs ∧ s.devtmpfsRoot = some node ∧ s' = s) ∨
      (node = .node s.heap.nextNode ∧ s'.handles = s.handles ∧
        s'.heap = (tmpfsCreateNode parent name (0o644 ||| statIfdir) s.heap).1 ∧
        (s'.devtmpfsRoot = s.devtmpfsRoot ∨ s'.devtmpfsRoot = some node)) := by
  unfold mountNode at hmount
  split at hmount
  · next hroot =>
      cases hmount
      exact .inl ⟨rfl, hroot, rfl⟩
  · cases hmount
    exact .inr ⟨rfl, rfl, rfl, .inr rfl⟩
  · cases hmount
    exact .inr ⟨rfl, rfl, rfl, .inl rfl⟩

structure Mountable (s s₁ : State) (node : NodePtr) : Prop where
  arrays : Arrays s₁
  handles : s₁.handles = s.handles
  nextNode_le : s.heap.nextNode ≤ s₁.heap.nextNode
  known : ∀ p, KnownOr s node p → Known s₁ p
  confined : Confined (next s₁.heap) (KnownOr s node)
  next_eq : ∀ p, Known s p → next s₁.heap p = next s.heap p
  object : ∃ id, node = .node id
  cells : ∀ array, (s₁.heap.get node).children = some array →
    0 ≤ (s₁.heap.get node).childrenCount ∧
      ∀ i, s₁.heap.count node ≤ i → ¬ KnownOr s node (.child array i)

lemma Sound.mountable_root (hs : Sound s) {root : NodePtr}
    (hroot : s.devtmpfsRoot = some root) : Mountable s s root := by
  obtain ⟨id, array, rfl, hid, hchildren, hcount, _⟩ := hs.root root hroot
  refine ⟨hs.toArrays, rfl, le_rfl, ?_, hs.confined.mono fun p hp => .inl hp, fun _ _ => rfl,
    ⟨id, rfl⟩, ?_⟩
  · rintro p (hknown | rfl)
    · exact hknown
    · exact hid
  · intro array' harray'
    refine ⟨hcount, ?_⟩
    rintro i hi (hknown | heq)
    · exact absurd (hknown.2 _ hroot harray') (Nat.not_lt_of_le hi)
    · cases heq

lemma Sound.mountable_fresh (hs : Sound s) (hhandles : s₁.handles = s.handles)
    (hheap : s₁.heap = (tmpfsCreateNode parent name (0o644 ||| statIfdir) s.heap).1)
    (hroot : s₁.devtmpfsRoot = s.devtmpfsRoot ∨ s₁.devtmpfsRoot = some (.node s.heap.nextNode)) :
    Mountable s s₁ (.node s.heap.nextNode) ∧ next s₁.heap (.node s.heap.nextNode) = none := by
  obtain ⟨h₁, root₁, handles₁⟩ := s₁
  dsimp only at hhandles hheap hroot
  obtain ⟨h₁', hmade, _, hget, _, hnextNode, hnextArray, _⟩ :=
    tmpfsCreateNode_spec parent name (0o644 ||| statIfdir) s.heap
  have hx := hs.extends_tmpfsNode parent name (0o644 ||| statIfdir)
  have hdir : statIsDir (0o644 ||| statIfdir) = true := by decide
  rw [hmade] at hheap hx
  subst hheap hhandles
  have hself := hget (.node s.heap.nextNode)
  rw [if_pos rfl] at hself
  have hold {p : NodePtr} (hp : Known s p) : h₁.get p = s.heap.get p := by
    rw [hget, if_neg]
    rintro rfl
    exact absurd hp (Nat.lt_irrefl _)
  have hchildren : (h₁.get (.node s.heap.nextNode)).children = some s.heap.nextArray := by
    rw [hself]
    rfl
  have hlt : s.heap.nextNode < h₁.nextNode := by
    omega
  refine ⟨⟨?_, rfl, hx.nextNode_le, ?_, hx.confined, ?_, ⟨_, rfl⟩, ?_⟩, ?_⟩
  · refine ⟨(hs.toArrays.extended hx).children_lt, ?_⟩
    rcases hroot with rfl | rfl
    · exact (hs.toArrays.extended hx).root
    · intro root hroot
      cases hroot
      refine ⟨_, _, rfl, hlt, hchildren, ?_, ?_⟩
      · rw [hself]
        exact Int.le_refl 0
      · intro p hp
        by_contra hne
        rw [hget, if_neg hne] at hp
        exact absurd (hs.children_lt p _ hp) (Nat.lt_irrefl _)
  · rintro p (hknown | rfl)
    · rcases hroot with rfl | rfl
      · exact Known.extended hs.toArrays hx hknown
      · cases p with
        | node id => exact Nat.lt_of_lt_of_le hknown hx.nextNode_le
        | child array index =>
          refine ⟨hknown.1.trans_le hx.nextArray_le, ?_⟩
          intro root hroot harray
          cases hroot
          cases hchildren.symm.trans harray
          exact absurd hknown.1 (Nat.lt_irrefl _)
    · exact hlt
  · intro p hp
    rw [next, hold hp, next]
  · intro array harray
    cases hchildren.symm.trans harray
    rw [hself]
    refine ⟨Int.le_refl 0, ?_⟩
    rintro i _ (hknown | heq)
    · exact absurd hknown.1 (Nat.lt_irrefl _)
    · cases heq
  · rw [next, hself]
    rfl

lemma Mountable.sound {node : NodePtr} (hm : Mountable s s₁ node) (hs : Sound s)
    (htarget : Reduced s.heap (Known s) target) (hparent : Known s parent)
    (hne : ¬ Ends (next s₁.heap) node target)
    (hdots : dirCreateDotentries node parent (s₁.heap.set target
      { s₁.heap.get target with mountpoint := some node }) = some h) :
    Sound { s₁ with heap := h } := by
  obtain ⟨id, rfl⟩ := hm.object
  have hend : next s₁.heap target = none := by
    rw [hm.next_eq target htarget.1, htarget.2]
  obtain ⟨hredir, _⟩ := Option.or_eq_none_iff.mp hend
  have hpointer : Node.next { s₁.heap.get target with mountpoint := some (.node id) } =
      some (.node id) := by
    rw [Node.next]
    rw [hredir]
    rfl
  have hx : Extends s₁.heap (KnownOr s (.node id)) (s₁.heap.set target
      { s₁.heap.get target with mountpoint := some (.node id) }) := by
    refine (extends_self s₁.heap hm.confined).set rfl (Int.le_refl _) ?_
    rw [hpointer]
    exact hm.confined.update_end hend (.inr rfl) hne
  have hid : id < s₁.heap.nextNode := hm.known (.node id) (.inr rfl)
  have hself : ((s₁.heap.set target { s₁.heap.get target with
      mountpoint := some (.node id) }).get (.node id)).children =
        (s₁.heap.get (.node id)).children ∧
      ((s₁.heap.set target { s₁.heap.get target with
        mountpoint := some (.node id) }).get (.node id)).childrenCount =
          (s₁.heap.get (.node id)).childrenCount := by
    rw [Heap.get_set]
    split_ifs with heq
    · rw [heq]
      exact ⟨rfl, rfl⟩
    · exact ⟨rfl, rfl⟩
  have hx' := hx.dotentries (by rwa [Heap.set_nextNode]) (.inr rfl) (.inl hparent) ?_ ?_ hdots
  · refine hx'.sound hm.arrays (.inl hs.vfsRoot_lt) ?_ ?_
    · intro p hp
      exact Known.extended hm.arrays hx' (hm.known p hp)
    · intro p hp
      rw [hm.handles] at hp
      exact .inl (hs.handles p hp)
  · intro id' hid'
    rw [Heap.set_nextNode] at hid'
    exact KnownOr.not_node (hid.trans_le hid') (hm.nextNode_le.trans hid')
  · intro array harray
    rw [hself.1] at harray
    rw [Heap.count, hself.2]
    exact hm.cells array harray

lemma Sound.mountTarget (hs : Sound s) {parentOfTgt : NodePtr} {source path basename : Name}
    (hparent : Known s parent)
    (hmount : mountTarget s.heap fuel parent source path =
      some (some (target, parentOfTgt, basename))) :
    Reduced s.heap (Known s) target ∧ Known s parentOfTgt := by
  obtain ⟨valid, _, hrest⟩ := Option.bind_eq_some_iff.mp hmount
  cases valid with
  | false => cases Option.some.inj hrest
  | true =>
    obtain ⟨found, hfound, hrest⟩ := Option.bind_eq_some_iff.mp hrest
    have hin := hs.closed.path2node hparent hfound
    cases hnode : found.node with
    | none =>
      rw [hnode] at hrest
      cases Option.some.inj hrest
    | some node =>
      rw [hnode] at hrest
      dsimp only at hrest
      split_ifs at hrest
      · cases Option.some.inj hrest
      · obtain ⟨p, hp, heq⟩ := Option.map_eq_some_iff.mp hrest
        obtain ⟨rfl, hpair⟩ := Prod.mk.inj (Option.some.inj heq)
        cases hpair
        exact ⟨hin.node _ hnode, (hin.parent _ hp).1⟩

/-- The devtmpfs is not mounted on the node where the way from its root ends. -/
def Harmless (s : State) : Event → Prop
  | .mount fuel .devtmpfs parent source target =>
    ∀ root node parentOfTgt basename, s.devtmpfsRoot = some root →
      mountTarget s.heap fuel parent source target = some (some (node, parentOfTgt, basename)) →
      ¬ Ends (next s.heap) root node
  | _ => True

lemma Sound.mount (hs : Sound s) {fs : Fsid} {source target : Name} {ok : Bool}
    (hparent : Known s parent) (hok : Harmless s (.mount fuel fs parent source target))
    (hmount : fsMount fuel fs parent source target s = some (s', ok)) : Sound s' := by
  obtain ⟨found, hfound, hrest⟩ := Option.bind_eq_some_iff.mp hmount
  cases found with
  | none =>
    cases hrest
    exact hs
  | some found =>
    obtain ⟨node, parentOfTgt, basename⟩ := found
    obtain ⟨htarget, hparentOfTgt⟩ := hs.mountTarget hparent hfound
    cases hmade : mountNode fs parentOfTgt basename s with
    | mk s₁ root =>
      simp only [hmade] at hrest
      obtain ⟨h, hdots, heq⟩ := Option.bind_eq_some_iff.mp hrest
      cases heq
      rcases mountNode_cases hmade with ⟨rfl, hroot, rfl⟩ | ⟨rfl, hhandles, hheap, hroot⟩
      · have hne := hok root node parentOfTgt basename hroot hfound
        exact (hs.mountable_root hroot).sound hs htarget hparentOfTgt hne hdots
      · obtain ⟨hm, hend⟩ := hs.mountable_fresh hhandles hheap hroot
        refine hm.sound hs htarget hparentOfTgt ?_ hdots
        intro hends
        obtain rfl := (Ends.stop hend).unique hends
        exact absurd htarget.1 (Nat.lt_irrefl _)

/-! ## Runs -/

lemma Sound.step (hs : Sound s) {e : Event} (hok : Harmless s e)
    (hstep : system.step s e = some s') : Sound s' := by
  simp only [system] at hstep
  split_ifs at hstep with hparent
  have hparent := hs.handles _ hparent
  cases e with
  | mount fuel fs parent source target =>
    obtain ⟨⟨s₁, ok⟩, hmount, rfl⟩ := Option.map_eq_some_iff.mp hstep
    exact hs.mount hparent hok hmount
  | create fuel parent name mode =>
    obtain ⟨⟨h, node, errno⟩, hcreate, rfl⟩ := Option.map_eq_some_iff.mp hstep
    exact hs.create hparent hcreate
  | getNode fuel parent path =>
    obtain ⟨found, hfound, rfl⟩ := Option.map_eq_some_iff.mp hstep
    have hin := hs.closed.path2node hparent hfound
    exact hs.withHandle fun q hq => (hin.node q hq).1

lemma sound_init (hs : system.init s) : Sound s := by
  obtain rfl : s = ⟨fsInit, none, [vfsRoot]⟩ := hs
  have hblank (p : NodePtr) : (fsInit.get p).children = none ∧ next fsInit p = none := by
    cases p with
    | node id =>
      cases id with
      | zero => exact ⟨rfl, rfl⟩
      | succ id => exact ⟨rfl, rfl⟩
    | child array index => exact ⟨rfl, rfl⟩
  refine ⟨⟨?_, fun _ hroot => (by cases hroot)⟩, Nat.one_pos, ⟨?_, ?_⟩, ?_⟩
  · intro p array hp
    cases (hblank p).1.symm.trans hp
  · intro p t hp
    cases (hblank p).2.symm.trans hp
  · intro p
    exact ⟨p, .stop (hblank p).2⟩
  · intro p hp
    obtain rfl := List.mem_singleton.mp hp
    exact Nat.one_pos

def Reduces (h : Heap) : Prop :=
  ∀ p, ∃ fuel target, reduceNode h fuel p = some target ∧
    (h.get target).redir = none ∧ (h.get target).mountpoint = none

/-- From every node the way over redirections and mount points ends, after any
mounts other than a devtmpfs on the end of its own way. -/
theorem reduction_terminates (hs : system.ReachableVia Harmless s) : Reduces s.heap := by
  have hsound : Sound s :=
    hs.invariant (fun _ hinit => sound_init hinit) fun _ _ _ hs hok hstep => hs.step hok hstep
  intro p
  obtain ⟨r, hr⟩ := hsound.confined.ends p
  obtain ⟨fuel, hfuel⟩ := exists_reduceNode hr
  exact ⟨fuel, r, hfuel, Option.or_eq_none_iff.mp hr.next_eq_none⟩

theorem reduction_terminates_overmounted :
    ∃ s, system.ReachableVia Harmless s ∧ s.devtmpfsRoot = some (.node 1) ∧
      (s.heap.get (.node 1)).mountpoint = some (.node 4) ∧ Reduces s.heap := by
  have hrun : (system.run ⟨fsInit, none, [vfsRoot]⟩
      [.mount 3 .devtmpfs vfsRoot [] [slash], .mount 3 .tmpfs vfsRoot [] [slash]]).any
        (fun s : State => s.devtmpfsRoot = some (.node 1) ∧
          (s.heap.get (.node 1)).mountpoint = some (.node 4)) = true := by
    decide +kernel
  obtain ⟨s, hrun, hpointers⟩ := (Option.any_eq_true _ _).mp hrun
  obtain ⟨s₁, hstep₁, hrest⟩ := Option.bind_eq_some_iff.mp hrun
  obtain ⟨s₂, hstep₂, hnil⟩ := Option.bind_eq_some_iff.mp hrest
  obtain rfl := Option.some.inj hnil
  have hreached : system.ReachableVia Harmless s₂ := by
    have hok₂ : Harmless s₁ (.mount 3 .tmpfs vfsRoot [] [slash]) := trivial
    refine .step (.step (.init rfl) ?_ hstep₁) hok₂ hstep₂
    intro root _ _ _ hroot
    cases hroot
  obtain ⟨hroot, hmount⟩ := of_decide_eq_true hpointers
  exact ⟨s₂, hreached, hroot, hmount, reduction_terminates hreached⟩

def devPath : Name := [slash, 0x64, 0x65, 0x76]

/-- A devtmpfs that is mounted twice on the same path points to itself. -/
theorem reduction_cycles :
    ∃ s, system.Reachable s ∧ ∃ p, ∀ fuel, reduceNode s.heap fuel p = none := by
  have hinit : system.Reachable ⟨fsInit, none, [vfsRoot]⟩ := .init rfl
  obtain ⟨s, hs, hself⟩ := hinit.exists_of_run_any
    [.mount 3 .tmpfs vfsRoot [] [slash], .create 4 vfsRoot devPath (0o644 ||| statIfdir),
      .mount 4 .devtmpfs vfsRoot [] devPath, .mount 5 .devtmpfs vfsRoot [] devPath]
    (fun s : State => next s.heap (.node 7) = some (.node 7)) (by decide +kernel)
  have hself := of_decide_eq_true hself
  refine ⟨s, hs, .node 7, ?_⟩
  intro fuel
  induction fuel with
  | zero => rfl
  | succ fuel ih =>
    rw [reduceNode_succ, hself]
    exact ih

end Cottage.Mounts
