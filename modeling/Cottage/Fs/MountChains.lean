import Cottage.Fs.Mounts

/-!
# The pointers between nodes

`reduce_node` follows `redir` and `mountpoint`.  The pointers are made in three
ways.  A new alias points to a directory; nothing points to the alias.  A mount
of a tmpfs points from a node where the pointers end to a new node.  A mount of
the devtmpfs points from such a node to the one root of the devtmpfs, which is
fine unless the way from there ends at the same node.
-/

namespace Cottage.Mounts

open Cottage.Vfs Cottage.Transition Cottage.PointerChain Function

variable {h h' h₀ : Heap} {K : NodePtr → Prop}

/-- The pointer that `reduce_node` follows. -/
def Node.next (node : Node) : Option NodePtr :=
  node.redir.or node.mountpoint

def next (h : Heap) (p : NodePtr) : Option NodePtr :=
  Node.next (h.get p)

lemma reduceNode_succ (h : Heap) (fuel : ℕ) (p : NodePtr) :
    reduceNode h (fuel + 1) p =
      match next h p with
      | some target => reduceNode h fuel target
      | none => some p := by
  rw [reduceNode, next, Node.next]
  cases (h.get p).redir with
  | some target => rfl
  | none =>
    cases (h.get p).mountpoint with
    | some target => rfl
    | none => rfl

variable {fuel array id : ℕ} {p r parent newChild : NodePtr} {path : Name} {node : Node}

lemma ends_of_reduceNode (hr : reduceNode h fuel p = some r) : Ends (next h) p r := by
  induction fuel generalizing p with
  | zero => cases hr
  | succ fuel ih =>
    rw [reduceNode_succ] at hr
    cases hnext : next h p with
    | some target =>
      rw [hnext] at hr
      exact .step hnext (ih hr)
    | none =>
      rw [hnext] at hr
      cases hr
      exact .stop hnext

lemma exists_reduceNode (hr : Ends (next h) p r) : ∃ fuel, reduceNode h fuel p = some r := by
  induction hr with
  | stop hnext =>
    refine ⟨1, ?_⟩
    rw [reduceNode_succ, hnext]
  | step hnext _ ih =>
    obtain ⟨fuel, hfuel⟩ := ih
    refine ⟨fuel + 1, ?_⟩
    rw [reduceNode_succ, hnext]
    exact hfuel

lemma nodeGetChild_eq_some {q : NodePtr} {name : Name} (hchild : nodeGetChild h p name = some q) :
    ∃ array i, q = .child array i ∧ (h.get p).children = some array ∧ i < h.count p := by
  obtain ⟨array, harray, hrest⟩ := Option.bind_eq_some_iff.mp hchild
  obtain ⟨i, hi, rfl⟩ := Option.map_eq_some_iff.mp hrest
  exact ⟨array, i, rfl, harray, List.mem_range.mp (List.mem_of_find?_eq_some hi)⟩

structure Closed (h : Heap) (K : NodePtr → Prop) : Prop where
  root : K vfsRoot
  next : ∀ p t, K p → next h p = some t → K t
  child : ∀ p name q, K p → nodeGetChild h p name = some q → K q

def Reduced (h : Heap) (K : NodePtr → Prop) (p : NodePtr) : Prop :=
  K p ∧ Mounts.next h p = none

lemma Closed.reduceNode (hc : Closed h K) (hp : K p) (hr : reduceNode h fuel p = some r) :
    Reduced h K r :=
  ⟨(ends_of_reduceNode hr).mem hc.next hp, (ends_of_reduceNode hr).next_eq_none⟩

structure FoundIn (h : Heap) (K : NodePtr → Prop) (found : Found) : Prop where
  node : ∀ p, found.node = some p → Reduced h K p
  parent : ∀ p, found.parent = some p → Reduced h K p

lemma foundIn_nowhere (errno : Option Errno) : FoundIn h K (.nowhere errno) :=
  ⟨fun _ hp => (by cases hp), fun _ hp => (by cases hp)⟩

def StartsIn (h : Heap) (K : NodePtr → Prop) : Found ⊕ NodePtr × Name → Prop
  | .inl found => FoundIn h K found
  | .inr (current, _) => K current

lemma Closed.pathStart (hc : Closed h K) {start : Found ⊕ NodePtr × Name} (hparent : K parent)
    (hstart : pathStart h vfsRoot fuel parent path = some start) : StartsIn h K start := by
  unfold Vfs.pathStart at hstart
  split_ifs at hstart with hempty hslash
  · cases hstart
    exact foundIn_nowhere _
  · obtain ⟨_, _, hrest⟩ := Option.bind_eq_some_iff.mp hstart
    obtain ⟨root, hroot, heq⟩ := Option.map_eq_some_iff.mp hrest
    have hreduced := hc.reduceNode hc.root hroot
    dsimp only at heq
    split_ifs at heq
    · obtain rfl := heq
      refine ⟨?_, ?_⟩
      · intro p hp
        exact Option.some.inj hp ▸ hreduced
      · intro p hp
        exact Option.some.inj hp ▸ hreduced
    · obtain rfl := heq
      exact hreduced.1
  · obtain ⟨current, hcurrent, hrest⟩ := Option.bind_eq_some_iff.mp hstart
    cases hrest
    exact (hc.reduceNode hparent hcurrent).1

lemma Closed.pathLoop (hc : Closed h K) {current : NodePtr} {found : Found}
    (hcurrent : K current) (hloop : pathLoop h vfsRoot fuel current path = some found) :
    FoundIn h K found := by
  induction fuel generalizing current path found with
  | zero => cases hloop
  | succ fuel ih =>
    obtain ⟨current', hreduce, hrest⟩ := Option.bind_eq_some_iff.mp hloop
    have hcurrent' := hc.reduceNode hcurrent hreduce
    cases hchild : nodeGetChild h current' (Separated.front slash path) with
    | none =>
      rw [hchild] at hrest
      split_ifs at hrest
      · cases hrest
        refine ⟨fun _ hp => (by cases hp), ?_⟩
        intro p hp
        exact Option.some.inj hp ▸ hcurrent'
      · cases hrest
        exact foundIn_nowhere _
    | some child =>
      rw [hchild] at hrest
      obtain ⟨newNode, hnew, hrest⟩ := Option.bind_eq_some_iff.mp hrest
      have hnewNode := hc.reduceNode (hc.child _ _ _ hcurrent'.1 hchild) hnew
      split_ifs at hrest
      · cases hrest
        refine ⟨?_, ?_⟩
        · intro p hp
          exact Option.some.inj hp ▸ hnewNode
        · intro p hp
          exact Option.some.inj hp ▸ hcurrent'
      · obtain ⟨linkParent, _, hrest⟩ := Option.bind_eq_some_iff.mp hrest
        obtain ⟨target, _, hrest⟩ := Option.bind_eq_some_iff.mp hrest
        obtain ⟨start, _, hrest⟩ := Option.bind_eq_some_iff.mp hrest
        have hlink (link : Found) (hrest : (if link.node = none then
            some (Found.nowhere link.errno)
            else Vfs.pathLoop h vfsRoot fuel newNode (Separated.rest slash path)) =
              some found) : FoundIn h K found := by
          split_ifs at hrest
          · cases hrest
            exact foundIn_nowhere _
          · exact ih hnewNode.1 hrest
        cases start with
        | inl link => exact hlink link hrest
        | inr start =>
          obtain ⟨link, _, hrest⟩ := Option.bind_eq_some_iff.mp hrest
          exact hlink link hrest
      · cases hrest
        exact foundIn_nowhere _
      · exact ih hnewNode.1 hrest

lemma Closed.path2node (hc : Closed h K) {found : Found} (hparent : K parent)
    (hfound : path2node h vfsRoot fuel parent path = some found) : FoundIn h K found := by
  obtain ⟨start, hstart, hrest⟩ := Option.bind_eq_some_iff.mp hfound
  have hin := hc.pathStart hparent hstart
  cases start with
  | inl found' =>
    cases hrest
    exact hin
  | inr start => exact hc.pathLoop hin hrest

/-! ## Growing heaps -/

lemma next_set (h : Heap) (p : NodePtr) (node : Node) :
    next (h.set p node) = update (next h) p (Node.next node) := by
  funext q
  rw [next, Heap.get_set, update_apply]
  split_ifs
  · rfl
  · rfl

/-- What has become of the heap `h₀` during a call: the arrays of its nodes are
still theirs and have at least as many elements, other arrays are new, and the
pointers lead into `K` and end. -/
structure Extends (h₀ : Heap) (K : NodePtr → Prop) (h : Heap) : Prop where
  nextNode_le : h₀.nextNode ≤ h.nextNode
  nextArray_le : h₀.nextArray ≤ h.nextArray
  children_of : ∀ p a, (h.get p).children = some a →
    (h₀.get p).children = some a ∨ h₀.nextArray ≤ a ∧ a < h.nextArray
  children_eq : ∀ id < h₀.nextNode, (h.get (.node id)).children = (h₀.get (.node id)).children
  count_le : ∀ id < h₀.nextNode,
    (h₀.get (.node id)).childrenCount ≤ (h.get (.node id)).childrenCount
  confined : Confined (next h) K

lemma extends_self (h : Heap) (hc : Confined (next h) K) : Extends h K h where
  nextNode_le := le_rfl
  nextArray_le := le_rfl
  children_of _ _ hp := .inl hp
  children_eq _ _ := rfl
  count_le _ _ := Int.le_refl _
  confined := hc

section

variable (hx : Extends h₀ K h)

include hx

lemma Extends.set (hchildren : node.children = (h.get p).children)
    (hcount : (h.get p).childrenCount ≤ node.childrenCount)
    (hc : Confined (update (next h) p (Node.next node)) K) :
    Extends h₀ K (h.set p node) where
  nextNode_le := by
    rw [Heap.set_nextNode]
    exact hx.nextNode_le
  nextArray_le := by
    rw [Heap.set_nextArray]
    exact hx.nextArray_le
  children_of q a hq := by
    rw [Heap.set_nextArray]
    apply hx.children_of
    rw [Heap.get_set] at hq
    split_ifs at hq with heq
    · rw [heq, ← hchildren, hq]
    · exact hq
  children_eq id hid := by
    rw [← hx.children_eq id hid, Heap.get_set]
    split_ifs with heq
    · rw [hchildren, heq]
    · rfl
  count_le id hid := by
    refine Int.le_trans (hx.count_le id hid) ?_
    rw [Heap.get_set]
    split_ifs with heq
    · rwa [heq]
    · exact Int.le_refl _
  confined := by
    rwa [next_set]

lemma Extends.setCell {index : ℕ}
    (hnew : ∀ a, node.children = some a → h₀.nextArray ≤ a ∧ a < h.nextArray)
    (hc : Confined (update (next h) (.child array index) (Node.next node)) K) :
    Extends h₀ K (h.set (.child array index) node) where
  nextNode_le := hx.nextNode_le
  nextArray_le := hx.nextArray_le
  children_of q a hq := by
    rw [Heap.get_set] at hq
    split_ifs at hq
    · exact .inr (hnew a hq)
    · exact hx.children_of q a hq
  children_eq := hx.children_eq
  count_le := hx.count_le
  confined := by
    rwa [next_set]

lemma Extends.fresh (hget : ∀ q, h'.get q = if q = .node h.nextNode then node else h.get q)
    (hnode : h.nextNode ≤ h'.nextNode) (harray : h.nextArray ≤ h'.nextArray)
    (hnew : ∀ a, node.children = some a → a = h.nextArray ∧ a < h'.nextArray)
    (hend : Node.next node = none) : Extends h₀ K h' := by
  have hne {id : ℕ} (hid : id < h₀.nextNode) : NodePtr.node id ≠ .node h.nextNode := by
    intro heq
    exact absurd (NodePtr.node.inj heq) (Nat.ne_of_lt (hid.trans_le hx.nextNode_le))
  refine ⟨hx.nextNode_le.trans hnode, hx.nextArray_le.trans harray, ?_, ?_, ?_, ?_⟩
  · intro q a hq
    rw [hget] at hq
    split_ifs at hq
    · obtain ⟨rfl, hlt⟩ := hnew a hq
      exact .inr ⟨hx.nextArray_le, hlt⟩
    · exact (hx.children_of q a hq).imp_right fun ⟨hlo, hhi⟩ => ⟨hlo, hhi.trans_le harray⟩
  · intro id hid
    rw [hget, if_neg (hne hid), hx.children_eq id hid]
  · intro id hid
    rw [hget, if_neg (hne hid)]
    exact hx.count_le id hid
  · have hnext : next h' = update (next h) (.node h.nextNode) none := by
      funext q
      rw [next, hget, update_apply]
      split_ifs
      · exact hend
      · rfl
    rw [hnext]
    exact hx.confined.update_none _

lemma Extends.createNode (parent : Option NodePtr) (name : Name) (dir : Bool) :
    Extends h₀ K (vfsCreateNode parent name dir h).1 := by
  refine hx.fresh (get_vfsCreateNode parent name dir h) (Nat.le_succ _)
    (grown_vfsCreateNode parent name dir h).nextArray_le ?_ rfl
  intro a ha
  cases dir with
  | false => cases ha
  | true =>
    cases ha
    exact ⟨rfl, Nat.lt_succ_self _⟩

lemma Extends.tmpfsNode (parent : NodePtr) (name : Name) (mode : ℕ) :
    Extends h₀ K (tmpfsCreateNode parent name mode h).1 := by
  refine hx.fresh (get_tmpfsCreateNode parent name mode h) (Nat.le_succ _)
    (grown_tmpfsCreateNode parent name mode h).nextArray_le ?_ rfl
  intro a ha
  have hlt : (tmpfsCreateNode parent name mode h).1.nextArray =
      if statIsDir mode then h.nextArray + 1 else h.nextArray := rfl
  rw [hlt]
  rw [freshNode] at ha
  split_ifs at ha with hdir
  cases ha
  rw [if_pos hdir]
  exact ⟨rfl, Nat.lt_succ_self _⟩

lemma Extends.withChild (p : NodePtr) : Extends h₀ K (h.set p (h.get p).withChild) := by
  refine hx.set rfl (Int.le_add_of_nonneg_right (by decide)) ?_
  have hself : Node.next (h.get p).withChild = next h p := rfl
  rw [hself, update_eq_self]
  exact hx.confined

end

lemma vfsAddChild_eq (harray : (h.get parent).children = some array) :
    vfsAddChild parent newChild h =
      some ((h.set (.child array (h.count parent)) (h.get newChild)).set parent
        ((h.set (.child array (h.count parent)) (h.get newChild)).get parent).withChild) := by
  rw [vfsAddChild, harray]
  rfl

lemma vfsAddChild_frame (hadd : vfsAddChild parent newChild h = some h') :
    h'.nextNode = h.nextNode ∧ h'.nextArray = h.nextArray ∧
      ∀ id, .node id ≠ parent → h'.get (.node id) = h.get (.node id) := by
  obtain ⟨array, harray, _⟩ := Option.map_eq_some_iff.mp hadd
  rw [vfsAddChild_eq harray] at hadd
  cases hadd
  refine ⟨?_, ?_, ?_⟩
  · rw [Heap.set_nextNode, Heap.set_nextNode]
  · rw [Heap.set_nextArray, Heap.set_nextArray]
  · intro id hne
    rw [Heap.get_set, if_neg hne, Heap.get_set, if_neg (by simp)]

lemma Extends.addChild (hx : Extends h₀ K h) (harray : (h.get parent).children = some array)
    (hnew : ∀ a, (h.get newChild).children = some a → h₀.nextArray ≤ a ∧ a < h.nextArray)
    (hc : Confined (update (next h) (.child array (h.count parent)) (next h newChild)) K)
    (hadd : vfsAddChild parent newChild h = some h') : Extends h₀ K h' := by
  rw [vfsAddChild_eq harray] at hadd
  cases hadd
  exact (hx.setCell hnew hc).withChild parent

lemma Extends.alias (hx : Extends h₀ K h) {target : NodePtr} (hid : ¬ K (.node id))
    (htarget : K target) :
    Extends h₀ K (h.set (.node id) { h.get (.node id) with redir := some target }) :=
  hx.set rfl (Int.le_refl _) (hx.confined.update_outside hid htarget)

/-- An alias of `target` in the directory `node`. -/
def aliasNode (h : Heap) (node : NodePtr) (name : Name) (target : NodePtr) : Node :=
  { freshNode h (some node) name false h.nextResource with redir := some target }

lemma get_makeDotentries (node parent : NodePtr) (h : Heap) :
    ∃ h₁ h', makeDotentries node parent h = (h', .node h.nextNode, .node (h.nextNode + 1)) ∧
      h'.nextArray = h.nextArray ∧
      ∀ q, h'.get q =
        if q = .node (h.nextNode + 1) then aliasNode h₁ node dotdot parent
        else if q = .node h.nextNode then aliasNode h node dot node else h.get q := by
  refine ⟨(vfsCreateNode (some node) dot false h).1, _, rfl, rfl, ?_⟩
  intro q
  have hdot : (vfsCreateNode (some node) dot false h).2 = .node h.nextNode := rfl
  have hdotdot : (vfsCreateNode (some node) dotdot false
      (vfsCreateNode (some node) dot false h).1).2 = .node (h.nextNode + 1) := rfl
  have hnextNode : (vfsCreateNode (some node) dot false h).1.nextNode = h.nextNode + 1 := rfl
  have hne : NodePtr.node h.nextNode ≠ .node (h.nextNode + 1) := by simp
  simp only [Heap.get_set, hdot, hdotdot, get_vfsCreateNode, hnextNode, if_neg hne.symm,
    if_neg hne, if_true]
  by_cases hq : q = .node (h.nextNode + 1)
  · rw [if_pos hq, if_pos hq]
    rfl
  · rw [if_neg hq, if_neg hq, if_neg hq]
    by_cases hq' : q = .node h.nextNode
    · rw [if_pos hq', if_pos hq']
      rfl
    · rw [if_neg hq', if_neg hq', if_neg hq']

lemma Extends.aliases (hx : Extends h₀ K h) {node : NodePtr} (hnode : K node)
    (hparent : K parent) (hnew : ∀ id, h.nextNode ≤ id → ¬ K (.node id)) :
    Extends h₀ K (makeDotentries node parent h).1 := by
  have hdots := (hx.createNode (some node) dot false).createNode (some node) dotdot false
  exact (hdots.alias (hnew _ le_rfl) hnode).alias (hnew _ (Nat.le_succ _)) hparent

lemma Extends.addAlias (hx : Extends h₀ K h) {entry target : NodePtr}
    (harray : (h.get (.node id)).children = some array) (hentry : (h.get entry).children = none)
    (hnext : next h entry = some target) (htarget : K target)
    (hcell : ¬ K (.child array (h.count (.node id))))
    (hadd : vfsAddChild (.node id) entry h = some h') :
    Extends h₀ K h' ∧ h'.get (.node id) = (h.get (.node id)).withChild ∧
      ∀ id', id' ≠ id → h'.get (.node id') = h.get (.node id') := by
  obtain ⟨_, hadd', _, hget⟩ := vfsAddChild_spec entry harray (by simp)
  cases hadd.symm.trans hadd'
  refine ⟨hx.addChild harray ?_ ?_ hadd, ?_, ?_⟩
  · intro a ha
    cases hentry.symm.trans ha
  · rw [hnext]
    exact hx.confined.update_outside hcell htarget
  · rw [hget, if_pos rfl]
  · intro id' hne
    rw [hget, if_neg (by simpa using hne), if_neg (by simp)]

lemma Extends.dotentries (hx : Extends h₀ K h) (hid : id < h.nextNode) (hnode : K (.node id))
    (hparent : K parent) (hnew : ∀ id, h.nextNode ≤ id → ¬ K (.node id))
    (hcells : ∀ array, (h.get (.node id)).children = some array →
      0 ≤ (h.get (.node id)).childrenCount ∧ ∀ i, h.count (.node id) ≤ i → ¬ K (.child array i))
    (hdots : dirCreateDotentries (.node id) parent h = some h') : Extends h₀ K h' := by
  obtain ⟨h₁, h₂, hmade, _, hget⟩ := get_makeDotentries (.node id) parent h
  have hx₂ : Extends h₀ K h₂ := by
    have hmade' := hx.aliases hnode hparent hnew
    rwa [hmade] at hmade'
  have hkept {q : NodePtr} (hq : K q) : h₂.get q = h.get q := by
    rw [hget, if_neg, if_neg]
    · rintro rfl
      exact hnew _ le_rfl hq
    · rintro rfl
      exact hnew _ (Nat.le_succ _) hq
  have hdot : h₂.get (.node h.nextNode) = aliasNode h (.node id) dot (.node id) := by
    rw [hget, if_neg (by simp), if_pos rfl]
  have hdotdot : h₂.get (.node (h.nextNode + 1)) = aliasNode h₁ (.node id) dotdot parent := by
    rw [hget, if_pos rfl]
  simp only [dirCreateDotentries, hmade] at hdots
  obtain ⟨h₃, hadd, hadd'⟩ := Option.bind_eq_some_iff.mp hdots
  obtain ⟨array, harray₂, _⟩ := Option.map_eq_some_iff.mp hadd
  have harray : (h.get (.node id)).children = some array := by
    rw [← hkept hnode, harray₂]
  obtain ⟨hcount, hcells⟩ := hcells array harray
  have hcell₂ : ¬ K (.child array (h₂.count (.node id))) := by
    apply hcells
    rw [Heap.count, Heap.count, hkept hnode]
  have htarget : next h₂ (.node h.nextNode) = some (.node id) := by
    rw [next, hdot]
    rfl
  obtain ⟨hx₃, hself, hother⟩ :=
    hx₂.addAlias harray₂ (by rw [hdot]; rfl) htarget hnode hcell₂ hadd
  rw [hkept hnode] at hself
  have hdotdot₃ := hother (h.nextNode + 1) (by omega)
  rw [hdotdot] at hdotdot₃
  have harray₃ : (h₃.get (.node id)).children = some array := by
    rw [hself, Node.withChild_children, harray]
  have hcell₃ : ¬ K (.child array (h₃.count (.node id))) := by
    apply hcells
    rw [Heap.count, Heap.count, hself, Node.withChild]
    dsimp only
    omega
  have htarget₃ : next h₃ (.node (h.nextNode + 1)) = some parent := by
    rw [next, hdotdot₃]
    rfl
  exact (hx₃.addAlias harray₃ (by rw [hdotdot₃]; rfl) htarget₃ hparent hcell₃ hadd').1

end Cottage.Mounts
