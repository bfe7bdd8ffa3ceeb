import Cottage.Fs.VfsTree

/-!
# Creating a node

What `internal_create` does to the heap once it has found the parent: one new
element in the children array of the parent, one more child counted in the node
of the parent, and otherwise only objects that did not exist before.  The two
aliases of a new directory go into its array behind the back of the copy, which
counts no children yet.
-/

namespace Cottage.Vfs

open Function

variable {h h' h'' : Heap}

structure Grown (h h' : Heap) : Prop where
  nextNode_le : h.nextNode ≤ h'.nextNode
  nextArray_le : h.nextArray ≤ h'.nextArray
  nextResource_le : h.nextResource ≤ h'.nextResource
  modes_eq : ∀ r < h.nextResource, h'.modes r = h.modes r

lemma Grown.trans (hg : Grown h h') (hg' : Grown h' h'') : Grown h h'' where
  nextNode_le := Nat.le_trans hg.nextNode_le hg'.nextNode_le
  nextArray_le := Nat.le_trans hg.nextArray_le hg'.nextArray_le
  nextResource_le := Nat.le_trans hg.nextResource_le hg'.nextResource_le
  modes_eq r hr :=
    (hg'.modes_eq r (Nat.lt_of_lt_of_le hr hg.nextResource_le)).trans (hg.modes_eq r hr)

lemma grown_set (h : Heap) (p : NodePtr) (node : Node) : Grown h (h.set p node) where
  nextNode_le := (h.set_nextNode p node).ge
  nextArray_le := (h.set_nextArray p node).ge
  nextResource_le := (h.set_nextResource p node).ge
  modes_eq r _ := by rw [h.set_modes]

variable {q parent : NodePtr} {array : ℕ} {node : Node} {p d : Path}

lemma Grown.old (hg : Grown h h') (hq : h.Old q) : h'.Old q := by
  cases q with
  | node id => exact Nat.lt_of_lt_of_le hq hg.nextNode_le
  | child array index => exact Nat.lt_of_lt_of_le hq hg.nextArray_le

lemma Heap.Old.ne_nextNode (hq : h.Old q) : q ≠ .node h.nextNode := by
  rintro rfl
  exact Nat.lt_irrefl _ hq

lemma Heap.Old.ne_nextArray (hq : h.Old q) (i : ℕ) : q ≠ .child h.nextArray i := by
  rintro rfl
  exact Nat.lt_irrefl _ hq

def freshNode (h : Heap) (parent : Option NodePtr) (name : Name) (dir : Bool) (resource : ℕ) :
    Node where
  mountpoint := none
  redir := none
  resource := resource
  name := name
  parent := parent
  children := if dir then some h.nextArray else none
  childrenCount := if dir then 0 else -1
  symlinkTarget := none

lemma get_vfsCreateNode (parent : Option NodePtr) (name : Name) (dir : Bool) (h : Heap)
    (q : NodePtr) :
    (vfsCreateNode parent name dir h).1.get q =
      if q = .node h.nextNode then freshNode h parent name dir h.nextResource else h.get q := by
  cases q with
  | node id =>
    simp only [vfsCreateNode, Heap.get, update_apply, NodePtr.node.injEq, freshNode]
  | child array index => simp only [vfsCreateNode, Heap.get, reduceCtorEq, if_false]

lemma grown_vfsCreateNode (parent : Option NodePtr) (name : Name) (dir : Bool) (h : Heap) :
    Grown h (vfsCreateNode parent name dir h).1 where
  nextNode_le := Nat.le_succ _
  nextArray_le := by
    simp only [vfsCreateNode]
    split_ifs <;> omega
  nextResource_le := Nat.le_succ _
  modes_eq r hr := update_of_ne (Nat.ne_of_lt hr) _ _

lemma get_tmpfsCreateNode (parent : NodePtr) (name : Name) (mode : ℕ) (h : Heap) (q : NodePtr) :
    (tmpfsCreateNode parent name mode h).1.get q =
      if q = .node h.nextNode then
        freshNode h (some parent) name (statIsDir mode) (h.nextResource + 1)
      else h.get q := by
  have hcreate := get_vfsCreateNode (some parent) name (statIsDir mode) h
  have hget : (tmpfsCreateNode parent name mode h).1.get q =
      ((vfsCreateNode (some parent) name (statIsDir mode) h).1.set (.node h.nextNode)
        { freshNode h (some parent) name (statIsDir mode) h.nextResource with
          resource := h.nextResource + 1 }).get q := by
    have hself := hcreate (.node h.nextNode)
    rw [if_pos rfl] at hself
    rw [← hself]
    cases q <;> rfl
  rw [hget, Heap.get_set, hcreate]
  by_cases hq : q = .node h.nextNode
  · rw [if_pos hq, if_pos hq]
    rfl
  · rw [if_neg hq, if_neg hq, if_neg hq]

lemma grown_tmpfsCreateNode (parent : NodePtr) (name : Name) (mode : ℕ) (h : Heap) :
    Grown h (tmpfsCreateNode parent name mode h).1 where
  nextNode_le := Nat.le_succ _
  nextArray_le := (grown_vfsCreateNode (some parent) name (statIsDir mode) h).nextArray_le
  nextResource_le := Nat.le_add_right _ 2
  modes_eq r hr := by
    have hne : r ≠ h.nextResource + 1 := by omega
    refine (update_of_ne hne _ _).trans ?_
    rw [Heap.set_modes]
    exact (grown_vfsCreateNode (some parent) name (statIsDir mode) h).modes_eq r hr

lemma tmpfsCreateNode_spec (parent : NodePtr) (name : Name) (mode : ℕ) (h : Heap) :
    ∃ h', tmpfsCreateNode parent name mode h = (h', .node h.nextNode) ∧ Grown h h' ∧
      (∀ q, h'.get q =
        if q = .node h.nextNode then
          freshNode h (some parent) name (statIsDir mode) (h.nextResource + 1)
        else h.get q) ∧
      h'.modes (h.nextResource + 1) = mode ∧ h'.nextNode = h.nextNode + 1 ∧
      h'.nextArray = (if statIsDir mode then h.nextArray + 1 else h.nextArray) ∧
      h'.nextResource = h.nextResource + 2 :=
  ⟨_, rfl, grown_tmpfsCreateNode .., get_tmpfsCreateNode parent name mode h,
    update_self _ _ _, rfl, rfl, rfl⟩

def Node.withChild (node : Node) : Node :=
  { node with childrenCount := node.childrenCount + 1 }

@[simp] lemma Node.withChild_children (node : Node) :
    node.withChild.children = node.children := rfl

@[simp] lemma Node.withChild_resource (node : Node) :
    node.withChild.resource = node.resource := rfl

lemma vfsAddChild_spec (newChild : NodePtr) (hchildren : (h.get parent).children = some array)
    (hcell : parent ≠ .child array (h.count parent)) :
    ∃ h', vfsAddChild parent newChild h = some h' ∧ Grown h h' ∧
      ∀ q, h'.get q =
        if q = parent then (h.get parent).withChild
        else if q = .child array (h.count parent) then h.get newChild else h.get q := by
  refine ⟨_, by rw [vfsAddChild, hchildren, Option.map_some], ?_, ?_⟩
  · exact (grown_set h _ _).trans (grown_set _ _ _)
  · intro q
    simp only [Heap.get_set]
    by_cases hq : q = parent
    · have hcell' : parent ≠ .child array (h.get parent).childrenCount.toNat := hcell
      simp only [if_pos hq, if_neg hcell']
      rfl
    · simp only [if_neg hq]
      rfl

lemma makeDotentries_spec (node parent : NodePtr) (h : Heap) :
    ∃ h' dotEntry dotdotEntry, makeDotentries node parent h = (h', dotEntry, dotdotEntry) ∧
      Grown h h' ∧ ∀ q, h.Old q → h'.get q = h.get q := by
  have hgrown := grown_vfsCreateNode (some node) dot false h
  refine ⟨_, _, _, rfl, ?_, ?_⟩
  · exact ((hgrown.trans (grown_vfsCreateNode _ _ _ _)).trans (grown_set _ _ _)).trans
      (grown_set _ _ _)
  · intro q hq
    have hne : q ≠ (vfsCreateNode (some node) dot false h).2 := hq.ne_nextNode
    have hne' : q ≠ (vfsCreateNode (some node) dotdot false
        (vfsCreateNode (some node) dot false h).1).2 := (hgrown.old hq).ne_nextNode
    simp only [Heap.get_set, if_neg hne, if_neg hne']
    exact ((get_vfsCreateNode ..).trans (if_neg hne')).trans
      ((get_vfsCreateNode ..).trans (if_neg hne))

lemma dirCreateDotentries_spec {id : ℕ} (parent : NodePtr) (hid : id < h.nextNode)
    (hchildren : (h.get (.node id)).children = some array) :
    ∃ h', dirCreateDotentries (.node id) parent h = some h' ∧ Grown h h' ∧
      (h'.get (.node id)).resource = (h.get (.node id)).resource ∧
      ∀ q, h.Old q → q ≠ .node id → (∀ i, q ≠ .child array i) → h'.get q = h.get q := by
  obtain ⟨h₁, dotEntry, dotdotEntry, hmade, hgrown, hget⟩ := makeDotentries_spec (.node id) parent h
  have hself := hget (.node id) hid
  have hchildren₁ : (h₁.get (.node id)).children = some array := by rw [hself, hchildren]
  obtain ⟨h₂, hadd, hgrown₂, hget₂⟩ := vfsAddChild_spec dotEntry hchildren₁ (by simp)
  have hself₂ := hget₂ (.node id)
  rw [if_pos rfl] at hself₂
  have hchildren₂ : (h₂.get (.node id)).children = some array := by
    rw [hself₂, Node.withChild_children, hchildren₁]
  obtain ⟨h₃, hadd', hgrown₃, hget₃⟩ := vfsAddChild_spec dotdotEntry hchildren₂ (by simp)
  refine ⟨h₃, ?_, (hgrown.trans hgrown₂).trans hgrown₃, ?_, ?_⟩
  · simp only [dirCreateDotentries, hmade, hadd, Option.bind_some, hadd']
  · rw [hget₃, if_pos rfl, hself₂, Node.withChild_resource, Node.withChild_resource, hself]
  · intro q hq hne hcell
    rw [hget₃, if_neg hne, if_neg (hcell _), hget₂, if_neg hne, if_neg (hcell _)]
    exact hget q hq

structure Created (h h' : Heap) (parent : NodePtr) (array : ℕ) (node : Node) : Prop where
  grown : Grown h h'
  cell : h'.get (.child array (h.count parent)) = node
  parent_eq : h'.get parent = (h.get parent).withChild
  old : ∀ q, h.Old q → q ≠ parent → q ≠ .child array (h.count parent) → h'.get q = h.get q

lemma Created.of_frame (hparent : h.Old parent) (harray : array < h.nextArray)
    (hc : Created h h' parent array node) (hg : Grown h' h'')
    (hframe : ∀ q, h'.Old q → q ≠ .node h.nextNode → (∀ i, q ≠ .child h.nextArray i) →
      h''.get q = h'.get q) : Created h h'' parent array node := by
  have hold (q : NodePtr) (hq : h.Old q) : h''.get q = h'.get q :=
    hframe q (hc.grown.old hq) hq.ne_nextNode hq.ne_nextArray
  refine ⟨hc.grown.trans hg, ?_, ?_, ?_⟩
  · rw [hold (.child array _) harray, hc.cell]
  · rw [hold _ hparent, hc.parent_eq]
  · intro q hq hne hne'
    rw [hold q hq, hc.old q hq hne hne']

lemma createIn_spec (name : Name) (mode : ℕ) (hparent : h.Old parent)
    (harray : array < h.nextArray) (hchildren : (h.get parent).children = some array)
    (hcell : parent ≠ .child array (h.count parent)) :
    ∃ h' target, createIn parent name mode h = some (h', target) ∧
      Created h h' parent array
        (freshNode h (some parent) name (statIsDir mode) (h.nextResource + 1)) ∧
      (h'.get target).resource = h.nextResource + 1 ∧
      h.nextResource + 1 < h'.nextResource ∧ h'.modes (h.nextResource + 1) = mode ∧
      (statIsDir mode = true → h.nextArray < h'.nextArray) := by
  obtain ⟨h₁, hmade, hgrown, hget, hmode, hnextNode, hnextArray, hnextResource⟩ :=
    tmpfsCreateNode_spec parent name mode h
  have hsame : h₁.get parent = h.get parent := by rw [hget, if_neg hparent.ne_nextNode]
  have hcount : h₁.count parent = h.count parent := by rw [Heap.count, hsame, Heap.count]
  obtain ⟨h₂, hadd, hgrown₂, hget₂⟩ := vfsAddChild_spec (.node h.nextNode)
    (hsame ▸ hchildren) (hcount ▸ hcell)
  rw [hsame, hcount] at hget₂
  have htarget : h₂.get (.node h.nextNode) =
      freshNode h (some parent) name (statIsDir mode) (h.nextResource + 1) := by
    rw [hget₂, if_neg hparent.ne_nextNode.symm, if_neg (by simp), hget, if_pos rfl]
  have hcreated : Created h h₂ parent array
      (freshNode h (some parent) name (statIsDir mode) (h.nextResource + 1)) := by
    refine ⟨hgrown.trans hgrown₂, ?_, ?_, ?_⟩
    · rw [hget₂, if_neg hcell.symm, if_pos rfl, hget, if_pos rfl]
    · rw [hget₂, if_pos rfl]
    · intro q hq hne hne'
      rw [hget₂, if_neg hne, if_neg hne', hget, if_neg hq.ne_nextNode]
  have hmode₂ : h₂.modes (h.nextResource + 1) = mode := by
    rw [hgrown₂.modes_eq _ (by omega), hmode]
  have hresource₂ : h.nextResource + 1 < h₂.nextResource := by
    have hle := hgrown₂.nextResource_le
    omega
  simp only [createIn, hmade, hadd, Option.bind_eq_bind, Option.bind_some, htarget]
  have hfresh : (freshNode h (some parent) name (statIsDir mode) (h.nextResource + 1)).resource =
      h.nextResource + 1 := rfl
  rw [hfresh, hmode₂]
  by_cases hdir : statIsDir mode = true
  · have hid : h.nextNode < h₂.nextNode := by
      have hle := hgrown₂.nextNode_le
      omega
    have harray₂ : h.nextArray < h₂.nextArray := by
      have hle := hgrown₂.nextArray_le
      rw [if_pos hdir] at hnextArray
      omega
    have hchildren₂ : (h₂.get (.node h.nextNode)).children = some h.nextArray := by
      rw [htarget, freshNode, if_pos hdir]
    obtain ⟨h₃, hdots, hgrown₃, hresource, hsame₃⟩ :=
      dirCreateDotentries_spec parent hid hchildren₂
    refine ⟨h₃, .node h.nextNode, ?_, hcreated.of_frame hparent harray hgrown₃ hsame₃, ?_, ?_, ?_,
      ?_⟩
    · rw [if_pos hdir, hdots, Option.bind_some]
    · rw [hresource, htarget, hfresh]
    · exact Nat.lt_of_lt_of_le hresource₂ hgrown₃.nextResource_le
    · rw [hgrown₃.modes_eq _ hresource₂, hmode₂]
    · exact fun _ => Nat.lt_of_lt_of_le harray₂ hgrown₃.nextArray_le
  · refine ⟨h₂, .node h.nextNode, if_neg hdir, hcreated, ?_, hresource₂, hmode₂,
      fun hdir' => absurd hdir' hdir⟩
    rw [htarget, hfresh]

/-! ## The tree with the new entry -/

variable {t : Tree} {L : Layout}

lemma Rep.loc_eq (hr : Rep h t L) (hp : t.Exists p) :
    ∃ d c i, p = d ++ [c] ∧ t.IsDir d ∧ i < h.count (L.loc d) ∧
      L.loc p = .child (L.array d) i ∧ (h.get (.child (L.array d) i)).name = c := by
  have hne : p ≠ [] := by
    rintro rfl
    exact hr.nonroot hp
  have hsplit := List.dropLast_concat_getLast hne
  have hp' : t.Exists (p.dropLast ++ [p.getLast hne]) := by rwa [hsplit]
  obtain ⟨i, hi, hloc, hname⟩ := hr.cell _ _ hp'
  rw [hsplit] at hloc
  exact ⟨p.dropLast, p.getLast hne, i, hsplit.symm, hr.closed _ _ hp', hi, hloc, hname⟩

lemma Rep.loc_old (hr : Rep h t L) (hp : p = [] ∨ t.Exists p) : h.Old (L.loc p) := by
  rcases hp with rfl | hp
  · obtain ⟨id, hid, hold, _⟩ := hr.loc_root
    rwa [hid]
  · obtain ⟨d, c, i, _, hd, _, hloc, _⟩ := hr.loc_eq hp
    rw [hloc]
    exact hr.array_old d hd

lemma Rep.loc_ne_root (hr : Rep h t L) (hp : p = [] ∨ t.Exists p) : L.loc p ≠ vfsRoot := by
  rcases hp with rfl | hp
  · obtain ⟨id, hid, _, hne⟩ := hr.loc_root
    rwa [hid]
  · obtain ⟨d, c, i, _, _, _, hloc, _⟩ := hr.loc_eq hp
    rw [hloc]
    exact NodePtr.noConfusion

lemma Rep.loc_ne_next (hr : Rep h t L) (hd : t.IsDir d) (hp : p = [] ∨ t.Exists p) :
    L.loc p ≠ .child (L.array d) (h.count (L.loc d)) := by
  rcases hp with rfl | hp
  · obtain ⟨id, hid, _, _⟩ := hr.loc_root
    rw [hid]
    exact NodePtr.noConfusion
  · obtain ⟨d', c, i, _, hd', hi, hloc, _⟩ := hr.loc_eq hp
    rw [hloc]
    intro heq
    obtain ⟨harray, hindex⟩ := NodePtr.child.inj heq
    obtain rfl := hr.array_inj d' d hd' hd harray
    omega

lemma Rep.loc_inj (hr : Rep h t L) {q : Path} (hp : p = [] ∨ t.Exists p)
    (hq : q = [] ∨ t.Exists q) (heq : L.loc p = L.loc q) : p = q := by
  obtain ⟨id, hid, _, _⟩ := hr.loc_root
  rcases hp with rfl | hp
  · rcases hq with rfl | hq
    · rfl
    · obtain ⟨d, c, i, _, _, _, hloc, _⟩ := hr.loc_eq hq
      rw [hid, hloc] at heq
      cases heq
  · obtain ⟨d, c, i, rfl, hd, _, hloc, hname⟩ := hr.loc_eq hp
    rcases hq with rfl | hq
    · rw [hid, hloc] at heq
      cases heq
    · obtain ⟨d', c', i', rfl, hd', _, hloc', hname'⟩ := hr.loc_eq hq
      rw [hloc, hloc'] at heq
      obtain ⟨harray, hindex⟩ := NodePtr.child.inj heq
      rw [← hname, ← hname', hr.array_inj d d' hd hd' harray, hindex]

def Layout.extend (L : Layout) (p : Path) (ptr : NodePtr) (array : ℕ) : Layout where
  loc := update L.loc p ptr
  array := update L.array p array

lemma Layout.extend_loc_self (L : Layout) (p : Path) (ptr : NodePtr) (array : ℕ) :
    (L.extend p ptr array).loc p = ptr :=
  update_self _ _ _

lemma Layout.extend_array_self (L : Layout) (p : Path) (ptr : NodePtr) (array : ℕ) :
    (L.extend p ptr array).array p = array :=
  update_self _ _ _

lemma Layout.extend_loc_of_ne (L : Layout) {q : Path} (ptr : NodePtr) (array : ℕ) (hne : q ≠ p) :
    (L.extend p ptr array).loc q = L.loc q :=
  update_of_ne hne _ _

lemma Layout.extend_array_of_ne (L : Layout) {q : Path} (ptr : NodePtr) (array : ℕ)
    (hne : q ≠ p) : (L.extend p ptr array).array q = L.array q :=
  update_of_ne hne _ _

lemma Tree.exists_cons {e : Entry} : Tree.Exists (e :: t) p ↔ p = e.path ∨ t.Exists p := by
  simp only [Tree.Exists, List.mem_cons, exists_eq_or_imp]
  rw [eq_comm]

lemma Tree.isDir_cons {e : Entry} :
    Tree.IsDir (e :: t) p ↔ p = e.path ∧ e.dir = true ∨ t.IsDir p := by
  simp only [Tree.IsDir, List.mem_cons, exists_eq_or_imp]
  rw [or_left_comm, @eq_comm _ e.path p]

section

variable (hc : Created h h' parent array node) (hq : h.Old q)
  (hne : q ≠ .child array (h.count parent))

include hc hq hne

lemma Created.get_eq :
    ∃ k : ℕ, h'.get q = { h.get q with childrenCount := (h.get q).childrenCount + k } := by
  by_cases hparent : q = parent
  · exact ⟨1, by rw [hparent, hc.parent_eq]; rfl⟩
  · refine ⟨0, ?_⟩
    rw [hc.old q hq hparent hne]
    simp

lemma Created.name_eq : (h'.get q).name = (h.get q).name := by
  obtain ⟨k, hk⟩ := hc.get_eq hq hne
  rw [hk]

lemma Created.count_le : h.count q ≤ h'.count q := by
  obtain ⟨k, hk⟩ := hc.get_eq hq hne
  rw [Heap.count, Heap.count, hk]
  dsimp only
  omega

end

lemma Created.count_parent (hc : Created h h' parent array node)
    (hcount : 0 ≤ (h.get parent).childrenCount) : h'.count parent = h.count parent + 1 := by
  rw [Heap.count, Heap.count, hc.parent_eq, Node.withChild]
  dsimp only
  omega

lemma Rep.child_of_created (hr : Rep h t L) {e : Path} (hd : t.IsDir d)
    (hc : Created h h' (L.loc d) (L.array d) node) (he : t.IsDir e) {i : ℕ}
    (hi : i < h'.count (L.loc e)) :
    e = d ∧ i = h.count (L.loc d) ∨
      i < h.count (L.loc e) ∧
        (h'.get (.child (L.array e) i)).name = (h.get (.child (L.array e) i)).name := by
  have heroot := he.root_or_exists
  by_cases hcell : NodePtr.child (L.array e) i = .child (L.array d) (h.count (L.loc d))
  · obtain ⟨heq, hindex⟩ := NodePtr.child.inj hcell
    exact .inl ⟨hr.array_inj e d he hd heq, hindex⟩
  · have hi' : i < h.count (L.loc e) := by
      by_cases hed : e = d
      · subst hed
        rw [hc.count_parent (hr.children e hd).2] at hi
        have hindex : i ≠ h.count (L.loc e) := fun heq => hcell (by rw [heq])
        omega
      · have hloc_ne : L.loc e ≠ L.loc d := mt (hr.loc_inj heroot hd.root_or_exists) hed
        rwa [Heap.count, hc.old _ (hr.loc_old heroot) hloc_ne (hr.loc_ne_next hd heroot)] at hi
    have hold : h.Old (.child (L.array e) i) := hr.array_old e he
    exact .inr ⟨hi', hc.name_eq hold hcell⟩

lemma Rep.created (hr : Rep h t L) {c : Name} {mode : ℕ} (hd : t.IsDir d)
    (hnew : ¬ t.Exists (d ++ [c])) (hlnk : statIsLnk mode = false)
    (hc : Created h h' (L.loc d) (L.array d)
      (freshNode h (some (L.loc d)) c (statIsDir mode) (h.nextResource + 1)))
    (hresource : h.nextResource + 1 < h'.nextResource)
    (hmode : h'.modes (h.nextResource + 1) = mode)
    (harray : statIsDir mode = true → h.nextArray < h'.nextArray) :
    Rep h' (⟨d ++ [c], h.nextResource + 1, statIsDir mode⟩ :: t)
      (L.extend (d ++ [c]) (.child (L.array d) (h.count (L.loc d))) h.nextArray) := by
  have hne_root : ([] : Path) ≠ d ++ [c] := by simp
  have hne {p : Path} (hp : p = [] ∨ t.Exists p) : p ≠ d ++ [c] := by
    rintro rfl
    rcases hp with hnil | hp
    · exact hne_root hnil.symm
    · exact hnew hp
  have hdroot := hd.root_or_exists
  have hget {p : Path} (hp : p = [] ∨ t.Exists p) :=
    hc.get_eq (hr.loc_old hp) (hr.loc_ne_next hd hp)
  have hroot : h'.get vfsRoot = h.get vfsRoot :=
    hc.old _ hr.root_old (hr.loc_ne_root hdroot).symm NodePtr.noConfusion
  have hdir_root {p : Path} (hp : t.IsDir p) : p ≠ d ++ [c] := hne (hp.root_or_exists)
  constructor
  case closed =>
    intro e c' hexists
    rcases Tree.exists_cons.mp hexists with heq | hexists
    · obtain rfl : e = d := List.append_inj_left' heq rfl
      exact Tree.isDir_cons.mpr (.inr hd)
    · exact Tree.isDir_cons.mpr (.inr (hr.closed e c' hexists))
  case nonroot =>
    rw [Tree.exists_cons]
    rintro (heq | hexists)
    · exact hne_root heq
    · exact hr.nonroot hexists
  case root_redir => rw [hroot, hr.root_redir]
  case root_mountpoint => rw [hroot, hr.root_mountpoint, L.extend_loc_of_ne _ _ hne_root]
  case root_old => exact hc.grown.old hr.root_old
  case loc_root =>
    obtain ⟨id, hid, hold, hne'⟩ := hr.loc_root
    exact ⟨id, by rw [L.extend_loc_of_ne _ _ hne_root, hid], hc.grown.old hold, hne'⟩
  case plain =>
    intro p hp
    by_cases hpnew : p = d ++ [c]
    · subst hpnew
      rw [L.extend_loc_self, hc.cell]
      exact ⟨rfl, rfl⟩
    · have hp' : p = [] ∨ t.Exists p :=
        hp.imp_right fun hexists => (Tree.exists_cons.mp hexists).resolve_left hpnew
      obtain ⟨k, hk⟩ := hget hp'
      rw [L.extend_loc_of_ne _ _ hpnew, hk]
      exact hr.plain p hp'
  case children =>
    intro p hp
    rcases Tree.isDir_cons.mp hp with ⟨rfl, hdir⟩ | hp
    · dsimp only at hdir ⊢
      rw [L.extend_loc_self, L.extend_array_self, hc.cell, freshNode, hdir]
      exact ⟨rfl, Int.le_refl 0⟩
    · obtain ⟨k, hk⟩ := hget (hp.root_or_exists)
      obtain ⟨hchildren, hcount⟩ := hr.children p hp
      rw [L.extend_loc_of_ne _ _ (hdir_root hp), L.extend_array_of_ne _ _ (hdir_root hp), hk]
      exact ⟨hchildren, by dsimp only; omega⟩
  case array_old =>
    intro p hp
    rcases Tree.isDir_cons.mp hp with ⟨rfl, hdir⟩ | hp
    · rw [L.extend_array_self]
      exact harray hdir
    · rw [L.extend_array_of_ne _ _ (hdir_root hp)]
      exact Nat.lt_of_lt_of_le (hr.array_old p hp) hc.grown.nextArray_le
  case array_inj =>
    intro p q hp hq heq
    rcases Tree.isDir_cons.mp hp with ⟨rfl, _⟩ | hp
    · rcases Tree.isDir_cons.mp hq with ⟨rfl, _⟩ | hq
      · rfl
      · rw [L.extend_array_self, L.extend_array_of_ne _ _ (hdir_root hq)] at heq
        exact absurd heq.symm (Nat.ne_of_lt (hr.array_old q hq))
    · rcases Tree.isDir_cons.mp hq with ⟨rfl, _⟩ | hq
      · rw [L.extend_array_self, L.extend_array_of_ne _ _ (hdir_root hp)] at heq
        exact absurd heq (Nat.ne_of_lt (hr.array_old p hp))
      · rw [L.extend_array_of_ne _ _ (hdir_root hp), L.extend_array_of_ne _ _ (hdir_root hq)] at heq
        exact hr.array_inj p q hp hq heq
  case cell =>
    intro e c' hexists
    rcases Tree.exists_cons.mp hexists with heq | hexists
    · obtain rfl : e = d := List.append_inj_left' heq rfl
      obtain rfl : c' = c := by simpa using heq
      have hself := hdir_root hd
      refine ⟨h.count (L.loc e), ?_, ?_, ?_⟩
      · rw [L.extend_loc_of_ne _ _ hself, hc.count_parent (hr.children e hd).2]
        exact Nat.lt_succ_self _
      · rw [L.extend_loc_self, L.extend_array_of_ne _ _ hself]
      · rw [L.extend_array_of_ne _ _ hself, hc.cell]
        rfl
    · have he := hr.closed e c' hexists
      have heroot := he.root_or_exists
      obtain ⟨i, hi, hloc, hname⟩ := hr.cell e c' hexists
      have hcount := hc.count_le (hr.loc_old heroot) (hr.loc_ne_next hd heroot)
      have hname' := hc.name_eq (hr.loc_old (.inr hexists)) (hr.loc_ne_next hd (.inr hexists))
      rw [hloc, hname] at hname'
      rw [L.extend_loc_of_ne _ _ (hne heroot), L.extend_loc_of_ne _ _ (hne (.inr hexists)),
        L.extend_array_of_ne _ _ (hne heroot)]
      exact ⟨i, Nat.lt_of_lt_of_le hi hcount, hloc, hname'⟩
  case named =>
    intro e he i hi
    rcases Tree.isDir_cons.mp he with ⟨rfl, hdir⟩ | he
    · dsimp only at hdir hi
      rw [L.extend_loc_self, Heap.count, hc.cell, freshNode, hdir] at hi
      cases hi
    · have heroot := he.root_or_exists
      rw [L.extend_loc_of_ne _ _ (hne heroot)] at hi
      rw [L.extend_array_of_ne _ _ (hne heroot)]
      rcases hr.child_of_created hd hc he hi with ⟨rfl, rfl⟩ | ⟨hi', hname⟩
      · right
        rw [hc.cell, freshNode]
        exact ⟨Tree.exists_cons.mpr (.inl rfl), L.extend_loc_self _ _ _⟩
      · rw [hname]
        refine (hr.named e he i hi').imp_right fun ⟨hexists, hloc⟩ => ?_
        rw [L.extend_loc_of_ne _ _ (hne (.inr hexists))]
        exact ⟨Tree.exists_cons.mpr (.inr hexists), hloc⟩
  case resource =>
    intro e he
    rcases List.mem_cons.mp he with rfl | he
    · dsimp only
      rw [L.extend_loc_self, hc.cell, hmode]
      exact ⟨rfl, hresource, rfl, hlnk⟩
    · have hexists : t.Exists e.path := ⟨e, he, rfl⟩
      obtain ⟨k, hk⟩ := hget (.inr hexists)
      obtain ⟨hsame, hlt, hdir, hlnk'⟩ := hr.resource e he
      rw [L.extend_loc_of_ne _ _ (hne (.inr hexists)), hk, hc.grown.modes_eq _ hlt]
      exact ⟨hsame, Nat.lt_of_lt_of_le hlt hc.grown.nextResource_le, hdir, hlnk'⟩

end Cottage.Vfs
