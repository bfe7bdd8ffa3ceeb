import Cottage.Fs.PathWalk
import Cottage.Fs.VfsRefinement

/-!
# Visible nodes

What paths from the root can lead to: the root, its two aliases, and the
counted elements of the arrays of visible nodes.  Among these only the aliases
of the root are redirected, no two have the same array, and the array of a
directory is younger than the array the directory is in.
-/

namespace Cottage.Vfs

open Separated PointerChain Mounts Transition

inductive Visible (h : Heap) : NodePtr → Prop
  | root : Visible h vfsRoot
  | follow {p t : NodePtr} : Visible h p → next h p = some t → Visible h t
  | child {p : NodePtr} {array i : ℕ} : Visible h p → (h.get p).children = some array →
      i < h.count p → Visible h (.child array i)

structure Shape (h : Heap) : Prop where
  redirected : ∀ p t, Visible h p → next h p = some t →
    (p = vfsRoot ∨ ∃ i, p = .child 0 i) ∧ (t = .node 1 ∨ t = vfsRoot)
  old : ∀ p, Visible h p → h.Old p
  array_lt : ∀ p array, Visible h p → (h.get p).children = some array → array < h.nextArray
  array_inj : ∀ p q array, Visible h p → Visible h q → (h.get p).children = some array →
    (h.get q).children = some array → p = q
  nested : ∀ array i array', Visible h (.child array i) →
    (h.get (.child array i)).children = some array' → array < array'
  count_nonneg : ∀ p array, Visible h p → (h.get p).children = some array →
    0 ≤ (h.get p).childrenCount
  no_target : ∀ p, Visible h p → (h.get p).symlinkTarget = none
  resource_lt : ∀ p, Visible h p → (h.get p).resource < h.nextResource

variable {h h' : Heap} {p q : NodePtr} {array : ℕ}

lemma Shape.owner (hs : Shape h) {i : ℕ} (hv : Visible h (.child array i)) :
    ∃ p, Visible h p ∧ (h.get p).children = some array ∧ i < h.count p := by
  cases hv with
  | follow hp hnext =>
    obtain ⟨_, hnode | hroot⟩ := hs.redirected _ _ hp hnext
    · cases hnode
    · cases hroot
  | child hp hchildren hi => exact ⟨_, hp, hchildren, hi⟩

lemma Visible.ends (hv : Visible h p) (hends : Ends (next h) p q) : Visible h q := by
  induction hends with
  | stop _ => exact hv
  | step hnext _ ih => exact ih (hv.follow hnext)

variable {c : Name} {cur m current : NodePtr} {cs : List Name} {found : Found}

lemma Visible.getChild (hv : Visible h p) (hchild : nodeGetChild h p c = some q) :
    Visible h q := by
  obtain ⟨array, i, rfl, hchildren, hi⟩ := nodeGetChild_eq_some hchild
  exact hv.child hchildren hi

lemma Visible.finds (hv : Visible h p) (hm : Finds h p c cur m) :
    Visible h cur ∧ Visible h m := by
  obtain ⟨n, hchild, hends⟩ := hm.child
  have hcur := hv.ends hm.current_ends
  exact ⟨hcur, (hcur.getChild hchild).ends hends⟩

lemma Shape.walk_visible (hs : Shape h) (hwalk : Walk h vfsRoot current cs found)
    (hv : Visible h current) :
    (∀ p, found.parent = some p → Visible h p ∧ next h p = none) ∧
      ∀ p, found.node = some p → Visible h p := by
  induction hwalk with
  | stay hcur =>
    refine ⟨fun p hp => ?_, fun p hp => ?_⟩
    · cases hp
      exact ⟨hv.ends hcur, hcur.next_eq_none⟩
    · cases hp
      exact hv.ends hcur
  | missingLast hcur _ =>
    refine ⟨fun p hp => ?_, fun p hp => (by cases hp)⟩
    cases hp
    exact ⟨hv.ends hcur, hcur.next_eq_none⟩
  | last hm =>
    obtain ⟨hcur, hnode⟩ := hv.finds hm
    refine ⟨fun p hp => ?_, fun p hp => ?_⟩
    · cases hp
      exact ⟨hcur, hm.current_ends.next_eq_none⟩
    · cases hp
      exact hnode
  | dir hm _ _ _ _ ih => exact ih (hv.finds hm).2
  | link hm _ _ _ htarget _ _ _ _ _ _ =>
    rw [hs.no_target _ (hv.finds hm).2] at htarget
    cases htarget
  | _ => exact ⟨fun p hp => (by cases hp), fun p hp => (by cases hp)⟩

structure NewChild (h h' : Heap) (p : NodePtr) (array : ℕ) (name : Name) (dir : Bool) : Prop where
  shape : Shape h
  visible : Visible h p
  ends : next h p = none
  children : (h.get p).children = some array
  created : Created h h' p array (freshNode h (some p) name dir (h.nextResource + 1))
  resource_lt : h.nextResource + 1 < h'.nextResource
  array_lt : dir = true → h.nextArray < h'.nextArray

variable {name : Name} {dir : Bool}

lemma count_withChild (hnonneg : 0 ≤ (h.get p).childrenCount)
    (hget : h'.get p = (h.get p).withChild) : h'.count p = h.count p + 1 := by
  rw [Heap.count, hget, Heap.count, Node.withChild]
  exact Int.toNat_add hnonneg (by decide)

section NewChild

variable (hn : NewChild h h' p array name dir)

include hn

lemma NewChild.cell_not_visible : ¬ Visible h (.child array (h.count p)) := by
  intro hv
  obtain ⟨q, hq, hchildren, hlt⟩ := hn.shape.owner hv
  obtain rfl := hn.shape.array_inj q p array hq hn.visible hchildren hn.children
  exact Nat.lt_irrefl _ hlt

lemma NewChild.get_of_ne (hv : Visible h q) (hne : q ≠ p) : h'.get q = h.get q := by
  apply hn.created.old q (hn.shape.old q hv) hne
  rintro rfl
  exact hn.cell_not_visible hv

lemma NewChild.next_eq (hv : Visible h q) : next h' q = next h q := by
  by_cases hq : q = p
  · rw [next, hq, hn.created.parent_eq]
    rfl
  · rw [next, hn.get_of_ne hv hq, next]

lemma NewChild.children_eq (hv : Visible h q) : (h'.get q).children = (h.get q).children := by
  by_cases hq : q = p
  · rw [hq, hn.created.parent_eq]
    rfl
  · rw [hn.get_of_ne hv hq]

lemma NewChild.count_eq (hv : Visible h q) :
    h'.count q = if q = p then h.count q + 1 else h.count q := by
  split_ifs with hq
  · rw [hq]
    exact count_withChild (hn.shape.count_nonneg p array hn.visible hn.children)
      hn.created.parent_eq
  · rw [Heap.count, hn.get_of_ne hv hq, Heap.count]

lemma NewChild.next_cell : next h' (.child array (h.count p)) = none := by
  rw [next, hn.created.cell]
  rfl

lemma NewChild.visible_or (hv : Visible h' q) :
    Visible h q ∨ q = .child array (h.count p) := by
  induction hv with
  | root => exact .inl .root
  | follow _ hnext ih =>
    rcases ih with hv | rfl
    · rw [hn.next_eq hv] at hnext
      exact .inl (hv.follow hnext)
    · rw [hn.next_cell] at hnext
      cases hnext
  | @child r array' i _ hchildren hi ih =>
    rcases ih with hv | rfl
    · rw [hn.children_eq hv] at hchildren
      rw [hn.count_eq hv] at hi
      split_ifs at hi with hr
      · subst hr
        cases hchildren.symm.trans hn.children
        rcases Nat.lt_succ_iff_lt_or_eq.mp hi with hlt | rfl
        · exact .inl (hv.child hchildren hlt)
        · exact .inr rfl
      · exact .inl (hv.child hchildren hi)
    · rw [Heap.count, hn.created.cell, freshNode] at hi
      rw [hn.created.cell, freshNode] at hchildren
      split_ifs at hi hchildren
      cases hi

lemma NewChild.get_cell :
    h'.get (.child array (h.count p)) = freshNode h (some p) name dir (h.nextResource + 1) :=
  hn.created.cell

lemma NewChild.cell_children {array' : ℕ}
    (hchildren : (h'.get (.child array (h.count p))).children = some array') :
    array' = h.nextArray ∧ h.nextArray < h'.nextArray := by
  rw [hn.get_cell, freshNode] at hchildren
  split_ifs at hchildren with hdir
  exact ⟨(Option.some.inj hchildren).symm, hn.array_lt hdir⟩

lemma NewChild.shape' : Shape h' := by
  have hgrown := hn.created.grown
  have harray := hn.shape.array_lt p array hn.visible hn.children
  constructor
  case redirected =>
    intro q t hq hnext
    rcases hn.visible_or hq with hv | rfl
    · rw [hn.next_eq hv] at hnext
      exact hn.shape.redirected q t hv hnext
    · rw [hn.next_cell] at hnext
      cases hnext
  case old =>
    intro q hq
    rcases hn.visible_or hq with hv | rfl
    · exact hgrown.old (hn.shape.old q hv)
    · exact Nat.lt_of_lt_of_le harray hgrown.nextArray_le
  case array_lt =>
    intro q array' hq hchildren
    rcases hn.visible_or hq with hv | rfl
    · rw [hn.children_eq hv] at hchildren
      exact Nat.lt_of_lt_of_le (hn.shape.array_lt q array' hv hchildren) hgrown.nextArray_le
    · obtain ⟨rfl, hlt⟩ := hn.cell_children hchildren
      exact hlt
  case array_inj =>
    have hfresh {q : NodePtr} (hv : Visible h q) :
        (h.get q).children ≠ some h.nextArray :=
      fun hchildren => Nat.lt_irrefl _ (hn.shape.array_lt q _ hv hchildren)
    intro q r array' hq hr hchildren hchildren'
    rcases hn.visible_or hq with hv | rfl
    · rw [hn.children_eq hv] at hchildren
      rcases hn.visible_or hr with hv' | rfl
      · rw [hn.children_eq hv'] at hchildren'
        exact hn.shape.array_inj q r array' hv hv' hchildren hchildren'
      · obtain ⟨rfl, _⟩ := hn.cell_children hchildren'
        exact absurd hchildren (hfresh hv)
    · rcases hn.visible_or hr with hv' | rfl
      · obtain ⟨rfl, _⟩ := hn.cell_children hchildren
        rw [hn.children_eq hv'] at hchildren'
        exact absurd hchildren' (hfresh hv')
      · rfl
  case nested =>
    intro array₁ i array₂ hq hchildren
    rcases hn.visible_or hq with hv | heq
    · rw [hn.children_eq hv] at hchildren
      exact hn.shape.nested array₁ i array₂ hv hchildren
    · obtain ⟨rfl, rfl⟩ := NodePtr.child.inj heq
      obtain ⟨rfl, _⟩ := hn.cell_children hchildren
      exact harray
  case count_nonneg =>
    intro q array' hq hchildren
    rcases hn.visible_or hq with hv | rfl
    · rw [hn.children_eq hv] at hchildren
      have hnonneg := hn.shape.count_nonneg q array' hv hchildren
      by_cases hqp : q = p
      · subst hqp
        rw [hn.created.parent_eq, Node.withChild]
        exact Int.add_nonneg hnonneg (by decide)
      · rwa [hn.get_of_ne hv hqp]
    · rw [hn.get_cell, freshNode] at hchildren ⊢
      split_ifs at hchildren ⊢
      exact le_rfl
  case no_target =>
    intro q hq
    rcases hn.visible_or hq with hv | rfl
    · by_cases hqp : q = p
      · subst hqp
        rw [hn.created.parent_eq, Node.withChild]
        exact hn.shape.no_target q hv
      · rw [hn.get_of_ne hv hqp]
        exact hn.shape.no_target q hv
    · rw [hn.get_cell, freshNode]
  case resource_lt =>
    intro q hq
    rcases hn.visible_or hq with hv | rfl
    · have hlt := Nat.lt_of_lt_of_le (hn.shape.resource_lt q hv) hgrown.nextResource_le
      by_cases hqp : q = p
      · subst hqp
        rwa [hn.created.parent_eq, Node.withChild_resource]
      · rwa [hn.get_of_ne hv hqp]
    · rw [hn.get_cell, freshNode]
      exact hn.resource_lt

lemma NewChild.ends' {r : NodePtr} (hv : Visible h q) (hends : Ends (next h) q r) :
    Ends (next h') q r :=
  hends.congr (K := Visible h) (fun _ _ hp ht => hp.follow ht) (fun _ hp => hn.next_eq hp) hv

lemma NewChild.mode_eq (hv : Visible h q) : h'.mode q = h.mode q := by
  have hresource : (h'.get q).resource = (h.get q).resource := by
    by_cases hqp : q = p
    · rw [hqp, hn.created.parent_eq, Node.withChild_resource]
    · rw [hn.get_of_ne hv hqp]
  rw [Heap.mode, hresource, hn.created.grown.modes_eq _ (hn.shape.resource_lt q hv), Heap.mode]

lemma NewChild.name_eq (hv : Visible h q) {array' i : ℕ}
    (hchildren : (h.get q).children = some array') (hi : i < h.count q) :
    (h'.arrays array' i).name = (h.arrays array' i).name := by
  have hcell := hv.child hchildren hi
  by_cases hqp : .child array' i = p
  · have hsame := hn.created.parent_eq
    rw [← hqp] at hsame
    exact (congrArg Node.name hsame).trans rfl
  · exact congrArg Node.name (hn.get_of_ne hcell hqp)

lemma NewChild.nodeGetChild_some (hv : Visible h q) {c : Name} {n : NodePtr}
    (hchild : nodeGetChild h q c = some n) : nodeGetChild h' q c = some n := by
  obtain ⟨array', hchildren, hfind⟩ := Option.bind_eq_some_iff.mp hchild
  obtain ⟨i, hi, rfl⟩ := Option.map_eq_some_iff.mp hfind
  rw [List.find?_range_eq_some] at hi
  obtain ⟨hname, hrange, hfirst⟩ := hi
  have hlt : i < h.count q := List.mem_range.mp hrange
  have hcount : h.count q ≤ h'.count q := by
    rw [hn.count_eq hv]
    split_ifs <;> omega
  have hfind' : ((List.range (h'.count q)).find? fun i =>
      decide ((h'.arrays array' i).name = c)) = some i := by
    rw [List.find?_range_eq_some, hn.name_eq hv hchildren hlt]
    refine ⟨hname, List.mem_range.mpr (by omega), fun j hj => ?_⟩
    rw [hn.name_eq hv hchildren (by omega)]
    exact hfirst j hj
  rw [nodeGetChild, hn.children_eq hv, hchildren, Option.bind_some]
  exact congrArg (Option.map (NodePtr.child array')) hfind'

lemma NewChild.nodeGetChild_new (hchild : nodeGetChild h p name = none) :
    nodeGetChild h' p name = some (.child array (h.count p)) := by
  have hnames : ∀ i < h.count p, (h.arrays array i).name ≠ name := by
    rw [nodeGetChild, hn.children, Option.bind_some, Option.map_eq_none_iff,
      List.find?_eq_none] at hchild
    intro i hi hname
    exact hchild i (List.mem_range.mpr hi) (decide_eq_true hname)
  have hcount : h'.count p = h.count p + 1 := by rw [hn.count_eq hn.visible, if_pos rfl]
  have hfind : ((List.range (h'.count p)).find? fun i =>
      decide ((h'.arrays array i).name = name)) = some (h.count p) := by
    rw [List.find?_range_eq_some]
    refine ⟨decide_eq_true (congrArg Node.name hn.get_cell), List.mem_range.mpr (by omega), ?_⟩
    intro j hj
    rw [hn.name_eq hn.visible hn.children hj, decide_eq_false (hnames j hj)]
    rfl
  rw [nodeGetChild, hn.children_eq hn.visible, hn.children, Option.bind_some]
  exact congrArg (Option.map (NodePtr.child array)) hfind

lemma NewChild.finds (hv : Visible h q) {c : Name} {cur m : NodePtr}
    (hm : Finds h q c cur m) : Finds h' q c cur m := by
  obtain ⟨n, hchild, hends⟩ := hm.child
  have hcur := hv.ends hm.current_ends
  exact ⟨hn.ends' hv hm.current_ends, n, hn.nodeGetChild_some hcur hchild,
    hn.ends' (hcur.getChild hchild) hends⟩

lemma NewChild.walk {current : NodePtr} {cs : List Name} {found : Found}
    (hwalk : Walk h vfsRoot current cs found) (hv : Visible h current)
    (hnode : found.node ≠ none) : Walk h' vfsRoot current cs found := by
  induction hwalk with
  | stay hcur => exact .stay (hn.ends' hv hcur)
  | last hm => exact .last (hn.finds hv hm)
  | dir hm hrest hlnk hdir _ ih =>
    have hm' := (hv.finds hm).2
    rw [← hn.mode_eq hm'] at hlnk hdir
    exact .dir (hn.finds hv hm) hrest hlnk hdir (ih hm' hnode)
  | link hm _ _ _ htarget _ _ _ _ _ _ =>
    rw [hn.shape.no_target _ (hv.finds hm).2] at htarget
    cases htarget
  | _ => exact absurd rfl hnode

lemma NewChild.walk_new {current : NodePtr} {cs : List Name} {found : Found}
    (hwalk : Walk h vfsRoot current cs found) (hv : Visible h current)
    (hnode : found.node = none) (hparent : found.parent = some p)
    (hbasename : found.basename = some name) :
    Walk h' vfsRoot current cs ⟨some p, some (.child array (h.count p)), some name, none⟩ := by
  induction hwalk with
  | missingLast hcur hchild =>
    cases hparent
    cases hbasename
    exact .last ⟨hn.ends' hv hcur, _, hn.nodeGetChild_new hchild, .stop hn.next_cell⟩
  | dir hm hrest hlnk hdir _ ih =>
    have hm' := (hv.finds hm).2
    rw [← hn.mode_eq hm'] at hlnk hdir
    exact .dir (hn.finds hv hm) hrest hlnk hdir (ih hm' hnode hparent hbasename)
  | link hm _ _ _ htarget _ _ _ _ _ _ =>
    rw [hn.shape.no_target _ (hv.finds hm).2] at htarget
    cases htarget
  | stay | last => cases hnode
  | _ => cases hparent

lemma NewChild.starts {path : Name} {start : NodePtr}
    (hstart : Starts h vfsRoot vfsRoot path start) : Starts h' vfsRoot vfsRoot path start := by
  obtain ⟨q, hq, hrelative⟩ := hstart.parent_ends
  exact ⟨hstart.nonempty, ⟨q, hn.ends' .root hq, hrelative⟩,
    fun hslash => hn.ends' .root (hstart.absolute hslash)⟩

end NewChild

lemma Starts.visible {path : Name} {start : NodePtr}
    (hstart : Starts h vfsRoot vfsRoot path start) : Visible h start := by
  by_cases hslash : path.head? = some slash
  · exact Visible.root.ends (hstart.absolute hslash)
  · obtain ⟨q, hq, hrelative⟩ := hstart.parent_ends
    rw [hrelative hslash]
    exact Visible.root.ends hq

/-! ## Going on from a node -/

lemma Finds.unique {cur' m' : NodePtr} (hm : Finds h current c cur m)
    (hm' : Finds h current c cur' m') : cur = cur' ∧ m = m' := by
  obtain rfl := hm.current_ends.unique hm'.current_ends
  obtain ⟨n, hn, hends⟩ := hm.child
  obtain ⟨n', hn', hends'⟩ := hm'.child
  cases hn.symm.trans hn'
  exact ⟨rfl, hends.unique hends'⟩

lemma Walk.tail {root : NodePtr} (hwalk : Walk h root current (c :: cs) found) (hcs : cs ≠ [])
    (hm : Finds h current c cur m) (hnode : found.node ≠ none) : Walk h root m cs found := by
  cases hwalk with
  | dir hm' _ _ _ hwalk => exact (hm.unique hm').2 ▸ hwalk
  | link hm' _ _ _ _ _ _ _ hwalk => exact (hm.unique hm').2 ▸ hwalk
  | missingLast _ _ => exact absurd rfl hcs
  | last _ => exact absurd rfl hcs
  | _ => exact absurd rfl hnode

lemma Walk.drop {root node : NodePtr} {more : List Name} {found' : Found}
    (hwalk : Walk h root current cs found) (hcs : cs ≠ []) (hfound : found.node = some node)
    (hmore : more ≠ []) (hwalk' : Walk h root current (cs ++ more) found')
    (hnode : found'.node ≠ none) : Walk h root node more found' := by
  induction hwalk with
  | last hm =>
    cases hfound
    exact hwalk'.tail hmore hm hnode
  | dir hm hrest _ _ _ ih =>
    exact ih hrest hfound (hwalk'.tail (List.append_ne_nil_of_left_ne_nil hrest _) hm hnode)
  | link hm hrest _ _ _ _ _ _ _ _ ih =>
    exact ih hrest hfound (hwalk'.tail (List.append_ne_nil_of_left_ne_nil hrest _) hm hnode)
  | stay _ => exact absurd rfl hcs
  | _ => cases hfound

end Cottage.Vfs
