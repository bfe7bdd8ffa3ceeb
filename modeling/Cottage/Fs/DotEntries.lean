import Cottage.Fs.VisibleNodes

/-!
# The entries `.` and `..` of new directories

`internal_create` copies a new directory into the children array of its parent
and adds the two aliases to the original afterwards.  The copy is what paths
lead to; it counts no children, so the aliases are not found in it, and the
first two entries that are made in the directory take their places in the
array.
-/

namespace Cottage.Vfs

open Separated PointerChain Mounts Transition

variable {h h' : Heap} {p : NodePtr} {array : ℕ} {name : Name} {dir : Bool}

/-- The heap, and the paths of the directories that were created. -/
structure DirState where
  heap : Heap
  directories : List Name

/-- A call of `fs_create`; with the fuel the call returns. -/
structure CreateCall where
  path : Name
  mode : ℕ
  fuel : ℕ
  deriving DecidableEq, Repr

def DirState.create (s : DirState) (e : CreateCall) : Option DirState :=
  (fsCreate e.fuel e.path e.mode s.heap).map fun (h, node, _) =>
    ⟨h, if node.isSome ∧ statIsDir e.mode then e.path :: s.directories else s.directories⟩

def creations : System DirState CreateCall where
  init s := (∃ fuel, fsMount fuel [slash] fsInit = some (s.heap, true)) ∧ s.directories = []
  step := DirState.create

def Placed (h : Heap) (path : Name) : Prop :=
  ∃ parent array i name,
    Lookup h vfsRoot vfsRoot path ⟨some parent, some (.child array i), some name, none⟩

structure DirInv (s : DirState) : Prop where
  shape : Shape s.heap
  placed : ∀ path ∈ s.directories, Placed s.heap path

lemma visible_mounted (hv : Visible mounted p) :
    p = vfsRoot ∨ p = .node 1 ∨ p = .child 0 0 ∨ p = .child 0 1 := by
  induction hv with
  | root => exact .inl rfl
  | follow _ hnext ih =>
    rcases ih with rfl | rfl | rfl | rfl
    · exact .inr (.inl (Option.some.inj hnext).symm)
    · cases hnext
    · exact .inr (.inl (Option.some.inj hnext).symm)
    · exact .inl (Option.some.inj hnext).symm
  | @child _ _ i _ hchildren hi ih =>
    rcases ih with rfl | rfl | rfl | rfl
    · cases hchildren
    · have hcount : mounted.count (.node 1) = 2 := by decide
      cases hchildren
      obtain rfl | rfl : i = 0 ∨ i = 1 := by omega
      · exact .inr (.inr (.inl rfl))
      · exact .inr (.inr (.inr rfl))
    · cases hchildren
    · cases hchildren

lemma shape_mounted : Shape mounted := by
  have hnodes : 1 < mounted.nextNode := by decide
  have harrays : 0 < mounted.nextArray := by decide
  have hchild {q : NodePtr} {array : ℕ} (hv : Visible mounted q)
      (hchildren : (mounted.get q).children = some array) : q = .node 1 ∧ array = 0 := by
    rcases visible_mounted hv with rfl | rfl | rfl | rfl
    · cases hchildren
    · exact ⟨rfl, (Option.some.inj hchildren).symm⟩
    · cases hchildren
    · cases hchildren
  constructor
  case redirected =>
    intro p t hv hnext
    rcases visible_mounted hv with rfl | rfl | rfl | rfl
    · exact ⟨.inl rfl, .inl (Option.some.inj hnext).symm⟩
    · cases hnext
    · exact ⟨.inr ⟨0, rfl⟩, .inl (Option.some.inj hnext).symm⟩
    · exact ⟨.inr ⟨1, rfl⟩, .inr (Option.some.inj hnext).symm⟩
  case old =>
    intro p hv
    rcases visible_mounted hv with rfl | rfl | rfl | rfl
    · exact Nat.lt_trans Nat.zero_lt_one hnodes
    · exact hnodes
    · exact harrays
    · exact harrays
  case array_lt =>
    intro p array hv hchildren
    rw [(hchild hv hchildren).2]
    exact harrays
  case array_inj =>
    intro p q array hp hq hchildren hchildren'
    rw [(hchild hp hchildren).1, (hchild hq hchildren').1]
  case nested =>
    intro array i array' hv hchildren
    cases (hchild hv hchildren).1
  case count_nonneg =>
    intro p array hv hchildren
    rw [(hchild hv hchildren).1]
    decide
  case no_target =>
    intro p hv
    rcases visible_mounted hv with rfl | rfl | rfl | rfl <;> rfl
  case resource_lt =>
    intro p hv
    rcases visible_mounted hv with rfl | rfl | rfl | rfl <;> decide

lemma dirInv_init {s : DirState} (hinit : creations.init s) : DirInv s := by
  obtain ⟨⟨fuel, hmount⟩, hnil⟩ := hinit
  refine ⟨?_, ?_⟩
  · rw [eq_mounted hmount]
    exact shape_mounted
  · rw [hnil]
    exact nofun

lemma fsCreate_cases {fuel mode : ℕ} {path : Name} {node : Option NodePtr} {errno : Option Errno}
    (hs : Shape h) (hcall : fsCreate fuel path mode h = some (h', node, errno)) :
    (h' = h ∧ node = none) ∨
      ∃ found p array name, Lookup h vfsRoot vfsRoot path found ∧ found.node = none ∧
        found.parent = some p ∧ found.basename = some name ∧
        NewChild h h' p array name (statIsDir mode) := by
  obtain ⟨found, hfound, hrest⟩ := Option.bind_eq_some_iff.mp hcall
  have hlookup := lookup_of_path2node hfound
  cases hnode : found.node with
  | some _ =>
    rw [hnode] at hrest
    obtain ⟨rfl, hnone⟩ := Prod.mk.inj (Option.some.inj hrest)
    exact .inl ⟨rfl, (Prod.mk.inj hnone).1.symm⟩
  | none =>
    cases hparent : found.parent with
    | none =>
      rw [hnode, hparent] at hrest
      obtain ⟨rfl, hnone⟩ := Prod.mk.inj (Option.some.inj hrest)
      exact .inl ⟨rfl, (Prod.mk.inj hnone).1.symm⟩
    | some p =>
      rw [hnode, hparent] at hrest
      obtain ⟨name, hname, hrest⟩ := Option.bind_eq_some_iff.mp hrest
      obtain ⟨⟨h₁, target⟩, hcreate, hrest⟩ := Option.bind_eq_some_iff.mp hrest
      cases hrest
      have hp : Visible h p ∧ next h p = none := by
        rcases hlookup with ⟨_, rfl⟩ | ⟨start, hstart, hwalk⟩
        · cases hparent
        · exact (hs.walk_visible hwalk hstart.visible).1 p hparent
      have hold := hs.old p hp.1
      obtain ⟨array, hchildren⟩ : ∃ array, (h.get p).children = some array := by
        obtain ⟨h₂, hmade, _, hget, _⟩ := tmpfsCreateNode_spec p name mode h
        have hsame : h₂.get p = h.get p := by rw [hget, if_neg hold.ne_nextNode]
        simp only [createIn, hmade] at hcreate
        obtain ⟨h₃, hadd, _⟩ := Option.bind_eq_some_iff.mp hcreate
        obtain ⟨array, hchildren, _⟩ := Option.map_eq_some_iff.mp hadd
        exact ⟨array, hsame ▸ hchildren⟩
      have hcell : p ≠ .child array (h.count p) := by
        intro heq
        obtain ⟨q, hq, hchildren', hlt⟩ := hs.owner (heq ▸ hp.1)
        obtain rfl := hs.array_inj q p array hq hp.1 hchildren' hchildren
        exact Nat.lt_irrefl _ hlt
      obtain ⟨h₂, target', hcreate', hcreated, _, hresource, _, harray⟩ :=
        createIn_spec name mode hold (hs.array_lt p array hp.1 hchildren) hchildren hcell
      cases hcreate'.symm.trans hcreate
      exact .inr ⟨found, p, array, name, hlookup, hnode, hparent, hname,
        ⟨hs, hp.1, hp.2, hchildren, hcreated, hresource, harray⟩⟩

lemma NewChild.placed {path : Name} (hn : NewChild h h' p array name dir)
    (hplaced : Placed h path) : Placed h' path := by
  obtain ⟨parent, array', i, name', hlookup⟩ := hplaced
  rcases hlookup with ⟨_, hnowhere⟩ | ⟨start, hstart, hwalk⟩
  · cases hnowhere
  · exact ⟨parent, array', i, name', .inr ⟨start, hn.starts hstart,
      hn.walk hwalk hstart.visible (Option.some_ne_none _)⟩⟩

lemma NewChild.placed_new {path : Name} {found : Found} (hn : NewChild h h' p array name dir)
    (hlookup : Lookup h vfsRoot vfsRoot path found) (hnode : found.node = none)
    (hparent : found.parent = some p) (hbasename : found.basename = some name) :
    Placed h' path := by
  rcases hlookup with ⟨_, rfl⟩ | ⟨start, hstart, hwalk⟩
  · cases hparent
  · exact ⟨p, array, _, name, .inr ⟨start, hn.starts hstart,
      hn.walk_new hwalk hstart.visible hnode hparent hbasename⟩⟩

lemma DirInv.create {s s' : DirState} {e : CreateCall} (hI : DirInv s)
    (hstep : creations.step s e = some s') : DirInv s' := by
  obtain ⟨⟨h', node, errno⟩, hcall, rfl⟩ := Option.map_eq_some_iff.mp hstep
  rcases fsCreate_cases hI.shape hcall with ⟨rfl, rfl⟩ |
    ⟨found, p, array, name, hlookup, hnode, hparent, hbasename, hn⟩
  · exact ⟨hI.shape, hI.placed⟩
  · refine ⟨hn.shape', fun path hpath => ?_⟩
    dsimp only at hpath
    split_ifs at hpath
    · rcases List.mem_cons.mp hpath with rfl | hpath
      · exact hn.placed_new hlookup hnode hparent hbasename
      · exact hn.placed (hI.placed path hpath)
    · exact hn.placed (hI.placed path hpath)

lemma dirInv_of_reachable {s : DirState} (h : creations.Reachable s) : DirInv s :=
  h.invariant (fun _ => dirInv_init) fun _ _ _ => DirInv.create

/-- The path followed by `/.` leads to the same node, and followed by `/..` to the
parent. -/
def DotsRight (h : Heap) (path : Name) : Prop :=
  ∃ fuel found, path2node h vfsRoot fuel vfsRoot path = some found ∧ found.node ≠ none ∧
    fsGetNode fuel (path ++ slash :: dot) h = some found.node ∧
    fsGetNode fuel (path ++ slash :: dotdot) h = some found.parent

lemma Shape.dot_ne (hs : Shape h) {i : ℕ} {found : Found}
    (hv : Visible h (.child array i)) (hnext : next h (.child array i) = none)
    (hwalk : Walk h vfsRoot (.child array i) [dot] found) :
    found.node ≠ some (.child array i) := by
  intro hnode
  cases hwalk with
  | missingLast _ _ => cases hnode
  | last hm =>
    cases hnode
    obtain rfl := hm.current_ends.unique (.stop hnext)
    obtain ⟨n, hchild, hends⟩ := hm.child
    obtain ⟨array', k, rfl, hchildren, hk⟩ := nodeGetChild_eq_some hchild
    have hlt := hs.nested array i array' hv hchildren
    have hplain : next h (.child array' k) = none := by
      by_contra hsome
      obtain ⟨t, ht⟩ := Option.ne_none_iff_exists'.mp hsome
      obtain ⟨hroot | ⟨k', heq⟩, _⟩ := hs.redirected _ t (hv.child hchildren hk) ht
      · cases hroot
      · obtain ⟨rfl, _⟩ := NodePtr.child.inj heq
        exact Nat.not_lt_zero _ hlt
    obtain ⟨rfl, _⟩ := NodePtr.child.inj (hends.unique (.stop hplain))
    exact Nat.lt_irrefl _ hlt
  | _ => contradiction

/-- After no sequence of calls does a directory that was created have its two
aliases. -/
theorem dots_never_right {s : DirState} (hs : creations.Reachable s) {path : Name}
    (hpath : path ∈ s.directories) : ¬ DotsRight s.heap path := by
  have hI := dirInv_of_reachable hs
  obtain ⟨parent, array, i, name, hlookup⟩ := hI.placed path hpath
  rintro ⟨fuel, found, hfound, hsome, hdot, _⟩
  obtain rfl := (lookup_of_path2node hfound).unique hlookup
  obtain ⟨found', hfound', hnode⟩ := Option.map_eq_some_iff.mp hdot
  rcases hlookup with ⟨_, hnowhere⟩ | ⟨start, hstart, hwalk⟩
  · cases hnowhere
  have hcs : components slash path ≠ [] := by
    intro hnil
    rw [hnil] at hwalk
    cases hwalk
  have hdot : components slash dot = [dot] := by decide
  rcases lookup_of_path2node hfound' with ⟨hnil, _⟩ | ⟨start', hstart', hwalk'⟩
  · exact absurd hnil (List.append_ne_nil_of_right_ne_nil _ (List.cons_ne_nil _ _))
  obtain rfl := (hstart.append (slash :: dot)).unique hstart'
  rw [components_append_sep, hdot] at hwalk'
  have hlast := hwalk.drop hcs rfl (List.cons_ne_nil _ _) hwalk' (hnode ▸ hsome)
  exact hI.shape.dot_ne ((hI.shape.walk_visible hwalk hstart.visible).2 _ rfl)
    (hwalk.next_eq_none rfl) hlast hnode

lemma creations_init : creations.init ⟨mounted, []⟩ :=
  ⟨⟨1, rfl⟩, rfl⟩

theorem dots_never_right_created :
    ∃ s, creations.Reachable s ∧ [slash, 0x61] ∈ s.directories ∧
      fsGetNode 8 [slash, 0x61, slash, 0x2E] s.heap = some (some (.child 1 0)) ∧
      ¬ DotsRight s.heap [slash, 0x61] := by
  obtain ⟨s, hs, hrun⟩ := System.Reachable.exists_of_run_any (.init creations_init)
    [⟨[slash, 0x61], 0x41ed, 8⟩, ⟨[slash, 0x61, slash, 0x2E], 0x41ed, 8⟩]
    (fun s : DirState => decide ([slash, 0x61] ∈ s.directories ∧
      fsGetNode 8 [slash, 0x61, slash, 0x2E] s.heap = some (some (.child 1 0))))
    (by decide +kernel)
  obtain ⟨hpath, hdot⟩ := of_decide_eq_true hrun
  exact ⟨s, hs, hpath, hdot, dots_never_right hs hpath⟩

/-- The new directory `/a` is found, but neither `/a/.` nor `/a/..` is. -/
theorem dots_missing :
    ∃ s, creations.Reachable s ∧ [slash, 0x61] ∈ s.directories ∧
      fsGetNode 8 [slash, 0x61] s.heap = some (some (.child 0 2)) ∧
      fsGetNode 8 [slash, 0x61, slash, 0x2E] s.heap = some none ∧
      fsGetNode 8 [slash, 0x61, slash, 0x2E, 0x2E] s.heap = some none := by
  obtain ⟨s, hs, hrun⟩ := System.Reachable.exists_of_run_any (.init creations_init)
    [⟨[slash, 0x61], 0x41ed, 8⟩]
    (fun s : DirState => decide ([slash, 0x61] ∈ s.directories ∧
      fsGetNode 8 [slash, 0x61] s.heap = some (some (.child 0 2)) ∧
      fsGetNode 8 [slash, 0x61, slash, 0x2E] s.heap = some none ∧
      fsGetNode 8 [slash, 0x61, slash, 0x2E, 0x2E] s.heap = some none))
    (by decide +kernel)
  exact ⟨s, hs, of_decide_eq_true hrun⟩

end Cottage.Vfs
