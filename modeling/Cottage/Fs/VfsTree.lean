import Cottage.Fs.Vfs
import Mathlib.Data.List.Induction

/-!
# The tree a heap of nodes stands for

The abstract file system is a list of entries, each with the components of its
path.  A heap represents it when every entry has its node in the children array
of the node of its parent: `Layout` says where the nodes and arrays are, and
`Rep` what the heap holds there.
-/

namespace Cottage.Vfs

open Separated

abbrev Path := List Name

structure Entry where
  path : Path
  resource : ℕ
  dir : Bool
  deriving DecidableEq, Repr

abbrev Tree := List Entry

def Tree.Exists (t : Tree) (p : Path) : Prop :=
  ∃ e ∈ t, e.path = p

instance (t : Tree) (p : Path) : Decidable (t.Exists p) :=
  inferInstanceAs (Decidable (∃ e ∈ _, _))

def Tree.IsDir (t : Tree) (p : Path) : Prop :=
  p = [] ∨ ∃ e ∈ t, e.path = p ∧ e.dir = true

instance (t : Tree) (p : Path) : Decidable (t.IsDir p) :=
  inferInstanceAs (Decidable (_ ∨ ∃ e ∈ _, _))

def Tree.Creatable (t : Tree) (p : Path) : Prop :=
  p ≠ [] ∧ ¬ t.Exists p ∧ t.IsDir p.dropLast

instance (t : Tree) (p : Path) : Decidable (t.Creatable p) :=
  inferInstanceAs (Decidable (_ ∧ _ ∧ _))

def Tree.Closed (t : Tree) : Prop :=
  ∀ d c, t.Exists (d ++ [c]) → t.IsDir d

variable {t : Tree} {p : Path}

lemma Tree.IsDir.exists (h : t.IsDir p) (hp : p ≠ []) : t.Exists p := by
  obtain rfl | ⟨e, he, hpath, _⟩ := h
  · exact absurd rfl hp
  · exact ⟨e, he, hpath⟩

lemma Tree.IsDir.root_or_exists (h : t.IsDir p) : p = [] ∨ t.Exists p := by
  by_cases hp : p = []
  · exact .inl hp
  · exact .inr (h.exists hp)

lemma Tree.Closed.isDir_of_append (h : t.Closed) {q : Path} (hdir : t.IsDir (p ++ q)) :
    t.IsDir p := by
  induction q using List.reverseRecOn with
  | nil => rwa [List.append_nil] at hdir
  | append_singleton q c ih =>
    rw [← List.append_assoc] at hdir
    exact ih (h _ c (hdir.exists (by simp)))

lemma Tree.Closed.isDir_dropLast (h : t.Closed) (hp : p ≠ []) (hexists : t.Exists p) :
    t.IsDir p.dropLast := by
  apply h p.dropLast (p.getLast hp)
  rwa [List.dropLast_concat_getLast]

structure Layout where
  loc : Path → NodePtr
  array : Path → ℕ

def Heap.count (h : Heap) (p : NodePtr) : ℕ :=
  (h.get p).childrenCount.toNat

def Heap.Old (h : Heap) : NodePtr → Prop
  | .node id => id < h.nextNode
  | .child array _ => array < h.nextArray

def Alias (c : Name) : Prop :=
  c = dot ∨ c = dotdot

instance (c : Name) : Decidable (Alias c) :=
  inferInstanceAs (Decidable (_ ∨ _))

structure Rep (h : Heap) (t : Tree) (L : Layout) : Prop where
  closed : t.Closed
  nonroot : ¬ t.Exists []
  root_redir : (h.get vfsRoot).redir = none
  root_mountpoint : (h.get vfsRoot).mountpoint = some (L.loc [])
  root_old : h.Old vfsRoot
  loc_root : ∃ id, L.loc [] = .node id ∧ h.Old (.node id) ∧ .node id ≠ vfsRoot
  plain : ∀ p, p = [] ∨ t.Exists p →
    (h.get (L.loc p)).redir = none ∧ (h.get (L.loc p)).mountpoint = none
  children : ∀ d, t.IsDir d →
    (h.get (L.loc d)).children = some (L.array d) ∧ 0 ≤ (h.get (L.loc d)).childrenCount
  array_old : ∀ d, t.IsDir d → L.array d < h.nextArray
  array_inj : ∀ d d', t.IsDir d → t.IsDir d' → L.array d = L.array d' → d = d'
  cell : ∀ d c, t.Exists (d ++ [c]) →
    ∃ i < h.count (L.loc d), L.loc (d ++ [c]) = .child (L.array d) i ∧
      (h.get (.child (L.array d) i)).name = c
  named : ∀ d, t.IsDir d → ∀ i < h.count (L.loc d),
    Alias (h.get (.child (L.array d) i)).name ∨
      t.Exists (d ++ [(h.get (.child (L.array d) i)).name]) ∧
        L.loc (d ++ [(h.get (.child (L.array d) i)).name]) = .child (L.array d) i
  resource : ∀ e ∈ t, (h.get (L.loc e.path)).resource = e.resource ∧
    e.resource < h.nextResource ∧ statIsDir (h.modes e.resource) = e.dir ∧
    statIsLnk (h.modes e.resource) = false

section

variable {h : Heap} {t : Tree} {L : Layout}

variable {p d : Path} {fuel : ℕ} {path : Name}

lemma Rep.reduceNode_loc (hr : Rep h t L) (hp : p = [] ∨ t.Exists p) (fuel : ℕ) :
    reduceNode h (fuel + 1) (L.loc p) = some (L.loc p) := by
  obtain ⟨hredir, hmount⟩ := hr.plain p hp
  rw [reduceNode, hredir, hmount]

lemma Rep.reduceNode_root (hr : Rep h t L) (fuel : ℕ) :
    reduceNode h (fuel + 2) vfsRoot = some (L.loc []) := by
  rw [reduceNode, hr.root_redir, hr.root_mountpoint]
  exact hr.reduceNode_loc (.inl rfl) fuel

lemma Rep.nodeGetChild_of_named (hr : Rep h t L) (hd : t.IsDir d) {c : Name}
    (hnamed : ∀ i < h.count (L.loc d), (h.get (.child (L.array d) i)).name = c →
      t.Exists (d ++ [c]) ∧ L.loc (d ++ [c]) = .child (L.array d) i) :
    nodeGetChild h (L.loc d) c = if t.Exists (d ++ [c]) then some (L.loc (d ++ [c])) else none := by
  rw [Vfs.nodeGetChild, (hr.children d hd).1, Option.bind_some]
  split_ifs with hexists
  · obtain ⟨i, hi, _, hname⟩ := hr.cell d c hexists
    cases hfind : (List.range (h.get (L.loc d)).childrenCount.toNat).find? fun i =>
        (h.arrays (L.array d) i).name = c with
    | none =>
      have hnone := List.find?_eq_none.mp hfind i (List.mem_range.mpr hi)
      exact absurd (decide_eq_true hname) hnone
    | some j =>
      have hj := List.mem_range.mp (List.mem_of_find?_eq_some hfind)
      have hfound := List.find?_some hfind
      rw [decide_eq_true_eq] at hfound
      rw [(hnamed j hj hfound).2]
      rfl
  · rw [List.find?_eq_none.mpr, Option.map_none]
    intro i hi hname
    exact hexists (hnamed i (List.mem_range.mp hi) (of_decide_eq_true hname)).1

lemma Rep.nodeGetChild (hr : Rep h t L) (hd : t.IsDir d) {c : Name} (hc : ¬ Alias c) :
    nodeGetChild h (L.loc d) c = if t.Exists (d ++ [c]) then some (L.loc (d ++ [c])) else none := by
  apply hr.nodeGetChild_of_named hd
  rintro i hi rfl
  exact (hr.named d hd i hi).resolve_left hc

lemma Rep.statIsDir_loc (hr : Rep h t L) (hp : t.Exists p) :
    (statIsDir (h.modes (h.get (L.loc p)).resource) = true ↔ t.IsDir p) ∧
      statIsLnk (h.modes (h.get (L.loc p)).resource) = false := by
  obtain ⟨e, he, rfl⟩ := hp
  obtain ⟨hresource, _, hdir, hlnk⟩ := hr.resource e he
  rw [hresource]
  refine ⟨⟨fun h' => .inr ⟨e, he, rfl, hdir ▸ h'⟩, ?_⟩, hlnk⟩
  rintro (hnil | ⟨e', he', hpath, hdir'⟩)
  · exact absurd ⟨e, he, hnil⟩ hr.nonroot
  · obtain ⟨hresource', _, hdir'', _⟩ := hr.resource e' he'
    rw [hpath, hresource] at hresource'
    rw [hresource', hdir'', hdir']

/-- What `path2node` finds for a path that starts at a directory. -/
structure FoundAt (t : Tree) (L : Layout) (p : Path) (found : Found) : Prop where
  parent : found.parent = if t.IsDir p.dropLast then some (L.loc p.dropLast) else none
  node : found.node = if t.Exists p then some (L.loc p) else none
  basename : t.IsDir p.dropLast → found.basename = p.getLast?

section

variable (hr : Rep h t L)

include hr

lemma Rep.foundAt_nowhere (hp : p ≠ []) (hdir : ¬ t.IsDir p.dropLast) (errno : Option Errno) :
    FoundAt t L p (.nowhere errno) where
  parent := (if_neg hdir).symm
  node := (if_neg fun hexists => hdir (hr.closed.isDir_dropLast hp hexists)).symm
  basename := fun h' => absurd h' hdir

lemma Rep.pathLoop_of_find {root : NodePtr} (hd : t.IsDir d) (hne : path ≠ [])
    (hhead : path.head? ≠ some slash)
    (hfind : ∀ e c, e ++ [c] <+: components slash path → t.IsDir (d ++ e) →
      Vfs.nodeGetChild h (L.loc (d ++ e)) c =
        if t.Exists (d ++ e ++ [c]) then some (L.loc (d ++ e ++ [c])) else none)
    (hfuel : path.length + 1 ≤ fuel) :
    ∃ found, pathLoop h root fuel (L.loc d) path = some found ∧
      FoundAt t L (d ++ components slash path) found := by
  induction fuel generalizing d path with
  | zero => omega
  | succ fuel ih =>
    obtain ⟨fuel, rfl⟩ : ∃ k, fuel = k + 1 := by
      have hpos := List.length_pos_iff.mpr hne
      exact ⟨fuel - 1, by omega⟩
    have hcomponents := components_eq_cons hne hhead
    have hdroot := hd.root_or_exists
    have hlength := length_rest_lt hne hhead
    have hfront := hfind [] (front slash path)
      (by rw [hcomponents]; exact List.prefix_append [_] _) (by rwa [List.append_nil])
    rw [List.append_nil] at hfront
    rw [Vfs.pathLoop]
    simp only [hr.reduceNode_loc hdroot, hfront, Option.bind_eq_bind, Option.bind_some]
    rw [hcomponents]
    by_cases hlast : rest slash path = []
    · simp only [hlast, components_nil, if_true]
      by_cases hexists : t.Exists (d ++ [front slash path])
      · simp only [if_pos hexists, hr.reduceNode_loc (.inr hexists), Option.bind_some]
        refine ⟨_, rfl, ?_, ?_, ?_⟩ <;>
          simp only [List.dropLast_concat, List.getLast?_concat, if_pos hd, if_pos hexists,
            implies_true]
      · simp only [if_neg hexists]
        refine ⟨_, rfl, ?_, ?_, ?_⟩ <;>
          simp only [List.dropLast_concat, List.getLast?_concat, if_pos hd, if_neg hexists,
            implies_true]
    · have hrest := components_ne_nil hlast (head_rest_ne path)
      rw [List.append_cons d (front slash path) (components slash (rest slash path))]
      have hdrop : ((d ++ [front slash path]) ++ components slash (rest slash path)).dropLast =
          (d ++ [front slash path]) ++ (components slash (rest slash path)).dropLast :=
        List.dropLast_append_of_ne_nil hrest
      have hnowhere (hdir : ¬ t.IsDir (d ++ [front slash path])) (errno : Option Errno) :
          FoundAt t L ((d ++ [front slash path]) ++ components slash (rest slash path))
            (.nowhere errno) := by
        apply hr.foundAt_nowhere (by simp)
        rw [hdrop]
        exact mt hr.closed.isDir_of_append hdir
      by_cases hexists : t.Exists (d ++ [front slash path])
      · obtain ⟨hdir, hlnk⟩ := hr.statIsDir_loc hexists
        simp only [if_pos hexists, hr.reduceNode_loc (.inr hexists), Option.bind_some, hlast,
          if_false, hlnk, Bool.false_eq_true]
        by_cases hisDir : t.IsDir (d ++ [front slash path])
        · rw [hdir.mpr hisDir]
          apply ih hisDir hlast (head_rest_ne path)
          · intro e c hc hde
            rw [← List.append_cons] at hde ⊢
            apply hfind _ c _ hde
            rw [hcomponents]
            exact List.cons_prefix_cons.mpr ⟨rfl, hc⟩
          · omega
        · have hfalse : statIsDir (h.modes (h.get (L.loc (d ++ [front slash path]))).resource) =
              false := Bool.eq_false_iff.mpr (mt hdir.mp hisDir)
          simp only [hfalse, Bool.not_false, if_true]
          exact ⟨_, rfl, hnowhere hisDir _⟩
      · simp only [if_neg hexists, hlast, if_false]
        exact ⟨_, rfl, hnowhere (fun h' => hexists (h'.exists (by simp))) _⟩

lemma Rep.pathLoop {root : NodePtr} (hd : t.IsDir d) (hne : path ≠ [])
    (hhead : path.head? ≠ some slash) (halias : ∀ c ∈ components slash path, ¬ Alias c)
    (hfuel : path.length + 1 ≤ fuel) :
    ∃ found, pathLoop h root fuel (L.loc d) path = some found ∧
      FoundAt t L (d ++ components slash path) found := by
  apply hr.pathLoop_of_find hd hne hhead _ hfuel
  intro e c hc hde
  exact hr.nodeGetChild hde (halias c (hc.subset (by simp)))

lemma Rep.path2node_eq_pathLoop (hpath : components slash path ≠ []) (hfuel : 2 ≤ fuel) :
    ∃ tail, tail ≠ [] ∧ tail.head? ≠ some slash ∧ tail.length ≤ path.length ∧
      components slash tail = components slash path ∧
      path2node h vfsRoot fuel vfsRoot path = Vfs.pathLoop h vfsRoot fuel (L.loc []) tail := by
  obtain ⟨fuel, rfl⟩ : ∃ k, fuel = k + 2 := ⟨fuel - 2, by omega⟩
  have hne : path ≠ [] := fun hnil => hpath (by rw [hnil, components_nil])
  rw [Vfs.path2node, pathStart]
  simp only [if_neg hne, hr.reduceNode_root, Option.bind_some, Option.map_some]
  by_cases hslash : path.head? = some slash
  · have htail : path.dropWhile (· = slash) ≠ [] := mt components_eq_nil_iff.mpr hpath
    simp only [hslash, if_true, if_neg htail, Option.bind_eq_bind, Option.bind_some]
    exact ⟨_, htail, head_dropWhile_ne path, (List.dropWhile_sublist _).length_le,
      components_dropWhile _ _, rfl⟩
  · simp only [if_neg hslash, Option.bind_eq_bind, Option.bind_some]
    exact ⟨path, hne, hslash, Nat.le_refl _, rfl, rfl⟩

lemma Rep.path2node (hpath : components slash path ≠ [])
    (halias : ∀ c ∈ components slash path, ¬ Alias c) (hfuel : path.length + 2 ≤ fuel) :
    ∃ found, path2node h vfsRoot fuel vfsRoot path = some found ∧
      FoundAt t L (components slash path) found := by
  obtain ⟨tail, hne, hhead, hlength, htail, hloop⟩ :=
    hr.path2node_eq_pathLoop hpath (by omega : 2 ≤ fuel)
  rw [hloop, ← htail]
  rw [← htail] at halias
  exact hr.pathLoop (d := []) (.inl rfl) hne hhead halias (by omega)

lemma Rep.path2node_slashes (hne : path ≠ []) (hpath : components slash path = [])
    (hfuel : 2 ≤ fuel) :
    Vfs.path2node h vfsRoot fuel vfsRoot path =
      some ⟨some (L.loc []), some (L.loc []), none, none⟩ := by
  obtain ⟨fuel, rfl⟩ : ∃ k, fuel = k + 2 := ⟨fuel - 2, by omega⟩
  have htail : path.dropWhile (· = slash) = [] := components_eq_nil_iff.mp hpath
  have hslash : path.head? = some slash := by
    cases path with
    | nil => exact absurd rfl hne
    | cons x path =>
      by_contra hx
      have hx' : x ≠ slash := fun heq => hx (by rw [heq, List.head?_cons])
      rw [List.dropWhile_cons_of_neg (by simpa using hx')] at htail
      exact List.cons_ne_nil _ _ htail
  rw [Vfs.path2node, pathStart]
  simp only [if_neg hne, hr.reduceNode_root, Option.bind_some, Option.map_some, hslash, if_true,
    htail, Option.bind_eq_bind]

end

lemma path2node_nil (h : Heap) (fuel : ℕ) :
    path2node h vfsRoot fuel vfsRoot [] = some (.nowhere (some .enoent)) := by
  rw [path2node, pathStart, if_pos rfl]
  rfl

def Layout.find (L : Layout) (t : Tree) (path : Name) : Option NodePtr :=
  if components slash path = [] then
    if path = [] then none else some (L.loc [])
  else if t.Exists (components slash path) then some (L.loc (components slash path))
  else none

lemma Rep.fsGetNode (hr : Rep h t L) (halias : ∀ c ∈ components slash path, ¬ Alias c)
    (hfuel : path.length + 2 ≤ fuel) : fsGetNode fuel path h = some (L.find t path) := by
  rw [Vfs.fsGetNode, Layout.find]
  by_cases hpath : components slash path = []
  · by_cases hne : path = []
    · subst hne
      rw [path2node_nil, if_pos hpath, if_pos rfl]
      rfl
    · rw [hr.path2node_slashes hne hpath (by omega), if_pos hpath, if_neg hne]
      rfl
  · obtain ⟨found, hfound, hat⟩ := hr.path2node hpath halias hfuel
    rw [hfound, if_neg hpath, Option.map_some, hat.node]

end

end Cottage.Vfs
