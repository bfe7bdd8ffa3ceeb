import Cottage.Fs.MountChains

/-!
# What a path leads to

`path2node` as a relation between the components of a path and what is found,
without fuel.  The recursive call for a symbolic link is a premise about the
components of its target; after it the walk goes on from the link itself, as
the loop does.
-/

namespace Cottage.Vfs

open Separated PointerChain Mounts

variable {h : Heap} {root : NodePtr}

/-- The child `c` of `current`: it is looked up in `cur`, and is `m` after
redirections and mounts. -/
structure Finds (h : Heap) (current : NodePtr) (c : Name) (cur m : NodePtr) : Prop where
  current_ends : Ends (next h) current cur
  child : ∃ n, nodeGetChild h cur c = some n ∧ Ends (next h) n m

def Heap.mode (h : Heap) (p : NodePtr) : ℕ :=
  h.modes (h.get p).resource

structure Starts (h : Heap) (root parent : NodePtr) (path : Name) (start : NodePtr) : Prop where
  nonempty : path ≠ []
  parent_ends : ∃ q, Ends (next h) parent q ∧ (path.head? ≠ some slash → start = q)
  absolute : path.head? = some slash → Ends (next h) root start

variable {parent start current p cur : NodePtr} {path c : Name} {cs : List Name} {found : Found}
  {fuel : ℕ}

section

variable (hs : Starts h root parent path start)

include hs

lemma Starts.next_eq_none : next h start = none := by
  by_cases hslash : path.head? = some slash
  · exact (hs.absolute hslash).next_eq_none
  · obtain ⟨q, hq, heq⟩ := hs.parent_ends
    rw [heq hslash]
    exact hq.next_eq_none

lemma Starts.unique {start' : NodePtr} (hs' : Starts h root parent path start') :
    start = start' := by
  by_cases hslash : path.head? = some slash
  · exact (hs.absolute hslash).unique (hs'.absolute hslash)
  · obtain ⟨q, hq, heq⟩ := hs.parent_ends
    obtain ⟨q', hq', heq'⟩ := hs'.parent_ends
    rw [heq hslash, heq' hslash, hq.unique hq']

lemma Starts.append (more : Name) : Starts h root parent (path ++ more) start := by
  have hhead : (path ++ more).head? = path.head? := List.head?_append_of_ne_nil _ hs.nonempty
  refine ⟨List.append_ne_nil_of_left_ne_nil hs.nonempty _, ?_, ?_⟩
  · rw [hhead]
    exact hs.parent_ends
  · rw [hhead]
    exact hs.absolute

end

inductive Walk (h : Heap) (root : NodePtr) : NodePtr → List Name → Found → Prop
  | stay {current cur : NodePtr} (hcur : Ends (next h) current cur) :
      Walk h root current [] ⟨some cur, some cur, none, none⟩
  | missingLast {current cur : NodePtr} {c : Name} (hcur : Ends (next h) current cur)
      (hchild : nodeGetChild h cur c = none) :
      Walk h root current [c] ⟨some cur, none, some c, some .enoent⟩
  | missing {current cur : NodePtr} {c : Name} {rest : List Name}
      (hcur : Ends (next h) current cur) (hchild : nodeGetChild h cur c = none)
      (hrest : rest ≠ []) : Walk h root current (c :: rest) (.nowhere (some .enoent))
  | last {current cur m : NodePtr} {c : Name} (hm : Finds h current c cur m) :
      Walk h root current [c] ⟨some cur, some m, some c, none⟩
  | notDir {current cur m : NodePtr} {c : Name} {rest : List Name}
      (hm : Finds h current c cur m) (hrest : rest ≠ []) (hlnk : statIsLnk (h.mode m) = false)
      (hdir : statIsDir (h.mode m) = false) :
      Walk h root current (c :: rest) (.nowhere (some .enotdir))
  | dir {current cur m : NodePtr} {c : Name} {rest : List Name} {found : Found}
      (hm : Finds h current c cur m) (hrest : rest ≠ []) (hlnk : statIsLnk (h.mode m) = false)
      (hdir : statIsDir (h.mode m) = true) (hwalk : Walk h root m rest found) :
      Walk h root current (c :: rest) found
  | emptyLink {current cur m linkParent : NodePtr} {c : Name} {rest : List Name}
      (hm : Finds h current c cur m) (hrest : rest ≠ []) (hlnk : statIsLnk (h.mode m) = true)
      (hparent : (h.get m).parent = some linkParent) (htarget : (h.get m).symlinkTarget = some []) :
      Walk h root current (c :: rest) (.nowhere (some .enoent))
  | deadLink {current cur m linkParent start : NodePtr} {c target : Name} {rest : List Name}
      {found : Found} (hm : Finds h current c cur m) (hrest : rest ≠ [])
      (hlnk : statIsLnk (h.mode m) = true) (hparent : (h.get m).parent = some linkParent)
      (htarget : (h.get m).symlinkTarget = some target)
      (hstart : Starts h root linkParent target start)
      (hlink : Walk h root start (components slash target) found) (hnode : found.node = none) :
      Walk h root current (c :: rest) (.nowhere found.errno)
  | link {current cur m linkParent start : NodePtr} {c target : Name} {rest : List Name}
      {found found' : Found} (hm : Finds h current c cur m) (hrest : rest ≠ [])
      (hlnk : statIsLnk (h.mode m) = true) (hparent : (h.get m).parent = some linkParent)
      (htarget : (h.get m).symlinkTarget = some target)
      (hstart : Starts h root linkParent target start)
      (hlink : Walk h root start (components slash target) found) (hnode : found.node ≠ none)
      (hwalk : Walk h root m rest found') : Walk h root current (c :: rest) found'

def Lookup (h : Heap) (root parent : NodePtr) (path : Name) (found : Found) : Prop :=
  path = [] ∧ found = .nowhere (some .enoent) ∨
    ∃ start, Starts h root parent path start ∧ Walk h root start (components slash path) found

lemma Walk.next_eq_none (hwalk : Walk h root current cs found) (hp : found.node = some p) :
    next h p = none := by
  induction hwalk with
  | stay hcur =>
    cases hp
    exact hcur.next_eq_none
  | last hm =>
    cases hp
    obtain ⟨n, _, hends⟩ := hm.child
    exact hends.next_eq_none
  | dir _ _ _ _ _ ih => exact ih hp
  | link _ _ _ _ _ _ _ _ _ _ ih => exact ih hp
  | _ => cases hp

lemma Lookup.next_eq_none (hlookup : Lookup h root parent path found) (hp : found.node = some p) :
    next h p = none := by
  rcases hlookup with ⟨_, rfl⟩ | ⟨start, _, hwalk⟩
  · cases hp
  · exact hwalk.next_eq_none hp

section Round

variable {fuel : ℕ} {current cur : NodePtr} {path : Name}

lemma pathLoop_missing (hcur : reduceNode h fuel current = some cur)
    (hchild : nodeGetChild h cur (front slash path) = none) :
    pathLoop h root (fuel + 1) current path =
      if rest slash path = [] then
        some ⟨some cur, none, some (front slash path), some .enoent⟩
      else some (.nowhere (some .enoent)) := by
  rw [pathLoop, hcur]
  simp only [Option.bind_eq_bind, Option.bind_some, hchild]

/-- The rest of a round that has found the child `m`. -/
def afterChild (h : Heap) (root : NodePtr) (fuel : ℕ) (cur m : NodePtr) (path : Name) :
    Option Found :=
  if rest slash path = [] then some ⟨some cur, some m, some (front slash path), none⟩
  else if statIsLnk (h.mode m) then
    (h.get m).parent.bind fun linkParent => (h.get m).symlinkTarget.bind fun target =>
      (path2node h root fuel linkParent target).bind fun link =>
        if link.node = none then some (.nowhere link.errno)
        else pathLoop h root fuel m (rest slash path)
  else if !statIsDir (h.mode m) then some (.nowhere (some .enotdir))
  else pathLoop h root fuel m (rest slash path)

lemma pathLoop_found {n m : NodePtr} (hcur : reduceNode h fuel current = some cur)
    (hchild : nodeGetChild h cur (front slash path) = some n)
    (hm : reduceNode h fuel n = some m) :
    pathLoop h root (fuel + 1) current path = afterChild h root fuel cur m path := by
  rw [pathLoop, hcur, Option.bind_eq_bind, Option.bind_some, hchild]
  simp only [Option.bind_eq_bind, hm, Option.bind_some, afterChild, Heap.mode]
  refine if_congr Iff.rfl rfl (if_congr Iff.rfl ?_ rfl)
  refine congrArg _ (funext fun linkParent => congrArg _ (funext fun target => ?_))
  rw [path2node, Option.bind_eq_bind, Option.bind_assoc]
  refine congrArg _ (funext fun start => ?_)
  cases start with
  | inl link => rfl
  | inr start => rfl

lemma pathLoop_eq_some {found : Found}
    (hloop : pathLoop h root (fuel + 1) current path = some found) :
    ∃ cur, reduceNode h fuel current = some cur ∧
      (nodeGetChild h cur (front slash path) = none ∨
        ∃ n m, nodeGetChild h cur (front slash path) = some n ∧ reduceNode h fuel n = some m) := by
  obtain ⟨cur, hcur, hrest⟩ := Option.bind_eq_some_iff.mp hloop
  refine ⟨cur, hcur, ?_⟩
  cases hchild : nodeGetChild h cur (front slash path) with
  | none => exact .inl rfl
  | some n =>
    rw [hchild] at hrest
    obtain ⟨m, hm, _⟩ := Option.bind_eq_some_iff.mp hrest
    exact .inr ⟨n, m, rfl, hm⟩

end Round

lemma components_rest_eq_nil_iff :
    components slash (rest slash path) = [] ↔ rest slash path = [] := by
  constructor
  · intro hnil
    by_contra hne
    exact components_ne_nil hne (head_rest_ne path) hnil
  · intro hnil
    rw [hnil, components_nil]

lemma rest_ne_nil (hcs : components slash (rest slash path) = cs) (hne : cs ≠ []) :
    rest slash path ≠ [] :=
  fun hnil => hne (hcs.symm.trans (components_rest_eq_nil_iff.mpr hnil))

lemma path2node_eq {q : NodePtr} (hne : path ≠ []) (hparent : reduceNode h fuel parent = some q)
    (habsolute : path.head? = some slash → reduceNode h fuel root = some start)
    (hrelative : path.head? ≠ some slash → start = q) :
    path2node h root fuel parent path =
      if components slash path = [] then some ⟨some start, some start, none, none⟩
      else pathLoop h root fuel start (path.dropWhile (· = slash)) := by
  rw [path2node, pathStart, if_neg hne, hparent, Option.bind_some]
  simp only [components_eq_nil_iff]
  by_cases hslash : path.head? = some slash
  · rw [if_pos hslash, habsolute hslash, Option.map_some]
    split_ifs <;> rfl
  · obtain rfl := hrelative hslash
    have hdrop : path.dropWhile (· = slash) = path := by
      cases path with
      | nil => rfl
      | cons x path =>
        rw [List.dropWhile_cons_of_neg]
        simpa using hslash
    rw [if_neg hslash, hdrop, if_neg hne]
    rfl

lemma path2node_eq_some (hne : path ≠ []) (hcall : path2node h root fuel parent path = some found) :
    ∃ q start, reduceNode h fuel parent = some q ∧
      (path.head? = some slash → reduceNode h fuel root = some start) ∧
      (path.head? ≠ some slash → start = q) := by
  obtain ⟨result, hstart, _⟩ := Option.bind_eq_some_iff.mp hcall
  rw [pathStart, if_neg hne] at hstart
  obtain ⟨q, hq, hstart⟩ := Option.bind_eq_some_iff.mp hstart
  by_cases hslash : path.head? = some slash
  · rw [if_pos hslash] at hstart
    obtain ⟨top, htop, _⟩ := Option.map_eq_some_iff.mp hstart
    exact ⟨q, top, hq, fun _ => htop, fun hnot => absurd hslash hnot⟩
  · exact ⟨q, q, hq, fun hyes => absurd hyes hslash, fun _ => rfl⟩

lemma lookup_of_loop
    (hloop : ∀ start path', path' ≠ [] → path'.head? ≠ some slash →
      pathLoop h root fuel start path' = some found →
        Walk h root start (components slash path') found)
    (hcall : path2node h root fuel parent path = some found) : Lookup h root parent path found := by
  by_cases hnil : path = []
  · subst hnil
    exact .inl ⟨rfl, (Option.some.inj hcall).symm⟩
  · obtain ⟨q, start, hq, habsolute, hrelative⟩ := path2node_eq_some hnil hcall
    rw [path2node_eq hnil hq habsolute hrelative] at hcall
    have hstarts : Starts h root parent path start :=
      ⟨hnil, ⟨q, ends_of_reduceNode hq, hrelative⟩, fun hslash =>
        ends_of_reduceNode (habsolute hslash)⟩
    refine .inr ⟨start, hstarts, ?_⟩
    split_ifs at hcall with hcomponents
    · rw [hcomponents, ← Option.some.inj hcall]
      exact .stay (.stop hstarts.next_eq_none)
    · rw [← components_dropWhile]
      apply hloop
      · exact fun h => hcomponents (components_eq_nil_iff.mpr h)
      · exact head_dropWhile_ne path
      · exact hcall

lemma walk_of_pathLoop (hne : path ≠ []) (hhead : path.head? ≠ some slash)
    (hloop : pathLoop h root fuel current path = some found) :
    Walk h root current (components slash path) found := by
  induction fuel generalizing current path found with
  | zero => cases hloop
  | succ fuel ih =>
    rw [components_eq_cons hne hhead]
    obtain ⟨cur, hreduce, hchild | ⟨n, m, hchild, hm⟩⟩ := pathLoop_eq_some hloop
    · have hcur := ends_of_reduceNode hreduce
      rw [pathLoop_missing hreduce hchild] at hloop
      split_ifs at hloop with hlast
      · cases hloop
        rw [components_rest_eq_nil_iff.mpr hlast]
        exact .missingLast hcur hchild
      · cases hloop
        exact .missing hcur hchild fun h => hlast (components_rest_eq_nil_iff.mp h)
    · have hfinds : Finds h current (front slash path) cur m :=
        ⟨ends_of_reduceNode hreduce, n, hchild, ends_of_reduceNode hm⟩
      rw [pathLoop_found hreduce hchild hm, afterChild] at hloop
      by_cases hlast : rest slash path = []
      · rw [if_pos hlast, Option.some.injEq] at hloop
        subst hloop
        rw [components_rest_eq_nil_iff.mpr hlast]
        exact .last hfinds
      · have hrest : components slash (rest slash path) ≠ [] :=
          fun h => hlast (components_rest_eq_nil_iff.mp h)
        rw [if_neg hlast] at hloop
        by_cases hlnk : statIsLnk (h.mode m) = true
        · rw [if_pos hlnk] at hloop
          obtain ⟨linkParent, hparent, hloop⟩ := Option.bind_eq_some_iff.mp hloop
          obtain ⟨target, htarget, hloop⟩ := Option.bind_eq_some_iff.mp hloop
          obtain ⟨link, hlink, hloop⟩ := Option.bind_eq_some_iff.mp hloop
          rcases lookup_of_loop (fun _ _ hne hhead hloop => ih hne hhead hloop) hlink with
            ⟨rfl, rfl⟩ | ⟨start, hstart, hwalk⟩
          · cases hloop
            exact .emptyLink hfinds hrest hlnk hparent htarget
          · by_cases hnode : link.node = none
            · rw [if_pos hnode, Option.some.injEq] at hloop
              subst hloop
              exact .deadLink hfinds hrest hlnk hparent htarget hstart hwalk hnode
            · rw [if_neg hnode] at hloop
              exact .link hfinds hrest hlnk hparent htarget hstart hwalk hnode
                (ih hlast (head_rest_ne path) hloop)
        · rw [if_neg hlnk] at hloop
          rw [Bool.not_eq_true] at hlnk
          cases hdir : statIsDir (h.mode m) with
          | true =>
            rw [hdir] at hloop
            exact .dir hfinds hrest hlnk hdir (ih hlast (head_rest_ne path) hloop)
          | false =>
            rw [hdir] at hloop
            cases hloop
            exact .notDir hfinds hrest hlnk hdir

lemma lookup_of_path2node (hcall : path2node h root fuel parent path = some found) :
    Lookup h root parent path found :=
  lookup_of_loop (fun _ _ => walk_of_pathLoop) hcall

/-! ## A walk is taken by the loop -/

lemma reduceNode_of_ends {r : NodePtr} (hr : Ends (next h) p r) :
    ∃ n, ∀ fuel, n ≤ fuel → reduceNode h fuel p = some r := by
  induction hr with
  | stop hnext =>
    refine ⟨1, fun fuel hfuel => ?_⟩
    obtain ⟨fuel, rfl⟩ := Nat.exists_eq_add_of_le' hfuel
    rw [reduceNode_succ, hnext]
  | step hnext _ ih =>
    obtain ⟨n, hn⟩ := ih
    refine ⟨n + 1, fun fuel hfuel => ?_⟩
    obtain ⟨fuel, rfl⟩ := Nat.exists_eq_add_of_le' hfuel
    rw [← Nat.add_assoc, reduceNode_succ, hnext]
    exact hn _ (Nat.le_add_left _ _)

def LoopFinds (h : Heap) (root current : NodePtr) (cs : List Name) (found : Found)
    (fuel : ℕ) : Prop :=
  ∀ path, path ≠ [] → path.head? ≠ some slash → components slash path = cs →
    pathLoop h root fuel current path = some found

lemma path2node_of_starts (hstart : Starts h root parent path start)
    (hwalk : Walk h root start (components slash path) found)
    (hloop : ∃ n, ∀ fuel, n ≤ fuel → LoopFinds h root start (components slash path) found fuel) :
    ∃ n, ∀ fuel, n ≤ fuel → path2node h root fuel parent path = some found := by
  obtain ⟨q, hq, hrelative⟩ := hstart.parent_ends
  obtain ⟨n₁, hn₁⟩ := reduceNode_of_ends hq
  obtain ⟨n₂, hn₂⟩ := hloop
  have habsolute : ∃ n, ∀ fuel, n ≤ fuel → path.head? = some slash →
      reduceNode h fuel root = some start := by
    by_cases hslash : path.head? = some slash
    · obtain ⟨n, hn⟩ := reduceNode_of_ends (hstart.absolute hslash)
      exact ⟨n, fun fuel hfuel _ => hn fuel hfuel⟩
    · exact ⟨0, fun _ _ hyes => absurd hyes hslash⟩
  obtain ⟨n₃, hn₃⟩ := habsolute
  refine ⟨max n₁ (max n₂ n₃), fun fuel hfuel => ?_⟩
  rw [path2node_eq hstart.nonempty (hn₁ fuel (by omega)) (hn₃ fuel (by omega)) hrelative]
  split_ifs with hcomponents
  · rw [hcomponents] at hwalk
    cases hwalk with
    | stay hcur => rw [(Ends.stop hstart.next_eq_none).unique hcur]
  · apply hn₂ fuel (by omega)
    · exact fun h => hcomponents (components_eq_nil_iff.mpr h)
    · exact head_dropWhile_ne path
    · exact components_dropWhile slash path

lemma Finds.reduceNode {m : NodePtr} (hm : Finds h current c cur m) :
    ∃ k n, nodeGetChild h cur c = some k ∧ ∀ fuel, n ≤ fuel →
      reduceNode h fuel current = some cur ∧ reduceNode h fuel k = some m := by
  obtain ⟨k, hk, hends⟩ := hm.child
  obtain ⟨n₁, hn₁⟩ := reduceNode_of_ends hm.current_ends
  obtain ⟨n₂, hn₂⟩ := reduceNode_of_ends hends
  exact ⟨k, max n₁ n₂, hk, fun fuel hfuel => ⟨hn₁ fuel (by omega), hn₂ fuel (by omega)⟩⟩

lemma loopFinds_missing (cs : List Name) (hcur : Ends (next h) current cur)
    (hchild : nodeGetChild h cur c = none) :
    ∃ n, ∀ fuel, n ≤ fuel → LoopFinds h root current (c :: cs)
      (if cs = [] then ⟨some cur, none, some c, some .enoent⟩
        else .nowhere (some .enoent)) fuel := by
  obtain ⟨n, hn⟩ := reduceNode_of_ends hcur
  refine ⟨n + 1, fun fuel hfuel path hne hhead hcomponents => ?_⟩
  obtain ⟨fuel, rfl⟩ := Nat.exists_eq_add_of_le' hfuel
  rw [components_eq_cons hne hhead, List.cons_eq_cons] at hcomponents
  obtain ⟨rfl, rfl⟩ := hcomponents
  rw [← Nat.add_assoc, pathLoop_missing (hn _ (Nat.le_add_left _ _)) hchild]
  simp only [components_rest_eq_nil_iff]
  split_ifs <;> rfl

lemma Finds.loopFinds {m : NodePtr} (hm : Finds h current c cur m)
    (hafter : ∃ n, ∀ fuel, n ≤ fuel → ∀ path, path ≠ [] → path.head? ≠ some slash →
      front slash path = c → components slash (rest slash path) = cs →
        afterChild h root fuel cur m path = some found) :
    ∃ n, ∀ fuel, n ≤ fuel → LoopFinds h root current (c :: cs) found fuel := by
  obtain ⟨k, n₁, hchild, hn₁⟩ := hm.reduceNode
  obtain ⟨n₂, hn₂⟩ := hafter
  refine ⟨max n₁ n₂ + 1, fun fuel hfuel path hne hhead hcomponents => ?_⟩
  obtain ⟨fuel, rfl⟩ := Nat.exists_eq_add_of_le' hfuel
  rw [components_eq_cons hne hhead, List.cons_eq_cons] at hcomponents
  obtain ⟨hfront, hrest⟩ := hcomponents
  obtain ⟨hcur, hk⟩ := hn₁ (fuel + max n₁ n₂) (by omega)
  rw [← Nat.add_assoc, pathLoop_found hcur (hfront ▸ hchild) hk]
  exact hn₂ _ (by omega) path hne hhead hfront hrest

lemma Walk.loopFinds (hwalk : Walk h root current cs found) :
    ∃ n, ∀ fuel, n ≤ fuel → LoopFinds h root current cs found fuel := by
  induction hwalk with
  | stay hcur =>
    refine ⟨0, fun fuel _ path hne hhead hcomponents => ?_⟩
    exact absurd hcomponents (components_ne_nil hne hhead)
  | missingLast hcur hchild => exact loopFinds_missing [] hcur hchild
  | missing hcur hchild hrest =>
    obtain ⟨n, hn⟩ := loopFinds_missing _ hcur hchild
    refine ⟨n, fun fuel hfuel => ?_⟩
    have hloop := hn fuel hfuel
    rwa [if_neg hrest] at hloop
  | last hm =>
    apply hm.loopFinds
    refine ⟨0, fun fuel _ path _ _ hfront hrest => ?_⟩
    rw [afterChild, if_pos (components_rest_eq_nil_iff.mp hrest), hfront]
  | notDir hm hrest hlnk hdir =>
    apply hm.loopFinds
    refine ⟨0, fun fuel _ path _ _ _ hcs => ?_⟩
    rw [afterChild, if_neg (rest_ne_nil hcs hrest), hlnk, hdir]
    rfl
  | dir hm hrest hlnk hdir _ ih =>
    obtain ⟨n, hn⟩ := ih
    apply hm.loopFinds
    refine ⟨n, fun fuel hfuel path _ _ _ hcs => ?_⟩
    rw [afterChild, if_neg (rest_ne_nil hcs hrest), hlnk, hdir]
    exact hn fuel hfuel _ (rest_ne_nil hcs hrest) (head_rest_ne path) hcs
  | emptyLink hm hrest hlnk hparent htarget =>
    apply hm.loopFinds
    refine ⟨0, fun fuel _ path _ _ _ hcs => ?_⟩
    rw [afterChild, if_neg (rest_ne_nil hcs hrest), if_pos hlnk, hparent, Option.bind_some,
      htarget, Option.bind_some]
    rfl
  | deadLink hm hrest hlnk hparent htarget hstart hlink hnode ih =>
    obtain ⟨n, hn⟩ := path2node_of_starts hstart hlink ih
    apply hm.loopFinds
    refine ⟨n, fun fuel hfuel path _ _ _ hcs => ?_⟩
    rw [afterChild, if_neg (rest_ne_nil hcs hrest), if_pos hlnk, hparent, Option.bind_some,
      htarget, Option.bind_some, hn fuel hfuel, Option.bind_some, if_pos hnode]
  | link hm hrest hlnk hparent htarget hstart hlink hnode _ ih ih' =>
    obtain ⟨n, hn⟩ := path2node_of_starts hstart hlink ih
    obtain ⟨n', hn'⟩ := ih'
    apply hm.loopFinds
    refine ⟨max n n', fun fuel hfuel path _ _ _ hcs => ?_⟩
    rw [afterChild, if_neg (rest_ne_nil hcs hrest), if_pos hlnk, hparent, Option.bind_some,
      htarget, Option.bind_some, hn fuel (by omega), Option.bind_some, if_neg hnode]
    exact hn' fuel (by omega) _ (rest_ne_nil hcs hrest) (head_rest_ne path) hcs

lemma path2node_of_lookup (hlookup : Lookup h root parent path found) :
    ∃ n, ∀ fuel, n ≤ fuel → path2node h root fuel parent path = some found := by
  rcases hlookup with ⟨rfl, rfl⟩ | ⟨start, hstart, hwalk⟩
  · exact ⟨0, fun _ _ => rfl⟩
  · exact path2node_of_starts hstart hwalk hwalk.loopFinds

lemma Lookup.unique {found' : Found} (hlookup : Lookup h root parent path found)
    (hlookup' : Lookup h root parent path found') : found = found' := by
  obtain ⟨n, hn⟩ := path2node_of_lookup hlookup
  obtain ⟨n', hn'⟩ := path2node_of_lookup hlookup'
  exact Option.some.inj ((hn (max n n') (by omega)).symm.trans (hn' (max n n') (by omega)))

end Cottage.Vfs
