import Cottage.Fs.VfsRefinement

/-!
# Paths with aliases

The root of the mounted file system has the two aliases as its first children,
and both lead back to it.

A path therefore leads to the entry with its components, where the aliases at
the beginning do not count.
-/

namespace Cottage.Vfs

open Separated

def resolved (path : Name) : Path :=
  (components slash path).dropWhile (Alias ·)

structure Dotted (h : Heap) (t : Tree) (L : Layout) : Prop extends Rep h t L where
  dots_count : 2 ≤ h.count (L.loc [])
  dot_name : (h.get (.child (L.array []) 0)).name = dot
  dot_redir : (h.get (.child (L.array []) 0)).redir = some (L.loc [])
  dotdot_name : (h.get (.child (L.array []) 1)).name = dotdot
  dotdot_redir : (h.get (.child (L.array []) 1)).redir = some vfsRoot
  entries : ∀ d, t.IsDir d → ∀ i < h.count (L.loc d), (d = [] → 2 ≤ i) →
    t.Exists (d ++ [(h.get (.child (L.array d) i)).name]) ∧
      L.loc (d ++ [(h.get (.child (L.array d) i)).name]) = .child (L.array d) i
  root_names : ∀ c, t.Exists [c] → ¬ Alias c
  root_dir : (h.get (L.loc [])).resource < h.nextResource ∧
    statIsDir (h.modes (h.get (L.loc [])).resource) = true ∧
    statIsLnk (h.modes (h.get (L.loc [])).resource) = false

variable {h : Heap} {t : Tree} {L : Layout}

lemma dotted_mounted : Dotted mounted [] mountLayout where
  toRep := rep_mounted
  dots_count := by decide
  dot_name := by decide
  dot_redir := by decide
  dotdot_name := by decide
  dotdot_redir := by decide
  entries := by
    intro d hd i hi hdots
    obtain rfl : d = [] := by
      rcases hd with rfl | ⟨e, he, _⟩
      · rfl
      · cases he
    have hcount : mounted.count (mountLayout.loc []) = 2 := by decide
    have hle := hdots rfl
    omega
  root_names := by
    rintro c ⟨e, he, _⟩
    cases he
  root_dir := by decide

variable {c path : Name} {fuel mode : ℕ}

lemma Dotted.nodeGetChild_alias (hd : Dotted h t L) (hc : Alias c) (hfuel : c.length + 1 ≤ fuel) :
    ∃ q, nodeGetChild h (L.loc []) c = some q ∧ reduceNode h fuel q = some (L.loc []) := by
  obtain ⟨n, hn⟩ : ∃ n, (h.get (L.loc [])).childrenCount.toNat = n + 2 :=
    ⟨h.count (L.loc []) - 2, (Nat.sub_add_cancel hd.dots_count).symm⟩
  have hdot : (h.arrays (L.array []) 0).name = dot := hd.dot_name
  have hdotdot : (h.arrays (L.array []) 1).name = dotdot := hd.dotdot_name
  rw [nodeGetChild, (hd.children [] (.inl rfl)).1, Option.bind_some, hn, List.range_succ_eq_map,
    List.find?_cons]
  rcases hc with rfl | rfl
  · obtain ⟨fuel, rfl⟩ : ∃ k, fuel = k + 2 := ⟨fuel - 2, (Nat.sub_add_cancel hfuel).symm⟩
    refine ⟨_, by rw [hdot, decide_eq_true rfl, Option.map_some], ?_⟩
    rw [reduceNode, hd.dot_redir]
    exact hd.reduceNode_loc (.inl rfl) fuel
  · obtain ⟨fuel, rfl⟩ : ∃ k, fuel = k + 3 := ⟨fuel - 3, (Nat.sub_add_cancel hfuel).symm⟩
    have hne : decide (dot = dotdot) = false := by decide
    rw [hdot, hne, List.range_succ_eq_map, List.map_cons, List.find?_cons, hdotdot,
      decide_eq_true rfl, Option.map_some]
    refine ⟨_, rfl, ?_⟩
    rw [reduceNode, hd.dotdot_redir]
    exact hd.reduceNode_root fuel

lemma Dotted.nodeGetChild (hd : Dotted h t L) {d : Path} (hdir : t.IsDir d)
    (hc : d = [] → ¬ Alias c) :
    nodeGetChild h (L.loc d) c = if t.Exists (d ++ [c]) then some (L.loc (d ++ [c])) else none := by
  apply hd.nodeGetChild_of_named hdir
  rintro i hi rfl
  apply hd.entries d hdir i hi
  rintro rfl
  by_contra hlt
  apply hc rfl
  obtain rfl | rfl : i = 0 ∨ i = 1 := by omega
  · exact .inl hd.dot_name
  · exact .inr hd.dotdot_name

lemma resolved_of_alias (hne : path ≠ []) (hhead : path.head? ≠ some slash)
    (halias : Alias (front slash path)) : resolved path = resolved (rest slash path) := by
  rw [resolved, components_eq_cons hne hhead,
    List.dropWhile_cons_of_pos (p := (Alias ·)) (decide_eq_true halias), resolved]

lemma resolved_of_not_alias (hne : path ≠ []) (hhead : path.head? ≠ some slash)
    (halias : ¬ Alias (front slash path)) : resolved path = components slash path := by
  rw [resolved, components_eq_cons hne hhead,
    List.dropWhile_cons_of_neg (p := (Alias ·)) (by rwa [decide_eq_true_eq])]

lemma not_alias_of_resolved (hc : resolved path = [c]) : ¬ Alias c := by
  have hdrop := List.head?_dropWhile_not (fun c => decide (Alias c)) (components slash path)
  rw [show (components slash path).dropWhile (fun c => decide (Alias c)) = [c] from hc] at hdrop
  simpa using hdrop

def Leads (t : Tree) (L : Layout) (p : Path) (found : Found) : Prop :=
  if p = [] then found.node = some (L.loc []) else FoundAt t L p found

lemma Dotted.pathLoop (hd : Dotted h t L) {root : NodePtr} (hne : path ≠ [])
    (hhead : path.head? ≠ some slash) (hfuel : path.length + 2 ≤ fuel) :
    ∃ found, pathLoop h root fuel (L.loc []) path = some found ∧
      Leads t L (resolved path) found := by
  induction fuel generalizing path with
  | zero => omega
  | succ fuel ih =>
    have hcomponents := components_eq_cons hne hhead
    by_cases halias : Alias (front slash path)
    · have hfront : (front slash path).length ≤ path.length :=
        (List.takeWhile_sublist _).length_le
      obtain ⟨q, hchild, hreduce⟩ := hd.nodeGetChild_alias halias
        (by omega : (front slash path).length + 1 ≤ fuel)
      obtain ⟨fuel, rfl⟩ : ∃ k, fuel = k + 1 := ⟨fuel - 1, by omega⟩
      obtain ⟨_, hdir, hlnk⟩ := hd.root_dir
      rw [Vfs.pathLoop, resolved_of_alias hne hhead halias]
      simp only [hd.reduceNode_loc (.inl rfl), hchild, hreduce, Option.bind_eq_bind,
        Option.bind_some, hdir, hlnk, Bool.not_true, Bool.false_eq_true, if_false]
      by_cases hlast : rest slash path = []
      · simp only [hlast, if_true]
        exact ⟨_, rfl, (if_pos rfl).mpr rfl⟩
      · simp only [hlast, if_false]
        have hlength := length_rest_lt hne hhead
        exact ih hlast (head_rest_ne path) (by omega)
    · rw [resolved_of_not_alias hne hhead halias]
      have hfirst (e : Path) (c : Name) (hc : e ++ [c] <+: components slash path)
          (hnil : [] ++ e = []) : ¬ Alias c := by
        rw [List.nil_append] at hnil
        rw [hnil, List.nil_append, hcomponents, List.cons_prefix_cons] at hc
        rwa [hc.1]
      have hloop : ∃ found, Vfs.pathLoop h root (fuel + 1) (L.loc []) path = some found ∧
          FoundAt t L ([] ++ components slash path) found :=
        hd.pathLoop_of_find (.inl rfl) hne hhead
          (fun e c hc hdir => hd.nodeGetChild hdir (hfirst e c hc)) (by omega)
      obtain ⟨found, hfound, hat⟩ := hloop
      exact ⟨found, hfound, (if_neg (components_ne_nil hne hhead)).mpr hat⟩

lemma Dotted.path2node (hd : Dotted h t L) (hne : path ≠ []) (hfuel : path.length + 2 ≤ fuel) :
    ∃ found, path2node h vfsRoot fuel vfsRoot path = some found ∧
      Leads t L (resolved path) found := by
  by_cases hpath : components slash path = []
  · have hresolved : resolved path = [] := by
      rw [resolved, hpath]
      rfl
    exact ⟨_, hd.path2node_slashes hne hpath (by omega), (if_pos hresolved).mpr rfl⟩
  · obtain ⟨tail, htail, hhead, hlength, hcomponents, hloop⟩ :=
      hd.path2node_eq_pathLoop hpath (by omega : 2 ≤ fuel)
    have hresolved : resolved tail = resolved path := by rw [resolved, hcomponents, resolved]
    rw [hloop, ← hresolved]
    exact hd.pathLoop htail hhead (by omega)

lemma Dotted.fsCreate_fails (hd : Dotted h t L) (hfuel : path.length + 2 ≤ fuel)
    (hnot : ¬ t.Creatable (resolved path)) :
    ∃ errno, fsCreate fuel path mode h = some (h, none, errno) := by
  by_cases hne : path = []
  · subst hne
    rw [fsCreate, internalCreate, path2node_nil]
    exact ⟨_, rfl⟩
  · obtain ⟨found, hfound, hleads⟩ := hd.path2node hne hfuel
    rw [Leads] at hleads
    split_ifs at hleads with hnil
    · rw [fsCreate, internalCreate]
      simp only [hfound, Option.bind_eq_bind, Option.bind_some, hleads]
      exact ⟨_, rfl⟩
    · exact hleads.fsCreate_fails hfound hnil hnot

lemma Dotted.loc_ne_alias (hd : Dotted h t L) {p : Path} (hp : p = [] ∨ t.Exists p) {i : ℕ}
    (hi : i < 2) : L.loc p ≠ .child (L.array []) i := by
  rcases hp with rfl | hp
  · obtain ⟨id, hid, _, _⟩ := hd.loc_root
    rw [hid]
    exact NodePtr.noConfusion
  · obtain ⟨d, c, j, rfl, hdir, _, hloc, hname⟩ := hd.loc_eq hp
    rw [hloc]
    intro heq
    obtain ⟨harray, rfl⟩ := NodePtr.child.inj heq
    obtain rfl := hd.array_inj d [] hdir (.inl rfl) harray
    apply hd.root_names c hp
    rw [← hname]
    obtain rfl | rfl : j = 0 ∨ j = 1 := by omega
    · exact .inl hd.dot_name
    · exact .inr hd.dotdot_name

/-- A directory counts what is in it, and the root also the two aliases. -/
lemma Dotted.count_eq (hd : Dotted h t L) {d : Path} (hdir : t.IsDir d) {paths : List Path}
    (hnodup : paths.Nodup) (hpaths : ∀ p, p ∈ paths ↔ t.Exists p ∧ p.dropLast = d) :
    h.count (L.loc d) = (if d = [] then 2 else 0) + paths.length := by
  obtain ⟨first, hfirst⟩ : ∃ first, first = if d = [] then 2 else 0 := ⟨_, rfl⟩
  have hle : first ≤ h.count (L.loc d) := by
    rw [hfirst]
    split_ifs with hroot
    · exact hroot ▸ hd.dots_count
    · exact Nat.zero_le _
  have hcell (i : ℕ) (hi : i ∈ List.range' first (h.count (L.loc d) - first)) :
      t.Exists (d ++ [(h.get (.child (L.array d) i)).name]) ∧
        L.loc (d ++ [(h.get (.child (L.array d) i)).name]) = .child (L.array d) i := by
    rw [List.mem_range'_1] at hi
    refine hd.entries d hdir i (by omega) fun hroot => ?_
    rw [if_pos hroot] at hfirst
    omega
  have hperm : ((List.range' first (h.count (L.loc d) - first)).map fun i =>
      d ++ [(h.get (.child (L.array d) i)).name]).Perm paths := by
    refine (List.perm_ext_iff_of_nodup (List.Nodup.map_on ?_ List.nodup_range') hnodup).mpr ?_
    · intro i hi j hj heq
      have hsame := (hcell i hi).2.symm.trans ((congrArg L.loc heq).trans (hcell j hj).2)
      exact (NodePtr.child.inj hsame).2
    · intro p
      rw [hpaths, List.mem_map]
      constructor
      · rintro ⟨i, hi, rfl⟩
        exact ⟨(hcell i hi).1, List.dropLast_concat⟩
      · rintro ⟨hexists, rfl⟩
        obtain ⟨d, c, i, rfl, _, hi, hloc, hname⟩ := hd.loc_eq hexists
        rw [List.dropLast_concat] at *
        refine ⟨i, List.mem_range'_1.mpr ⟨?_, by omega⟩, by rw [hname]⟩
        rw [hfirst]
        split_ifs with hroot
        · subst hroot
          by_contra hlt
          exact hd.loc_ne_alias (.inr hexists) (not_le.mp hlt) hloc
        · exact Nat.zero_le i
  have hlength := hperm.length_eq
  rw [List.length_map, List.length_range'] at hlength
  rw [← hfirst]
  omega

lemma Dotted.createdAt (hd : Dotted h t L) {p : Path} {h' : Heap} {node : NodePtr}
    (hnew : t.Creatable p) (hname : ∀ c, p = [c] → ¬ Alias c) (hmode : ModeOk mode)
    (hat : CreatedAt h t L p mode h' node) :
    Dotted h' (⟨p, (h'.get node).resource, mode &&& statIfmt = statIfdir⟩ :: t)
      (L.extend p (.child (L.array p.dropLast) (h.count (L.loc p.dropLast))) h.nextArray) := by
  obtain ⟨hp, hexists, hdir⟩ := hnew
  have hc := hat.created
  have hdroot := hdir.root_or_exists
  have hroot : t.IsDir [] := .inl rfl
  have hne {q : Path} (hq : q = [] ∨ t.Exists q) : q ≠ p := by
    rintro rfl
    exact hq.elim hp hexists
  have hloc := L.extend_loc_of_ne (.child (L.array p.dropLast) (h.count (L.loc p.dropLast)))
    h.nextArray (hne (.inl rfl))
  have harray := L.extend_array_of_ne (.child (L.array p.dropLast) (h.count (L.loc p.dropLast)))
    h.nextArray (hne (.inl rfl))
  have hcells {i : ℕ} (hi : i < 2) :
      h'.get (.child (L.array []) i) = h.get (.child (L.array []) i) := by
    refine hc.old _ (hd.array_old [] hroot) (hd.loc_ne_alias hdroot hi).symm ?_
    intro heq
    obtain ⟨hsame, hindex⟩ := NodePtr.child.inj heq
    rw [← hd.array_inj [] _ hroot hdir hsame] at hindex
    have hcount := hd.dots_count
    omega
  have hold := hd.loc_old (.inl rfl : ([] : Path) = [] ∨ t.Exists [])
  have hnext := hd.loc_ne_next hdir (.inl rfl : ([] : Path) = [] ∨ t.Exists [])
  constructor
  case toRep => exact hat.rep
  case dots_count =>
    rw [hloc]
    exact hd.dots_count.trans (hc.count_le hold hnext)
  case dot_name => rw [harray, hcells Nat.zero_lt_two, hd.dot_name]
  case dot_redir => rw [harray, hloc, hcells Nat.zero_lt_two, hd.dot_redir]
  case dotdot_name => rw [harray, hcells Nat.one_lt_two, hd.dotdot_name]
  case dotdot_redir => rw [harray, hcells Nat.one_lt_two, hd.dotdot_redir]
  case entries =>
    intro e he i hi hdots
    rcases Tree.isDir_cons.mp he with ⟨rfl, hisDir⟩ | he
    · dsimp only at hisDir hi
      rw [← hmode.statIsDir_eq] at hisDir
      rw [L.extend_loc_self, Heap.count, hc.cell, freshNode, hisDir] at hi
      cases hi
    · have heroot := he.root_or_exists
      rw [L.extend_loc_of_ne _ _ (hne heroot)] at hi
      rw [L.extend_array_of_ne _ _ (hne heroot)]
      rcases hd.child_of_created hdir hc he hi with ⟨rfl, rfl⟩ | ⟨hi', hsame⟩
      · have hlast : p.dropLast ++ [p.getLastD []] = p := by
          rw [List.getLastD_eq_getLast?, List.getLast?_eq_getLast_of_ne_nil hp, Option.getD_some,
            List.dropLast_concat_getLast]
        have hcell : (h'.get (.child (L.array p.dropLast) (h.count (L.loc p.dropLast)))).name =
            p.getLastD [] := by
          rw [hc.cell, freshNode]
        rw [hcell, hlast]
        exact ⟨Tree.exists_cons.mpr (.inl rfl), L.extend_loc_self _ _ _⟩
      · rw [hsame]
        obtain ⟨hentry, hplace⟩ := hd.entries e he i hi' hdots
        rw [L.extend_loc_of_ne _ _ (hne (.inr hentry))]
        exact ⟨Tree.exists_cons.mpr (.inr hentry), hplace⟩
  case root_names =>
    intro c hentry
    rcases Tree.exists_cons.mp hentry with heq | hentry
    · exact hname c heq.symm
    · exact hd.root_names c hentry
  case root_dir =>
    obtain ⟨k, hk⟩ := hc.get_eq hold hnext
    obtain ⟨hlt, hisDir, hlnk⟩ := hd.root_dir
    rw [hloc, hk]
    rw [hc.grown.modes_eq _ hlt]
    exact ⟨hlt.trans_le hc.grown.nextResource_le, hisDir, hlnk⟩

lemma Dotted.fsCreate_created (hd : Dotted h t L) (hmode : ModeOk mode)
    (hfuel : path.length + 2 ≤ fuel) (hnew : t.Creatable (resolved path)) :
    ∃ h' node errno L', fsCreate fuel path mode h = some (h', some node, errno) ∧
      Dotted h' (⟨resolved path, (h'.get node).resource, mode &&& statIfmt = statIfdir⟩ :: t)
        L' := by
  have hne : path ≠ [] := by
    rintro rfl
    exact hnew.1 rfl
  obtain ⟨found, hfound, hleads⟩ := hd.path2node hne hfuel
  rw [Leads, if_neg hnew.1] at hleads
  obtain ⟨h', node, errno, hcreate, hat⟩ := hd.fsCreate_at hleads hfound hmode hnew
  exact ⟨h', node, errno, _, hcreate, hd.createdAt hnew (fun _ => not_alias_of_resolved) hmode hat⟩

end Cottage.Vfs
