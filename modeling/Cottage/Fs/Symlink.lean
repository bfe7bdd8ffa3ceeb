import Cottage.Fs.PathWalk
import Cottage.Fs.VfsRefinement

/-!
# Symbolic links

`fs_symlink`, and paths that lead through a link.

`fs_symlink` goes on when `path2node` has found neither the node nor its
parent, and gives up in all other cases.  So it never makes a link: where there
is a place for one it reports that it exists, and where there is none it
follows the null pointer of the parent.

`path2node` looks up the target of a link in the middle of a path, but goes on
from the link itself, which has no children.
-/

namespace Cottage.Vfs

open Separated PointerChain Mounts

def tmpfsSymlink (parent : NodePtr) (dest target : Name) (h : Heap) : Heap × NodePtr :=
  let (h, newNode) := vfsCreateNode (some parent) target false h
  let h := h.set newNode
    { h.get newNode with resource := h.nextResource, symlinkTarget := some dest }
  ({ h with
    modes := Function.update h.modes h.nextResource (statIflnk ||| 0o777)
    nextResource := h.nextResource + 1 }, newNode)

/-- `fs_symlink`, with the null pointer as `none`. -/
def fsSymlink (fuel : ℕ) (parent : NodePtr) (dest target : Name) (h : Heap) :
    Option (Heap × Option NodePtr × Option Errno) := do
  let found ← path2node h vfsRoot fuel parent target
  if found.node ≠ none ∨ found.parent ≠ none then some (h, none, some .eexist)
  else
    let parentOfTgt ← found.parent
    let basename ← found.basename
    let (h, targetNode) := tmpfsSymlink parentOfTgt dest basename h
    let h ← vfsAddChild parentOfTgt targetNode h
    some (h, some targetNode, found.errno)

/-- The node is missing, and its parent is a directory. -/
def Found.Vacant (h : Heap) (found : Found) : Prop :=
  found.node = none ∧ ∃ p, found.parent = some p ∧ statIsDir (h.mode p) = true

/-- The law of `fs_symlink` for a target at which `path2node` has found `found`. -/
structure SymlinkLaw (h : Heap) (fuel : ℕ) (parent : NodePtr) (dest target : Name)
    (found : Found) : Prop where
  succeeds_iff : (∃ h' node errno, fsSymlink fuel parent dest target h =
    some (h', some node, errno)) ↔ found.Vacant h
  success : ∀ h' node errno, fsSymlink fuel parent dest target h = some (h', some node, errno) →
    ∃ found' link, Lookup h' vfsRoot parent target found' ∧ found'.node = some link ∧
      (h'.get link).symlinkTarget = some dest
  failure : ¬ found.Vacant h → ∃ h' errno,
    fsSymlink fuel parent dest target h = some (h', none, errno) ∧
      ∀ start path found', Lookup h' vfsRoot start path found' ↔ Lookup h vfsRoot start path found'

variable {h : Heap} {fuel : ℕ} {parent : NodePtr} {dest target : Name} {found : Found}

section

variable (hfound : path2node h vfsRoot fuel parent target = some found)

include hfound

lemma fsSymlink_of_found (hsome : found.node ≠ none ∨ found.parent ≠ none) :
    fsSymlink fuel parent dest target h = some (h, none, some .eexist) := by
  rw [fsSymlink, hfound, Option.bind_eq_bind, Option.bind_some, if_pos hsome]

lemma fsSymlink_of_nowhere (hnode : found.node = none) (hparent : found.parent = none) :
    fsSymlink fuel parent dest target h = none := by
  rw [fsSymlink, hfound, Option.bind_eq_bind, Option.bind_some, if_neg (by simp [hnode, hparent]),
    hparent]
  rfl

lemma fsSymlink_ne_success (dest : Name) (h' : Heap) (node : NodePtr) (errno : Option Errno) :
    fsSymlink fuel parent dest target h ≠ some (h', some node, errno) := by
  intro hcall
  by_cases hsome : found.node ≠ none ∨ found.parent ≠ none
  · rw [fsSymlink_of_found hfound hsome, Option.some.injEq, Prod.mk.injEq, Prod.mk.injEq] at hcall
    cases hcall.2.1
  · rw [not_or, not_not, not_not] at hsome
    rw [fsSymlink_of_nowhere hfound hsome.1 hsome.2] at hcall
    cases hcall

end

/-- `fs_symlink` keeps its law if and only if its target exists, or would be in
something that is not a directory. -/
theorem symlinkLaw_iff {h : Heap} {fuel : ℕ} {parent : NodePtr} {target : Name} {found : Found}
    (hfound : path2node h vfsRoot fuel parent target = some found) (dest : Name) :
    SymlinkLaw h fuel parent dest target found ↔
      found.node ≠ none ∨ ∃ p, found.parent = some p ∧ statIsDir (h.mode p) = false := by
  have hnever := fsSymlink_ne_success hfound dest
  constructor
  · intro hlaw
    have hvacant : ¬ found.Vacant h := by
      intro hvacant
      obtain ⟨h', node, errno, hcall⟩ := hlaw.succeeds_iff.mpr hvacant
      exact hnever h' node errno hcall
    obtain ⟨h', errno, hcall, _⟩ := hlaw.failure hvacant
    by_contra hnot
    rw [not_or, not_not] at hnot
    obtain ⟨hnode, hdir⟩ := hnot
    cases hparent : found.parent with
    | none =>
      rw [fsSymlink_of_nowhere hfound hnode hparent] at hcall
      cases hcall
    | some p =>
      cases hmode : statIsDir (h.mode p) with
      | false => exact hdir ⟨p, hparent, hmode⟩
      | true => exact hvacant ⟨hnode, p, hparent, hmode⟩
  · intro hok
    have hvacant : ¬ found.Vacant h := by
      rintro ⟨hnode, p, hparent, hdir⟩
      rcases hok with hne | ⟨q, hq, hnot⟩
      · exact hne hnode
      · cases hparent.symm.trans hq
        rw [hdir] at hnot
        cases hnot
    have hsome : found.node ≠ none ∨ found.parent ≠ none := by
      refine hok.imp_right ?_
      rintro ⟨p, hp, _⟩
      rw [hp]
      exact Option.some_ne_none p
    refine ⟨iff_of_false ?_ hvacant, fun h' node errno hcall => absurd hcall (hnever h' node errno),
      fun _ => ⟨h, _, fsSymlink_of_found hfound hsome, fun _ _ _ => Iff.rfl⟩⟩
    rintro ⟨h', node, errno, hcall⟩
    exact hnever h' node errno hcall

theorem symlinkLaw_iff_root :
    path2node mounted vfsRoot 4 vfsRoot [slash] =
        some ⟨some (.node 1), some (.node 1), none, none⟩ ∧
      SymlinkLaw mounted 4 vfsRoot [0x78] [slash] ⟨some (.node 1), some (.node 1), none, none⟩ := by
  have hfound : path2node mounted vfsRoot 4 vfsRoot [slash] =
      some ⟨some (.node 1), some (.node 1), none, none⟩ := by decide
  exact ⟨hfound, (symlinkLaw_iff hfound [0x78]).mpr (.inl (Option.some_ne_none _))⟩

/-- `/l` has a place in the root and is refused; for `/d/l` the parent is missing
and the null pointer is followed. -/
theorem symlink_not_made :
    (∃ found, path2node mounted vfsRoot 8 vfsRoot [slash, 0x6C] = some found ∧
        found.Vacant mounted ∧
        (fsSymlink 8 vfsRoot [0x78] [slash, 0x6C] mounted).map (·.2) = some (none, some .eexist)) ∧
      (path2node mounted vfsRoot 8 vfsRoot [slash, 0x64, slash, 0x6C]).isSome = true ∧
      (fsSymlink 8 vfsRoot [0x78] [slash, 0x64, slash, 0x6C] mounted).isSome = false := by
  refine ⟨⟨⟨some (.node 1), none, some [0x6C], some .enoent⟩, by decide, ⟨rfl, .node 1, rfl, ?_⟩,
    by decide⟩, by decide, by decide⟩
  decide

def LeadsOn (h : Heap) (m : NodePtr) : Prop :=
  ∃ linkParent target found, (h.get m).parent = some linkParent ∧
    (h.get m).symlinkTarget = some target ∧ Lookup h vfsRoot linkParent target found ∧
      found.node ≠ none

def Dangles (h : Heap) (m : NodePtr) : Prop :=
  ∃ linkParent target found, (h.get m).parent = some linkParent ∧
    (h.get m).symlinkTarget = some target ∧ Lookup h vfsRoot linkParent target found ∧
      found.node = none

/-- A component before the last one does not lead on: it does not exist, is
neither a directory nor a link, or is a link that leads nowhere. -/
inductive Blocked (h : Heap) : NodePtr → List Name → Prop
  | missing {current cur : NodePtr} {c : Name} {rest : List Name}
      (hcur : Ends (next h) current cur) (hchild : nodeGetChild h cur c = none)
      (hrest : rest ≠ []) : Blocked h current (c :: rest)
  | notDir {current cur m : NodePtr} {c : Name} {rest : List Name}
      (hm : Finds h current c cur m) (hrest : rest ≠ []) (hlnk : statIsLnk (h.mode m) = false)
      (hdir : statIsDir (h.mode m) = false) : Blocked h current (c :: rest)
  | dangling {current cur m : NodePtr} {c : Name} {rest : List Name}
      (hm : Finds h current c cur m) (hrest : rest ≠ []) (hlnk : statIsLnk (h.mode m) = true)
      (hdangles : Dangles h m) : Blocked h current (c :: rest)
  | dir {current cur m : NodePtr} {c : Name} {rest : List Name}
      (hm : Finds h current c cur m) (hlnk : statIsLnk (h.mode m) = false)
      (hdir : statIsDir (h.mode m) = true) (hblocked : Blocked h m rest) :
      Blocked h current (c :: rest)
  | link {current cur m : NodePtr} {c : Name} {rest : List Name}
      (hm : Finds h current c cur m) (hlnk : statIsLnk (h.mode m) = true)
      (hleads : LeadsOn h m) (hblocked : Blocked h m rest) : Blocked h current (c :: rest)

variable {current start : NodePtr} {cs : List Name}

lemma Blocked.exists_cons_cons (hb : Blocked h current cs) :
    ∃ c c' rest, cs = c :: c' :: rest := by
  cases hb with
  | missing _ _ hrest =>
    obtain ⟨c', rest, rfl⟩ := List.exists_cons_of_ne_nil hrest
    exact ⟨_, _, _, rfl⟩
  | notDir _ hrest _ _ =>
    obtain ⟨c', rest, rfl⟩ := List.exists_cons_of_ne_nil hrest
    exact ⟨_, _, _, rfl⟩
  | dangling _ hrest _ _ =>
    obtain ⟨c', rest, rfl⟩ := List.exists_cons_of_ne_nil hrest
    exact ⟨_, _, _, rfl⟩
  | dir _ _ _ hblocked => cases hblocked <;> exact ⟨_, _, _, rfl⟩
  | link _ _ _ hblocked => cases hblocked <;> exact ⟨_, _, _, rfl⟩

lemma Blocked.ne_nil (hb : Blocked h current cs) : cs ≠ [] := by
  cases hb <;> exact List.cons_ne_nil _ _

lemma Blocked.walk (hb : Blocked h current cs) :
    ∃ errno, Walk h vfsRoot current cs (.nowhere errno) := by
  induction hb with
  | missing hcur hchild hrest => exact ⟨_, .missing hcur hchild hrest⟩
  | notDir hm hrest hlnk hdir => exact ⟨_, .notDir hm hrest hlnk hdir⟩
  | dangling hm hrest hlnk hdangles =>
    obtain ⟨linkParent, target, found, hparent, htarget, hlookup, hnode⟩ := hdangles
    rcases hlookup with ⟨rfl, rfl⟩ | ⟨start, hstart, hwalk⟩
    · exact ⟨_, .emptyLink hm hrest hlnk hparent htarget⟩
    · exact ⟨_, .deadLink hm hrest hlnk hparent htarget hstart hwalk hnode⟩
  | dir hm hlnk hdir hblocked ih =>
    obtain ⟨errno, hwalk⟩ := ih
    exact ⟨errno, .dir hm hblocked.ne_nil hlnk hdir hwalk⟩
  | link hm hlnk hleads hblocked ih =>
    obtain ⟨errno, hwalk⟩ := ih
    obtain ⟨linkParent, target, found, hparent, htarget, hlookup, hnode⟩ := hleads
    rcases hlookup with ⟨rfl, rfl⟩ | ⟨start, hstart, hlink⟩
    · exact absurd rfl hnode
    · exact ⟨errno, .link hm hblocked.ne_nil hlnk hparent htarget hstart hlink hnode hwalk⟩

lemma Walk.blocked (hwalk : Walk h vfsRoot current cs found) (hnode : found.node = none)
    (hparent : found.parent = none) : Blocked h current cs := by
  induction hwalk with
  | stay _ => cases hnode
  | missingLast _ _ => cases hparent
  | missing hcur hchild hrest => exact .missing hcur hchild hrest
  | last _ => cases hnode
  | notDir hm hrest hlnk hdir => exact .notDir hm hrest hlnk hdir
  | dir hm _ hlnk hdir _ ih => exact .dir hm hlnk hdir (ih hnode hparent)
  | emptyLink hm hrest hlnk hlinkParent htarget =>
    exact .dangling hm hrest hlnk ⟨_, _, _, hlinkParent, htarget, .inl ⟨rfl, rfl⟩, rfl⟩
  | deadLink hm hrest hlnk hlinkParent htarget hstart hlink hnone _ =>
    exact .dangling hm hrest hlnk ⟨_, _, _, hlinkParent, htarget, .inr ⟨_, hstart, hlink⟩, hnone⟩
  | link hm _ hlnk hlinkParent htarget hstart hlink hsome _ _ ih =>
    exact .link hm hlnk ⟨_, _, _, hlinkParent, htarget, .inr ⟨_, hstart, hlink⟩, hsome⟩
      (ih hnode hparent)

lemma Walk.through {L p : NodePtr} {name : Name} {more : List Name} {found' : Found}
    (hwalk : Walk h vfsRoot current cs found) (hfound : found = ⟨some p, some L, some name, none⟩)
    (hlnk : statIsLnk (h.mode L) = true) (hleads : LeadsOn h L) (hmore : more ≠ [])
    (hwalk' : Walk h vfsRoot L more found') : Walk h vfsRoot current (cs ++ more) found' := by
  induction hwalk with
  | last hm =>
    obtain ⟨_, hL, _⟩ := Found.mk.inj hfound
    cases hL
    obtain ⟨linkParent, target, link, hparent, htarget, hlookup, hnode⟩ := hleads
    rcases hlookup with ⟨rfl, rfl⟩ | ⟨start, hstart, hlink⟩
    · exact absurd rfl hnode
    · exact .link hm hmore hlnk hparent htarget hstart hlink hnode hwalk'
  | dir hm hrest hlnk' hdir _ ih =>
    exact .dir hm (List.append_ne_nil_of_left_ne_nil hrest _) hlnk' hdir (ih hfound)
  | link hm hrest hlnk' hparent htarget hstart hlink hnode _ _ ih =>
    exact .link hm (List.append_ne_nil_of_left_ne_nil hrest _) hlnk' hparent htarget hstart hlink
      hnode (ih hfound)
  | _ => cases hfound

/-- The link `L` is found at a path, it is a link and has no children, and its
target is the directory `D`; the root is a directory too. -/
structure LinkAt (h : Heap) (parent : NodePtr) (path : Name) (L D : NodePtr) : Prop where
  found : ∃ fuel p name,
    path2node h vfsRoot fuel parent path = some ⟨some p, some L, some name, none⟩
  mode : h.mode L &&& statIfmt = statIflnk
  leaf : (h.get L).children = none
  target : ∃ fuel linkParent target link, (h.get L).parent = some linkParent ∧
    (h.get L).symlinkTarget = some target ∧
      path2node h vfsRoot fuel linkParent target = some link ∧ link.node = some D
  dir : statIsDir (h.mode D) = true
  root : ∀ fuel r, reduceNode h fuel vfsRoot = some r → statIsDir (h.mode r) = true

/-- `path2node` gives the same node and the same parent for the path of a link
followed by `R` as for `R` in the directory `D`. -/
def SameOutcome (h : Heap) (parent : NodePtr) (path : Name) (D : NodePtr) (R : Name) : Prop :=
  ∃ fuel found found', path2node h vfsRoot fuel parent (path ++ slash :: R) = some found ∧
    path2node h vfsRoot fuel D R = some found' ∧ found.node = found'.node ∧
      found.parent = found'.parent

variable {path R : Name} {L D : NodePtr}

lemma sameOutcome_iff_lookup : SameOutcome h parent path D R ↔
    ∃ found found', Lookup h vfsRoot parent (path ++ slash :: R) found ∧
      Lookup h vfsRoot D R found' ∧ found.node = found'.node ∧ found.parent = found'.parent := by
  constructor
  · rintro ⟨fuel, found, found', hfound, hfound', hsame⟩
    exact ⟨found, found', lookup_of_path2node hfound, lookup_of_path2node hfound', hsame⟩
  · rintro ⟨found, found', hfound, hfound', hsame⟩
    obtain ⟨n, hn⟩ := path2node_of_lookup hfound
    obtain ⟨n', hn'⟩ := path2node_of_lookup hfound'
    exact ⟨max n n', found, found', hn _ (by omega), hn' _ (by omega), hsame⟩

lemma statIs_of_iflnk {mode : ℕ} (hmode : mode &&& statIfmt = statIflnk) :
    statIsLnk mode = true ∧ statIsDir mode = false := by
  have hlnk : mode &&& statIflnk = statIflnk := by
    have hmask : statIfmt &&& statIflnk = statIflnk := by decide
    rw [← hmask, ← Nat.and_assoc, hmode]
    decide
  have hdir : mode &&& statIfdir = 0 := by
    have hmask : statIfmt &&& statIfdir = statIfdir := by decide
    rw [← hmask, ← Nat.and_assoc, hmode]
    decide
  simp only [statIsLnk, statIsDir, hlnk, hdir]
  decide

section

variable (hl : LinkAt h parent path L D)

include hl

lemma LinkAt.leadsOn : LeadsOn h L := by
  obtain ⟨fuel, linkParent, target, link, hparent, htarget, hlink, hnode⟩ := hl.target
  refine ⟨linkParent, target, link, hparent, htarget, lookup_of_path2node hlink, ?_⟩
  rw [hnode]
  exact Option.some_ne_none D

lemma LinkAt.start_dir (hs : Starts h vfsRoot D R start) : statIsDir (h.mode start) = true := by
  by_cases hslash : R.head? = some slash
  · obtain ⟨n, hn⟩ := reduceNode_of_ends (hs.absolute hslash)
    exact hl.root n start (hn n le_rfl)
  · obtain ⟨fuel, _, _, link, _, _, hlink, hnode⟩ := hl.target
    obtain ⟨q, hq, heq⟩ := hs.parent_ends
    have hD := (Ends.stop ((lookup_of_path2node hlink).next_eq_none hnode)).unique hq
    rw [heq hslash, ← hD]
    exact hl.dir

lemma LinkAt.start_ne (hs : Starts h vfsRoot D R start) : start ≠ L := by
  rintro rfl
  have hdir := hl.start_dir hs
  rw [(statIs_of_iflnk hl.mode).2] at hdir
  cases hdir

lemma LinkAt.walk_link (hnext : next h L = none) (c : Name) (rest : List Name) :
    Walk h vfsRoot L (c :: rest) (if rest = [] then ⟨some L, none, some c, some .enoent⟩
      else .nowhere (some .enoent)) := by
  have hchild : nodeGetChild h L c = none := by
    rw [nodeGetChild, hl.leaf, Option.bind_none]
  split_ifs with hrest
  · subst hrest
    exact .missingLast (.stop hnext) hchild
  · exact .missing (.stop hnext) hchild hrest

lemma LinkAt.lookup :
    (components slash R = [] ∧
      ∃ p name, Lookup h vfsRoot parent (path ++ slash :: R) ⟨some p, some L, some name, none⟩) ∨
    ∃ c rest, components slash R = c :: rest ∧
      Lookup h vfsRoot parent (path ++ slash :: R)
        (if rest = [] then ⟨some L, none, some c, some .enoent⟩
          else .nowhere (some .enoent)) := by
  obtain ⟨fuel, p, name, hpath⟩ := hl.found
  have hlookup := lookup_of_path2node hpath
  have hnext := hlookup.next_eq_none rfl
  rcases hlookup with ⟨_, hnowhere⟩ | ⟨start, hstart, hwalk⟩
  · cases hnowhere
  · have hstart' := hstart.append (slash :: R)
    cases hR : components slash R with
    | nil =>
      refine .inl ⟨rfl, p, name, .inr ⟨start, hstart', ?_⟩⟩
      rw [components_append_sep, hR, List.append_nil]
      exact hwalk
    | cons c rest =>
      refine .inr ⟨c, rest, rfl, .inr ⟨start, hstart', ?_⟩⟩
      rw [components_append_sep, hR]
      exact hwalk.through rfl (statIs_of_iflnk hl.mode).1 hl.leadsOn (List.cons_ne_nil _ _)
        (hl.walk_link hnext c rest)

end

lemma Walk.single {c : Name} (hwalk : Walk h vfsRoot start [c] found)
    (hnext : next h start = none) : found.node ≠ none ∨ found.parent = some start := by
  cases hwalk with
  | missingLast hcur _ => exact .inr (congrArg some (hcur.unique (.stop hnext)))
  | last hm => exact .inl (Option.some_ne_none _)
  | _ => contradiction

/-- A path that goes on behind a link has the right outcome if and only if what
follows the link is blocked. -/
theorem sameOutcome_iff {h : Heap} {parent L D : NodePtr} {path R : Name}
    (hl : LinkAt h parent path L D) (hR : R ≠ []) :
    SameOutcome h parent path D R ↔
      ∃ start, Starts h vfsRoot D R start ∧ Blocked h start (components slash R) := by
  rw [sameOutcome_iff_lookup]
  constructor
  · rintro ⟨found, found', hfound, hfound', hnode, hparent⟩
    rcases hfound' with ⟨hnil, _⟩ | ⟨start, hstart, hwalk⟩
    · exact absurd hnil hR
    refine ⟨start, hstart, ?_⟩
    rcases hl.lookup (R := R) with ⟨hcomponents, p, name, hlookup⟩ | ⟨c, rest, hcomponents, hlookup⟩
    · obtain rfl := hfound.unique hlookup
      rw [hcomponents] at hwalk
      cases hwalk with
      | stay hcur =>
        have heq := hcur.unique (.stop hstart.next_eq_none)
        exact absurd (heq.symm.trans (Option.some.inj hnode).symm) (hl.start_ne hstart)
    · obtain rfl := hfound.unique hlookup
      rw [hcomponents] at hwalk ⊢
      by_cases hrest : rest = []
      · subst hrest
        rcases hwalk.single hstart.next_eq_none with hsome | hstartParent
        · exact absurd hnode.symm hsome
        · rw [hstartParent] at hparent
          exact absurd (Option.some.inj hparent).symm (hl.start_ne hstart)
      · rw [if_neg hrest] at hnode hparent
        exact hwalk.blocked hnode.symm hparent.symm
  · rintro ⟨start, hstart, hblocked⟩
    obtain ⟨c, c', rest, hcs⟩ := hblocked.exists_cons_cons
    obtain ⟨errno, hwalk⟩ := hblocked.walk
    rcases hl.lookup (R := R) with ⟨hcomponents, _⟩ | ⟨d, rest', hcomponents, hlookup⟩
    · rw [hcs] at hcomponents
      cases hcomponents
    · rw [hcs, List.cons_eq_cons] at hcomponents
      obtain ⟨_, rfl⟩ := hcomponents
      exact ⟨_, _, hlookup, .inr ⟨start, hstart, hwalk⟩, rfl, rfl⟩

/-! ## A tree with a link -/

def linkedTree : Heap :=
  (do
    let (h, _) ← fsCreate 8 [slash, 0x64] 0x41ed mounted
    let (h, _) ← fsCreate 8 [slash, 0x64, slash, 0x66] 0x81a4 h
    let (h, link) := tmpfsSymlink (.node 1) [0x64] [0x6C] h
    vfsAddChild (.node 1) link h).getD mounted

lemma linkAt_linkedTree :
    LinkAt linkedTree vfsRoot [slash, 0x6C] (.child 0 3) (.child 0 2) where
  found := ⟨8, .node 1, [0x6C], by decide +kernel⟩
  mode := by decide +kernel
  leaf := by decide +kernel
  target := ⟨8, .node 1, [0x64], ⟨some (.node 1), some (.child 0 2), some [0x64], none⟩,
    by decide +kernel, by decide +kernel, by decide +kernel, rfl⟩
  dir := by decide +kernel
  root := by
    intro fuel r hr
    have hroot : reduceNode linkedTree 8 vfsRoot = some (.node 1) := by decide +kernel
    obtain rfl := (ends_of_reduceNode hroot).unique (ends_of_reduceNode hr)
    decide +kernel

theorem sameOutcome_iff_missing :
    LinkAt linkedTree vfsRoot [slash, 0x6C] (.child 0 3) (.child 0 2) ∧
      SameOutcome linkedTree vfsRoot [slash, 0x6C] (.child 0 2) [0x78, slash, 0x79] := by
  refine ⟨linkAt_linkedTree, (sameOutcome_iff linkAt_linkedTree (List.cons_ne_nil _ _)).mpr ?_⟩
  have hD : reduceNode linkedTree 8 (.child 0 2) = some (.child 0 2) := by decide +kernel
  have hends := ends_of_reduceNode hD
  have hcomponents : components slash [0x78, slash, 0x79] = [[0x78], [0x79]] := by decide
  refine ⟨.child 0 2, ⟨List.cons_ne_nil _ _, ⟨_, hends, fun _ => rfl⟩, ?_⟩, ?_⟩
  · intro hslash
    cases hslash
  · rw [hcomponents]
    exact .missing hends (by decide +kernel) (List.cons_ne_nil _ _)

theorem link_not_followed :
    LinkAt linkedTree vfsRoot [slash, 0x6C] (.child 0 3) (.child 0 2) ∧
      path2node linkedTree vfsRoot 8 (.child 0 2) [0x66] =
        some ⟨some (.child 0 2), some (.child 1 0), some [0x66], none⟩ ∧
      path2node linkedTree vfsRoot 8 vfsRoot [slash, 0x6C, slash, 0x66] =
        some ⟨some (.child 0 3), none, some [0x66], some .enoent⟩ :=
  ⟨linkAt_linkedTree, by decide +kernel, by decide +kernel⟩

end Cottage.Vfs
