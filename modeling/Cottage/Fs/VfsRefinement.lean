import Cottage.Fs.VfsCreate
import Cottage.Mem.HeapCalls

/-!
# Sequences of `fs_create`

A tmpfs is mounted on the root, and then nodes are created by path.  Beside the
heap a state carries the entries created so far: the components of the path of
each successful call, the resource of the node it returned, and whether the
mode was that of a directory.  In every reachable state the heap represents
these entries, and so `fs_create` and `fs_get_node` behave as the list of
entries says: slashes separate the components and mean nothing else.
-/

namespace Cottage.Vfs

open Separated Transition

def ModeOk (mode : ℕ) : Prop :=
  mode &&& statIfmt = statIfdir ∨ mode &&& statIfmt = statIfreg

instance (mode : ℕ) : Decidable (ModeOk mode) :=
  inferInstanceAs (Decidable (_ ∨ _))

def PathOk (path : Name) : Prop :=
  path.length ≤ 1000 ∧ ∀ c ∈ components slash path, ¬ Alias c

instance (path : Name) : Decidable (PathOk path) :=
  inferInstanceAs (Decidable (_ ∧ _))

variable {path : Name} {mode fuel : ℕ} {s : State}

lemma ModeOk.statIsDir_eq (h : ModeOk mode) :
    statIsDir mode = decide (mode &&& statIfmt = statIfdir) := by
  have hmask : mode &&& statIfdir = (mode &&& statIfmt) &&& statIfdir := by
    rw [Nat.land_assoc]
    rfl
  rw [statIsDir, hmask]
  rcases h with h | h <;>
    · rw [h]
      decide

lemma ModeOk.statIsLnk_eq (h : ModeOk mode) : statIsLnk mode = false := by
  have hmask : mode &&& statIflnk = (mode &&& statIfmt) &&& statIflnk := by
    rw [Nat.land_assoc]
    rfl
  rw [statIsLnk, hmask]
  rcases h with h | h <;>
    · rw [h]
      decide

structure State where
  heap : Heap
  created : Tree

inductive Event
  | create (path : Name) (mode : ℕ)
  deriving DecidableEq, Repr

def entered (path : Name) (mode : ℕ) (h : Heap) : Option NodePtr → Tree
  | none => []
  | some node =>
    [⟨components slash path, (h.get node).resource, mode &&& statIfmt = statIfdir⟩]

def step (s : State) : Event → Option State
  | .create path mode =>
    if PathOk path ∧ ModeOk mode then
      (fsCreate (path.length + 2) path mode s.heap).map fun (heap, node, _) =>
        ⟨heap, entered path mode heap node ++ s.created⟩
    else none

def Initial (s : State) : Prop :=
  (∃ fuel, fsMount fuel [slash] fsInit = some (s.heap, true)) ∧ s.created = []

def system : System State Event where
  init := Initial
  step := step

variable {h : Heap} {t : Tree} {L : Layout}

lemma FoundAt.fsCreate_fails {p : Path} {found : Found} (hat : FoundAt t L p found)
    (hfound : path2node h vfsRoot fuel vfsRoot path = some found) (hp : p ≠ [])
    (hnot : ¬ t.Creatable p) : ∃ errno, fsCreate fuel path mode h = some (h, none, errno) := by
  rw [fsCreate, internalCreate]
  simp only [hfound, Option.bind_eq_bind, Option.bind_some, hat.parent, hat.node]
  by_cases hexists : t.Exists p
  · simp only [if_pos hexists]
    exact ⟨_, rfl⟩
  · have hdir : ¬ t.IsDir p.dropLast := fun hdir => hnot ⟨hp, hexists, hdir⟩
    simp only [if_neg hexists, if_neg hdir]
    exact ⟨_, rfl⟩

structure CreatedAt (h : Heap) (t : Tree) (L : Layout) (p : Path) (mode : ℕ) (h' : Heap)
    (node : NodePtr) : Prop where
  rep : Rep h' (⟨p, (h'.get node).resource, mode &&& statIfmt = statIfdir⟩ :: t)
    (L.extend p (.child (L.array p.dropLast) (h.count (L.loc p.dropLast))) h.nextArray)
  created : Created h h' (L.loc p.dropLast) (L.array p.dropLast)
    (freshNode h (some (L.loc p.dropLast)) (p.getLastD []) (statIsDir mode) (h.nextResource + 1))
  fresh : h.nextResource < (h'.get node).resource
  mode_eq : h'.modes (h'.get node).resource = mode

lemma Rep.fsCreate_at (hr : Rep h t L) {p : Path} {found : Found} (hat : FoundAt t L p found)
    (hfound : Vfs.path2node h vfsRoot fuel vfsRoot path = some found) (hmode : ModeOk mode)
    (hnew : t.Creatable p) :
    ∃ h' node errno, fsCreate fuel path mode h = some (h', some node, errno) ∧
      CreatedAt h t L p mode h' node := by
  obtain ⟨hp, hexists, hdir⟩ := hnew
  have hlast : p.getLastD [] = p.getLast hp := by
    rw [List.getLastD_eq_getLast?, List.getLast?_eq_getLast_of_ne_nil hp, Option.getD_some]
  have hbasename := (hat.basename hdir).trans (List.getLast?_eq_getLast_of_ne_nil hp)
  have hsplit := List.dropLast_concat_getLast hp
  have hdroot := hdir.root_or_exists
  obtain ⟨h', target, hmade, hcreated, hresource, hnext, hmodes, harray⟩ :=
    createIn_spec (p.getLast hp) mode (hr.loc_old hdroot) (hr.array_old _ hdir)
      (hr.children _ hdir).1 (hr.loc_ne_next hdir hdroot)
  have hrep := hr.created hdir (by rwa [hsplit]) hmode.statIsLnk_eq hcreated hnext hmodes harray
  rw [hsplit, hmode.statIsDir_eq, ← hresource] at hrep
  refine ⟨h', target, found.errno, ?_, hrep, ?_, ?_, ?_⟩
  · rw [fsCreate, internalCreate]
    simp only [hfound, Option.bind_eq_bind, Option.bind_some, hat.parent, hat.node, if_neg hexists,
      if_pos hdir, hbasename, hmade]
  · rwa [hlast]
  · rw [hresource]
    exact Nat.lt_succ_self _
  · rw [hresource, hmodes]

lemma Rep.fsCreate_fails (hr : Rep h t L) (hpath : PathOk path) (hfuel : path.length + 2 ≤ fuel)
    (hnot : ¬ t.Creatable (components slash path)) :
    ∃ errno, fsCreate fuel path mode h = some (h, none, errno) := by
  by_cases hnil : components slash path = []
  · rw [fsCreate, internalCreate]
    by_cases hne : path = []
    · subst hne
      rw [path2node_nil]
      exact ⟨_, rfl⟩
    · rw [hr.path2node_slashes hne hnil (by omega)]
      exact ⟨_, rfl⟩
  · obtain ⟨found, hfound, hat⟩ := hr.path2node hnil hpath.2 hfuel
    exact hat.fsCreate_fails hfound hnil hnot

lemma Rep.fsCreate_created (hr : Rep h t L) (hpath : PathOk path) (hmode : ModeOk mode)
    (hfuel : path.length + 2 ≤ fuel) (hnew : t.Creatable (components slash path)) :
    ∃ h' node errno L', fsCreate fuel path mode h = some (h', some node, errno) ∧
      Rep h' (⟨components slash path, (h'.get node).resource, mode &&& statIfmt = statIfdir⟩ :: t)
        L' ∧ Grown h h' ∧ h.nextResource < (h'.get node).resource ∧
      h'.modes (h'.get node).resource = mode := by
  obtain ⟨found, hfound, hat⟩ := hr.path2node hnew.1 hpath.2 hfuel
  obtain ⟨h', node, errno, hcreate, hcreated⟩ := hr.fsCreate_at hat hfound hmode hnew
  exact ⟨h', node, errno, _, hcreate, hcreated.rep, hcreated.created.grown, hcreated.fresh,
    hcreated.mode_eq⟩

lemma Rep.fsCreate_succeeds (hr : Rep h t L) (hpath : PathOk path) (hmode : ModeOk mode)
    (hfuel : path.length + 2 ≤ fuel) (hnew : t.Creatable (components slash path)) :
    ∃ h' node errno L', fsCreate fuel path mode h = some (h', some node, errno) ∧
      Rep h' (⟨components slash path, (h'.get node).resource, mode &&& statIfmt = statIfdir⟩ :: t)
        L' := by
  obtain ⟨h', node, errno, L', hcreate, hrep, _⟩ := hr.fsCreate_created hpath hmode hfuel hnew
  exact ⟨h', node, errno, L', hcreate, hrep⟩

def mounted : Heap :=
  ((fsMount 1 [slash] fsInit).map Prod.fst).getD fsInit

lemma eq_mounted (hmount : fsMount fuel [slash] fsInit = some (h, true)) : h = mounted := by
  cases fuel with
  | zero => cases hmount
  | succ fuel =>
    have hsame : fsMount (fuel + 1) [slash] fsInit = fsMount 1 [slash] fsInit := rfl
    rw [mounted, ← hsame, hmount]
    rfl

/-- The mounted directory is the second node made, and its array the first. -/
def mountLayout : Layout where
  loc := fun _ => .node 1
  array := fun _ => 0

lemma rep_mounted : Rep mounted [] mountLayout := by
  have hnone (p : Path) : ¬ Tree.Exists [] p := by
    rintro ⟨e, he, _⟩
    cases he
  have hroot {p : Path} (hp : Tree.IsDir [] p) : p = [] :=
    hp.root_or_exists.resolve_right (hnone p)
  have hnode : 1 < mounted.nextNode := by decide
  have harray : 0 < mounted.nextArray := by decide
  have hcount : (mounted.get (.node 1)).childrenCount = 2 := by decide
  have hdot : (mounted.get (.child 0 0)).name = dot := by decide
  have hdotdot : (mounted.get (.child 0 1)).name = dotdot := by decide
  constructor
  case closed => exact fun d c hexists => absurd hexists (hnone _)
  case nonroot => exact hnone []
  case root_redir => rfl
  case root_mountpoint => rfl
  case root_old => exact Nat.lt_trans Nat.zero_lt_one hnode
  case loc_root => exact ⟨1, rfl, hnode, by decide⟩
  case plain => exact fun p _ => ⟨rfl, rfl⟩
  case children => exact fun d _ => ⟨rfl, hcount.ge.trans' (by decide)⟩
  case array_old => exact fun d _ => harray
  case array_inj => exact fun d d' hd hd' _ => (hroot hd).trans (hroot hd').symm
  case cell => exact fun d c hexists => absurd hexists (hnone _)
  case named =>
    intro d _ i hi
    left
    have hi' : i < 2 := by
      rwa [Heap.count, mountLayout, hcount] at hi
    obtain rfl | rfl : i = 0 ∨ i = 1 := by omega
    · exact .inl hdot
    · exact .inr hdotdot
  case resource =>
    intro e he
    cases he

def State.Represents (s : State) : Prop :=
  ∃ L, Rep s.heap s.created L

lemma represents_of_initial (hs : Initial s) : s.Represents := by
  obtain ⟨⟨fuel, hmount⟩, hcreated⟩ := hs
  rw [State.Represents, eq_mounted hmount, hcreated]
  exact ⟨mountLayout, rep_mounted⟩

lemma State.Represents.step {s' : State} {a : Event} (h : s.Represents)
    (hstep : Vfs.step s a = some s') : s'.Represents := by
  obtain ⟨L, hr⟩ := h
  cases a with
  | create path mode =>
    simp only [Vfs.step] at hstep
    split_ifs at hstep with hok
    obtain ⟨hpath, hmode⟩ := hok
    by_cases hnew : s.created.Creatable (components slash path)
    · obtain ⟨h', node, errno, L', hcreate, hrep⟩ :=
        hr.fsCreate_succeeds hpath hmode (Nat.le_refl _) hnew
      rw [hcreate, Option.map_some, Option.some.injEq] at hstep
      subst hstep
      exact ⟨L', hrep⟩
    · obtain ⟨errno, hcreate⟩ := hr.fsCreate_fails hpath (Nat.le_refl _) hnew
      rw [hcreate, Option.map_some, Option.some.injEq] at hstep
      subst hstep
      exact ⟨L, hr⟩

lemma represents_of_reachable (hs : system.Reachable s) : s.Represents :=
  hs.invariant (fun _ => represents_of_initial) fun _ _ _ => State.Represents.step

/-! ## The law -/

def Slashes (path : Name) : Prop :=
  path ≠ [] ∧ ∀ b ∈ path, b = slash

/-- A call of `fs_create` succeeds if the entry can be created, and otherwise
leaves the heap as it is. -/
def CreateLaw (s : State) : Prop :=
  ∀ path mode fuel, PathOk path → ModeOk mode → path.length + 2 ≤ fuel →
    ∃ h node errno, fsCreate fuel path mode s.heap = some (h, node, errno) ∧
      (node ≠ none ↔ s.created.Creatable (components slash path)) ∧ (node = none → h = s.heap)

/-- `fs_get_node` finds the root and what was created, and for the latter the
resource of the creation. -/
def LookupLaw (s : State) : Prop :=
  ∀ path fuel, PathOk path → path.length + 2 ≤ fuel →
    ∃ node, fsGetNode fuel path s.heap = some node ∧
      (node ≠ none ↔ Slashes path ∨ s.created.Exists (components slash path)) ∧
      ∀ e ∈ s.created, e.path = components slash path →
        node.map (fun p => (s.heap.get p).resource) = some e.resource

def SlashLaw (s : State) : Prop :=
  ∀ path path' fuel, PathOk path → PathOk path' → path.length + 2 ≤ fuel →
    path'.length + 2 ≤ fuel → components slash path ≠ [] →
    components slash path = components slash path' →
    fsGetNode fuel path s.heap = fsGetNode fuel path' s.heap

lemma slashes_iff : Slashes path ↔ path ≠ [] ∧ components slash path = [] := by
  rw [Slashes, components_eq_nil_iff, List.dropWhile_eq_nil_iff]
  simp only [decide_eq_true_eq]

lemma Rep.createLaw (hr : Rep s.heap s.created L) : CreateLaw s := by
  intro path mode fuel hpath hmode hfuel
  by_cases hnew : s.created.Creatable (components slash path)
  · obtain ⟨h', node, errno, _, hcreate, _⟩ := hr.fsCreate_succeeds hpath hmode hfuel hnew
    refine ⟨h', some node, errno, hcreate, ?_, ?_⟩
    · exact ⟨fun _ => hnew, fun _ => Option.some_ne_none node⟩
    · exact fun hnone => absurd hnone (Option.some_ne_none node)
  · obtain ⟨errno, hcreate⟩ := hr.fsCreate_fails hpath hfuel hnew
    exact ⟨s.heap, none, errno, hcreate, ⟨fun h => absurd rfl h, fun h => absurd h hnew⟩,
      fun _ => rfl⟩

lemma Rep.lookupLaw (hr : Rep s.heap s.created L) : LookupLaw s := by
  intro path fuel hpath hfuel
  refine ⟨_, hr.fsGetNode hpath.2 hfuel, ?_, ?_⟩
  · rw [slashes_iff, Layout.find]
    by_cases hnil : components slash path = []
    · have hnonroot : ¬ s.created.Exists (components slash path) := hnil ▸ hr.nonroot
      simp only [hnil, if_true, and_true] at hnonroot ⊢
      split_ifs with hne <;> simp [hne, hnonroot]
    · simp only [hnil, if_false, and_false, false_or]
      split_ifs with hexists <;> simp [hexists]
  · intro e he hpath'
    have hexists : s.created.Exists (components slash path) := ⟨e, he, hpath'⟩
    have hnil : components slash path ≠ [] := by
      rintro hnil
      exact hr.nonroot (hnil ▸ hexists)
    rw [Layout.find, if_neg hnil, if_pos hexists, Option.map_some, ← hpath', (hr.resource e he).1]

lemma Rep.slashLaw (hr : Rep s.heap s.created L) : SlashLaw s := by
  intro path path' fuel hpath hpath' hfuel hfuel' hnil heq
  rw [hr.fsGetNode hpath.2 hfuel, hr.fsGetNode hpath'.2 hfuel', Layout.find, Layout.find, ← heq,
    if_neg hnil, if_neg hnil]

/-- After every sequence of calls the file system is the list of entries
created so far. -/
theorem vfs_refines_entries {s : State} (hs : system.Reachable s) :
    CreateLaw s ∧ LookupLaw s ∧ SlashLaw s := by
  obtain ⟨L, hr⟩ := represents_of_reachable hs
  exact ⟨hr.createLaw, hr.lookupLaw, hr.slashLaw⟩

theorem vfs_refines_entries_directory_file :
    ∃ s, system.Reachable s ∧
      s.created.map (fun e => (e.path, e.dir)) = [([[0x61], [0x62]], false), ([[0x61]], true)] ∧
      CreateLaw s ∧ LookupLaw s ∧ SlashLaw s := by
  have hinit : Initial ⟨mounted, []⟩ := ⟨⟨1, rfl⟩, rfl⟩
  obtain ⟨s, hs, hcreated⟩ := System.Reachable.exists_of_run_any (S := system) (.init hinit)
    [.create [slash, 0x61] 0x41ed, .create [slash, 0x61, slash, slash, 0x62, slash] 0x81a4,
      .create [0x61, slash, 0x62] 0x81a4]
    (fun s => decide (s.created.map (fun e => (e.path, e.dir)) =
      [([[0x61], [0x62]], false), ([[0x61]], true)]))
    (by decide +kernel)
  exact ⟨s, hs, of_decide_eq_true hcreated, vfs_refines_entries hs⟩

end Cottage.Vfs
