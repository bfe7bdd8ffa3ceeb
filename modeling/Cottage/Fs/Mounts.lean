import Cottage.Foundations.PointerChain
import Cottage.Foundations.Transition
import Cottage.Fs.VfsCreate

/-!
# Mounting file systems

`fs_mount` for both file systems and with a source, as the calls of a run.  A
tmpfs gets a new root for every mount; `devtmpfs_mount` makes a root once and
returns it every time.  The nodes that a caller may use as the parent of a path
are `vfs_root` and those that calls have returned before.
-/

namespace Cottage.Mounts

open Cottage.Vfs Cottage.Transition

inductive Fsid
  | tmpfs
  | devtmpfs
  deriving DecidableEq, Repr

/-- `handles` are the nodes that callers know. -/
structure State where
  heap : Heap
  devtmpfsRoot : Option NodePtr
  handles : List NodePtr

/-- The node that `mount` of the file system returns.  `devtmpfs_create_node`
makes the same node as `tmpfs_create_node`. -/
def mountNode (fs : Fsid) (parent : NodePtr) (name : Name) (s : State) : State × NodePtr :=
  match fs, s.devtmpfsRoot with
  | .devtmpfs, some root => (s, root)
  | .devtmpfs, none =>
    let (h, root) := tmpfsCreateNode parent name (0o644 ||| statIfdir) s.heap
    ({ s with heap := h, devtmpfsRoot := some root }, root)
  | .tmpfs, _ =>
    let (h, root) := tmpfsCreateNode parent name (0o644 ||| statIfdir) s.heap
    ({ s with heap := h }, root)

def sourceValid (h : Heap) (fuel : ℕ) (parent : NodePtr) (source : Name) : Option Bool :=
  if source = [] then some true
  else
    (path2node h vfsRoot fuel parent source).map fun found =>
      found.node.any fun node => !statIsDir (h.modes (h.get node).resource)

/-- The node to mount on, the parent of it and its name, if there is nothing
against it. -/
def mountTarget (h : Heap) (fuel : ℕ) (parent : NodePtr) (source target : Name) :
    Option (Option (NodePtr × NodePtr × Name)) := do
  let valid ← sourceValid h fuel parent source
  if !valid then some none
  else
    let found ← path2node h vfsRoot fuel parent target
    match found.node with
    | none => some none
    | some targetNode =>
      if targetNode ≠ vfsRoot ∧ !statIsDir (h.modes (h.get targetNode).resource) then some none
      else
        found.parent.map fun parentOfTgt =>
          some (targetNode, parentOfTgt, found.basename.getD [])

def fsMount (fuel : ℕ) (fs : Fsid) (parent : NodePtr) (source target : Name) (s : State) :
    Option (State × Bool) := do
  match ← mountTarget s.heap fuel parent source target with
  | none => some (s, false)
  | some (targetNode, parentOfTgt, basename) =>
    let (s, node) := mountNode fs parentOfTgt basename s
    let h := s.heap.set targetNode { s.heap.get targetNode with mountpoint := some node }
    let h ← dirCreateDotentries node parentOfTgt h
    some ({ s with heap := h }, true)

inductive Event
  | mount (fuel : ℕ) (fs : Fsid) (parent : NodePtr) (source target : Name)
  | create (fuel : ℕ) (parent : NodePtr) (name : Name) (mode : ℕ)
  | getNode (fuel : ℕ) (parent : NodePtr) (path : Name)

def Event.parent : Event → NodePtr
  | .mount _ _ parent _ _ => parent
  | .create _ parent _ _ => parent
  | .getNode _ parent _ => parent

def State.returned (s : State) (h : Heap) (node : Option NodePtr) : State :=
  { s with heap := h, handles := node.toList ++ s.handles }

def call (s : State) : Event → Option State
  | .mount fuel fs parent source target => (fsMount fuel fs parent source target s).map (·.1)
  | .create fuel parent name mode =>
    (internalCreate fuel parent name mode s.heap).map fun (h, node, _) => s.returned h node
  | .getNode fuel parent path =>
    (path2node s.heap vfsRoot fuel parent path).map fun found => s.returned s.heap found.node

def system : System State Event where
  init s := s = ⟨fsInit, none, [vfsRoot]⟩
  step s e := if e.parent ∈ s.handles then call s e else none

lemma fsMount_tmpfs (fuel : ℕ) (target : Name) (s : State) :
    (fsMount fuel .tmpfs vfsRoot [] target s).map (fun (s, ok) => (s.heap, ok)) =
      Vfs.fsMount fuel target s.heap := by
  simp only [fsMount, mountTarget, sourceValid, if_true, Vfs.fsMount, Option.bind_eq_bind,
    Option.bind_some, Bool.not_true, Bool.false_eq_true, if_false]
  cases path2node s.heap vfsRoot fuel vfsRoot target with
  | none => rfl
  | some found =>
    simp only [Option.bind_some]
    cases found.node with
    | none => rfl
    | some targetNode =>
      simp only []
      split_ifs with hdir
      · rfl
      · cases found.parent with
        | none => rfl
        | some parentOfTgt =>
          simp only [Option.map_some, Option.bind_some, mountNode]
          cases dirCreateDotentries _ _ _ with
          | none => rfl
          | some h => rfl

end Cottage.Mounts
