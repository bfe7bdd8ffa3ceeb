import Cottage.Foundations.Separated
import Mathlib.Data.Nat.Bitwise

/-!
# The node tree of the file system

`fs.c` over a heap of nodes, with the node constructor of `tmpfs.c`.  A node is
either an object of its own or an element of the children array of its parent:
`vfs_add_child` copies the new node into the array of the parent, so there are
two objects for it from then on.  The copy shares the children array of the
original.  Arrays are taken to have room for all children, and so `realloc`
leaves them where they are.

`path2node` copies a component into a block of `strlen(path)` bytes without
terminating it; for paths of up to 1000 bytes the block is longer than that and
zeroed, so the component is followed by a zero byte.

A result `none` stands for a call that does not return, because it follows a
cycle or a null pointer.
-/

namespace Cottage.Vfs

open Separated Function

def slash : UInt8 := 0x2F

abbrev Name := List UInt8

inductive NodePtr
  | node (id : ℕ)
  | child (array index : ℕ)
  deriving DecidableEq, Repr

/-- A `vfs_node_t`; `childrenCount` is −1 for what is not a directory. -/
structure Node where
  mountpoint : Option NodePtr
  redir : Option NodePtr
  resource : ℕ
  name : Name
  parent : Option NodePtr
  children : Option ℕ
  childrenCount : ℤ
  symlinkTarget : Option Name
  deriving DecidableEq, Repr

structure Heap where
  nodes : ℕ → Node
  arrays : ℕ → ℕ → Node
  modes : ℕ → ℕ
  nextNode : ℕ
  nextArray : ℕ
  nextResource : ℕ

def Heap.get (h : Heap) : NodePtr → Node
  | .node id => h.nodes id
  | .child array index => h.arrays array index

def Heap.set (h : Heap) (p : NodePtr) (node : Node) : Heap :=
  match p with
  | .node id => { h with nodes := update h.nodes id node }
  | .child array index =>
    { h with
      arrays := update h.arrays array (update (h.arrays array) index node) }

lemma Heap.get_set (h : Heap) (p q : NodePtr) (node : Node) :
    (h.set p node).get q = if q = p then node else h.get q := by
  cases p with
  | node id =>
    cases q with
    | node id' => simp only [Heap.set, Heap.get, update_apply, NodePtr.node.injEq]
    | child array index => simp only [Heap.set, Heap.get, reduceCtorEq, if_false]
  | child array index =>
    cases q with
    | node id => simp only [Heap.set, Heap.get, reduceCtorEq, if_false]
    | child array' index' =>
      simp only [Heap.set, Heap.get, update_apply, NodePtr.child.injEq]
      by_cases harray : array' = array
      · subst harray
        simp only [if_true, update_apply, true_and]
      · simp only [harray, if_false, false_and]

section

variable (h : Heap) (p : NodePtr) (node : Node)

include h p node

@[simp] lemma Heap.set_modes : (h.set p node).modes = h.modes := by
  cases p <;> rfl

@[simp] lemma Heap.set_nextNode : (h.set p node).nextNode = h.nextNode := by
  cases p <;> rfl

@[simp] lemma Heap.set_nextArray : (h.set p node).nextArray = h.nextArray := by
  cases p <;> rfl

@[simp] lemma Heap.set_nextResource : (h.set p node).nextResource = h.nextResource := by
  cases p <;> rfl

end

/-! ## Modes -/

def statIfmt : ℕ := 0xf000

def statIfdir : ℕ := 0x4000

def statIfreg : ℕ := 0x8000

def statIflnk : ℕ := 0xa000

def statIsDir (mode : ℕ) : Bool :=
  mode &&& statIfdir = statIfdir

def statIsReg (mode : ℕ) : Bool :=
  mode &&& statIfreg = statIfreg

def statIsLnk (mode : ℕ) : Bool :=
  mode &&& statIflnk = statIflnk

/-! ## Nodes -/

def vfsCreateNode (parent : Option NodePtr) (name : Name) (dir : Bool) (h : Heap) :
    Heap × NodePtr :=
  let node : Node :=
    { mountpoint := none
      redir := none
      resource := h.nextResource
      name := name
      parent := parent
      children := if dir then some h.nextArray else none
      childrenCount := if dir then 0 else -1
      symlinkTarget := none }
  ({ h with
    nodes := update h.nodes h.nextNode node
    modes := update h.modes h.nextResource 0
    nextNode := h.nextNode + 1
    nextArray := if dir then h.nextArray + 1 else h.nextArray
    nextResource := h.nextResource + 1 }, .node h.nextNode)

/-- The node gets a resource of its own in place of the one that
`vfs_create_node` has made. -/
def tmpfsCreateNode (parent : NodePtr) (name : Name) (mode : ℕ) (h : Heap) : Heap × NodePtr :=
  let (h, newNode) := vfsCreateNode (some parent) name (statIsDir mode) h
  let h := h.set newNode { h.get newNode with resource := h.nextResource }
  ({ h with
    modes := update h.modes h.nextResource mode
    nextResource := h.nextResource + 1 }, newNode)

def vfsAddChild (parent newChild : NodePtr) (h : Heap) : Option Heap :=
  (h.get parent).children.map fun array =>
    let h := h.set (.child array (h.get parent).childrenCount.toNat) (h.get newChild)
    h.set parent { h.get parent with childrenCount := (h.get parent).childrenCount + 1 }

def dot : Name := [0x2E]

def dotdot : Name := [0x2E, 0x2E]

def makeDotentries (node parent : NodePtr) (h : Heap) : Heap × NodePtr × NodePtr :=
  let dotEntry := vfsCreateNode (some node) dot false h
  let dotdotEntry := vfsCreateNode (some node) dotdot false dotEntry.1
  let h := dotdotEntry.1.set dotEntry.2 { dotdotEntry.1.get dotEntry.2 with redir := some node }
  (h.set dotdotEntry.2 { h.get dotdotEntry.2 with redir := some parent }, dotEntry.2,
    dotdotEntry.2)

def dirCreateDotentries (node parent : NodePtr) (h : Heap) : Option Heap :=
  let (h, dotEntry, dotdotEntry) := makeDotentries node parent h
  (vfsAddChild node dotEntry h).bind (vfsAddChild node dotdotEntry)

/-! ## Looking up a path -/

/-- `reduce_node` without following symbolic links. -/
def reduceNode (h : Heap) : ℕ → NodePtr → Option NodePtr
  | 0, _ => none
  | fuel + 1, node =>
    match (h.get node).redir, (h.get node).mountpoint with
    | some target, _ => reduceNode h fuel target
    | none, some target => reduceNode h fuel target
    | none, none => some node

def nodeGetChild (h : Heap) (node : NodePtr) (childName : Name) : Option NodePtr :=
  (h.get node).children.bind fun array =>
    ((List.range (h.get node).childrenCount.toNat).find? fun i =>
      (h.arrays array i).name = childName).map (NodePtr.child array)

inductive Errno
  | enoent
  | eexist
  | enotdir
  deriving DecidableEq, Repr

/-- What `path2node` stores through its three pointers, and the error number it
sets, if any. -/
structure Found where
  parent : Option NodePtr
  node : Option NodePtr
  basename : Option Name
  errno : Option Errno
  deriving DecidableEq, Repr

def Found.nowhere (errno : Option Errno) : Found where
  parent := none
  node := none
  basename := none
  errno := errno

/-- The beginning of `path2node`: the result, or the node and the part of the
path that the loop starts with. -/
def pathStart (h : Heap) (root : NodePtr) (fuel : ℕ) (parent : NodePtr) (path : Name) :
    Option (Found ⊕ NodePtr × Name) :=
  if path = [] then some (.inl (.nowhere (some .enoent)))
  else
    (reduceNode h fuel parent).bind fun current =>
      if path.head? = some slash then
        (reduceNode h fuel root).map fun current =>
          let tail := path.dropWhile (· = slash)
          if tail = [] then .inl ⟨some current, some current, none, none⟩
          else .inr (current, tail)
      else some (.inr (current, path))

/-- The loop of `path2node`.  What the recursive call for a symbolic link finds
is only compared with the null pointer. -/
def pathLoop (h : Heap) (root : NodePtr) : ℕ → NodePtr → Name → Option Found
  | 0, _, _ => none
  | fuel + 1, current, path => do
      let pathElem := front slash path
      let tail := rest slash path
      let last := tail = []
      let current ← reduceNode h fuel current
      match nodeGetChild h current pathElem with
      | none =>
        if last then some ⟨some current, none, some pathElem, some .enoent⟩
        else some (.nowhere (some .enoent))
      | some newNode =>
        let newNode ← reduceNode h fuel newNode
        if last then some ⟨some current, some newNode, some pathElem, none⟩
        else if statIsLnk (h.modes (h.get newNode).resource) then
          let linkParent ← (h.get newNode).parent
          let target ← (h.get newNode).symlinkTarget
          let found ←
            match ← pathStart h root fuel linkParent target with
            | .inl found => some found
            | .inr (start, path) => pathLoop h root fuel start path
          if found.node = none then some (.nowhere found.errno)
          else pathLoop h root fuel newNode tail
        else if !statIsDir (h.modes (h.get newNode).resource) then
          some (.nowhere (some .enotdir))
        else pathLoop h root fuel newNode tail

def path2node (h : Heap) (root : NodePtr) (fuel : ℕ) (parent : NodePtr) (path : Name) :
    Option Found := do
  match ← pathStart h root fuel parent path with
  | .inl found => some found
  | .inr (start, path) => pathLoop h root fuel start path

/-! ## Calls -/

/-- `vfs_root` is the first node `fs_init` makes. -/
def vfsRoot : NodePtr := .node 0

/-- The end of `internal_create`, once the parent is known. -/
def createIn (parentOfTgt : NodePtr) (basename : Name) (mode : ℕ) (h : Heap) :
    Option (Heap × NodePtr) := do
  let (h, target) := tmpfsCreateNode parentOfTgt basename mode h
  let h ← vfsAddChild parentOfTgt target h
  if statIsDir (h.modes (h.get target).resource) then
    let h ← dirCreateDotentries target parentOfTgt h
    some (h, target)
  else some (h, target)

/-- `internal_create`, with the null pointer as `none`. -/
def internalCreate (fuel : ℕ) (parent : NodePtr) (name : Name) (mode : ℕ) (h : Heap) :
    Option (Heap × Option NodePtr × Option Errno) := do
  let found ← path2node h vfsRoot fuel parent name
  match found.node, found.parent with
  | some _, _ => some (h, none, some .eexist)
  | none, none => some (h, none, some .enoent)
  | none, some parentOfTgt =>
    let basename ← found.basename
    let (h, target) ← createIn parentOfTgt basename mode h
    some (h, some target, found.errno)

def fsCreate (fuel : ℕ) (path : Name) (mode : ℕ) (h : Heap) :
    Option (Heap × Option NodePtr × Option Errno) :=
  internalCreate fuel vfsRoot path mode h

/-- `fs_get_node` without following a symbolic link at the end. -/
def fsGetNode (fuel : ℕ) (path : Name) (h : Heap) : Option (Option NodePtr) :=
  (path2node h vfsRoot fuel vfsRoot path).map (·.node)

/-! ## Mounting the root -/

/-- The heap after `fs_init`. -/
def fsInit : Heap :=
  (vfsCreateNode none [] false
    { nodes := fun _ => ⟨none, none, 0, [], none, none, 0, none⟩
      arrays := fun _ _ => ⟨none, none, 0, [], none, none, 0, none⟩
      modes := fun _ => 0
      nextNode := 0
      nextArray := 0
      nextResource := 0 }).1

/-- `fs_mount` of a tmpfs, without a source. -/
def fsMount (fuel : ℕ) (target : Name) (h : Heap) : Option (Heap × Bool) := do
  let found ← path2node h vfsRoot fuel vfsRoot target
  match found.node with
  | none => some (h, false)
  | some targetNode =>
    if targetNode ≠ vfsRoot ∧ !statIsDir (h.modes (h.get targetNode).resource) then
      some (h, false)
    else do
      let parentOfTgt ← found.parent
      let (h, mountNode) :=
        tmpfsCreateNode parentOfTgt (found.basename.getD []) (0o644 ||| statIfdir) h
      let h := h.set targetNode { h.get targetNode with mountpoint := some mountNode }
      let h ← dirCreateDotentries mountNode parentOfTgt h
      some (h, true)

end Cottage.Vfs
