import LaunchManager.Library.LinkedTree
import Mathlib.Algebra.Group.Nat.Defs

/-!
# The map of process identifiers

The class of `safe_process_map.cpp`: an array of cells that holds a digital
search tree over the bits of the process identifier, lowest bit first, and the
list of the free cells, linked through `pidRight`. What a caller does under the
lock of the root is one step. The walks along links are cut off after more
rounds than there are cells; `none` stands for a walk that did not end, or for
a root that is locked.
-/

namespace LaunchManager

set_option autoImplicit false

universe u

/-- The signed `pid_t`. -/
abbrev ProcessID := BitVec 32

namespace SafeProcessMap

def NULL_INDEX : Nat := 0xFFFFFFFF

def LOCKED_INDEX : Nat := 0xFFFFFFFE

end SafeProcessMap

open SafeProcessMap

structure ProcessInfoData (C : Type u) where
  status : Int := -1
  component : Option C := none
  deriving DecidableEq, Repr

structure ProcessTreeNode (C : Type u) where
  pidLeft : Nat := NULL_INDEX
  pidRight : Nat := NULL_INDEX
  pid : ProcessID := -1
  data : ProcessInfoData C := {}

inductive SafeProcessMapReturnType where
  | ok
  | yield
  | insertionError
  | invalidIdError
  | undefined
  deriving DecidableEq, Repr

/-- The conversion of a return code, for the codes of the enumeration. -/
def SafeProcessMapReturnType.ofCode : Int → SafeProcessMapReturnType
  | 0 => .ok
  | 1 => .yield
  | -1 => .insertionError
  | -2 => .invalidIdError
  | _ => .undefined

/-- `capacity` is the length of the array. -/
structure SafeProcessMap (C : Type u) where
  capacity : Nat
  items : Nat → ProcessTreeNode C
  treeRoot : Nat := NULL_INDEX
  freeListHead : Nat := NULL_INDEX
  current : Nat := NULL_INDEX

namespace SafeProcessMap
variable {C : Type u}

def create (capacity : Nat) : SafeProcessMap C :=
  if capacity = 0 then { capacity := 0, items := fun _ => {} }
  else
    { capacity
      items := fun i =>
        if i < capacity then
          { pid := 0
            pidRight := if i = capacity - 1 then NULL_INDEX else (i + 1) % 2 ^ 32 }
        else {}
      freeListHead := 0 }

def setItem (M : SafeProcessMap C) (i : Nat) (node : ProcessTreeNode C) : SafeProcessMap C :=
  { M with items := Function.update M.items i node }

/-- The loop of `findNode`: `current_`, the parent and the mask when it ends. -/
def findNode (M : SafeProcessMap C) (key : ProcessID) :
    Nat → Nat → Nat → BitVec 32 → Option (Nat × Nat × BitVec 32)
  | 0, _, _, _ => none
  | rounds + 1, current, parent, mask =>
    if current ≠ NULL_INDEX ∧ key ≠ (M.items current).pid then
      M.findNode key rounds
        (if key &&& mask ≠ 0 then (M.items current).pidLeft else (M.items current).pidRight)
        current (mask <<< 1)
    else some (current, parent, mask)

def takeCell (M : SafeProcessMap C) (key : ProcessID) (data : ProcessInfoData C) :
    SafeProcessMap C :=
  { M with
    current := M.freeListHead
    freeListHead := (M.items M.freeListHead).pidRight }.setItem M.freeListHead
      { pid := key, data, pidLeft := NULL_INDEX, pidRight := NULL_INDEX }

def insertionCode (data : ProcessInfoData C) : Int := if data.component.isNone then 1 else 0

def insertNode (M : SafeProcessMap C) (mask : BitVec 32) (parent : Nat) (key : ProcessID)
    (data : ProcessInfoData C) : SafeProcessMap C × Int :=
  if M.freeListHead = NULL_INDEX then ({ M with current := M.freeListHead }, -1)
  else
    let M' := M.takeCell key data
    (if key &&& (mask >>> 1) ≠ 0 then
      M'.setItem parent { M'.items parent with pidLeft := M'.current }
    else M'.setItem parent { M'.items parent with pidRight := M'.current }, insertionCode data)

def findLeaf (M : SafeProcessMap C) : Nat → Nat → Nat → Option (Nat × Nat)
  | 0, _, _ => none
  | rounds + 1, leaf, leafParent =>
    if (M.items leaf).pidLeft ≠ NULL_INDEX then M.findLeaf rounds (M.items leaf).pidLeft leaf
    else if (M.items leaf).pidRight ≠ NULL_INDEX then
      M.findLeaf rounds (M.items leaf).pidRight leaf
    else some (leaf, leafParent)

/-- Both branches of `deleteNode` cut the link from a parent to its child like this. -/
def unlink (M : SafeProcessMap C) (parent child : Nat) : SafeProcessMap C :=
  if (M.items parent).pidLeft = child then
    M.setItem parent { M.items parent with pidLeft := NULL_INDEX }
  else M.setItem parent { M.items parent with pidRight := NULL_INDEX }

def freeCell (M : SafeProcessMap C) (leaf : Nat) : SafeProcessMap C :=
  { M.setItem leaf { pid := 0, pidLeft := NULL_INDEX, pidRight := M.freeListHead } with
    freeListHead := leaf }

/-- The second value is the new root. -/
def deleteNode (M : SafeProcessMap C) (parent leaf root leafParent : Nat) :
    SafeProcessMap C × Nat :=
  if leaf = root then (M.freeCell leaf, NULL_INDEX)
  else if leaf = M.current then ((M.unlink parent M.current).freeCell leaf, root)
  else
    let moved := M.setItem M.current
      { M.items M.current with pid := (M.items leaf).pid, data := (M.items leaf).data }
    ((moved.unlink leafParent leaf).freeCell leaf, root)

def removeNode (M : SafeProcessMap C) (target data : ProcessInfoData C) (parent root : Nat) :
    Option (SafeProcessMap C × Nat × Int × ProcessInfoData C) :=
  let stored := (M.items M.current).data
  if xor data.component.isNone stored.component.isNone then
    let target :=
      if stored.component.isSome then { stored with status := data.status }
      else { stored with component := data.component }
    (M.findLeaf (M.capacity + 1) M.current M.current).map fun (leaf, leafParent) =>
      let (M', root') := M.deleteNode parent leaf root leafParent
      (M', root', if data.component.isSome then 1 else 0, target)
  else some (M, root, -2, target)

/-- One round of the loop of `search`, from the lock of the root to its release: the return code
and the target with which the round ends. -/
def searchRound (M : SafeProcessMap C) (key : ProcessID) (data : ProcessInfoData C) :
    Option (SafeProcessMap C × Int × ProcessInfoData C) :=
  let target : ProcessInfoData C := ⟨data.status, none⟩
  let root := M.treeRoot
  if root = LOCKED_INDEX then none
  else if root = NULL_INDEX then
    let M' := M.takeCell key data
    some ({ M' with treeRoot := M'.current }, insertionCode data, target)
  else
    (M.findNode key (M.capacity + 1) root NULL_INDEX 1).bind fun (current, parent, mask) =>
      let M' := { M with current }
      if current = NULL_INDEX then
        let (M'', code) := M'.insertNode mask parent key data
        some ({ M'' with treeRoot := root }, code, target)
      else
        (M'.removeNode target data parent root).map fun (M'', root', code, target) =>
          ({ M'' with treeRoot := root' }, code, target)

end SafeProcessMap

end LaunchManager
