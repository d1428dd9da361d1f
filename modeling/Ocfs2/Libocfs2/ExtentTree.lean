import Ocfs2.Libocfs2.Extents
import Ocfs2.Shared.Effect

set_option autoImplicit false

/-!
The blocks of a tree, the lists in them and the paths from the inode to the leaves. The root of every path is the
inode in memory, which the state holds; the other blocks of a path are copies of what is on the disk.
-/

namespace Ocfs2.ExtentTree

open Extents (ExtentRec ExtentList recClusters setRecClusters)
open Effect

structure ExtentBlock where
  h_blkno : Nat
  h_next_leaf_blk : Nat
  h_list : ExtentList
  deriving DecidableEq

structure Dinode where
  i_blkno : Nat
  i_clusters : Nat
  i_last_eb_blk : Nat
  i_list : ExtentList
  deriving DecidableEq

/-- The inode in memory and on disk, the extent blocks, the blocks that the allocator has free, and what the next
steps that can fail do. After the end of that list no step fails. -/
structure Volume where
  di : Dinode
  inode : Dinode
  blocks : Nat → Option ExtentBlock
  free : List Nat
  faults : List Bool

structure Geometry where
  extent_recs_per_eb : Nat
  blocks_per_cluster : Nat

abbrev Ext := Eff Volume Errcode

def fallible (e : Errcode) : Ext Unit :=
  ⟨fun v =>
    match v.faults with
    | [] => some (.ok (), v)
    | fails :: faults => some (if fails then .error e else .ok (), { v with faults })⟩

def malloc : Ext Unit := fallible .noMemory

def readExtentBlock (blkno : Nat) : Ext ExtentBlock := do
  fallible .io
  match (← get).blocks blkno with
  | none => throw .badExtentBlockMagic
  | some eb => return eb

def Volume.write (v : Volume) (blkno : Nat) (eb : ExtentBlock) : Volume :=
  { v with blocks := Function.update v.blocks blkno (some eb) }

def writeExtentBlock (blkno : Nat) (eb : ExtentBlock) : Ext Unit := do
  fallible .io
  modify fun v => v.write blkno eb

def setList (el : ExtentList) : Ext Unit :=
  modify fun v => { v with di := { v.di with i_list := el } }

def setLastEb (blkno : Nat) : Ext Unit :=
  modify fun v => { v with di := { v.di with i_last_eb_blk := blkno } }

def zeroRec : ExtentRec := ⟨0, 0, 0⟩

def isEmptyExtent (rec : ExtentRec) : Prop := rec.e_leaf_clusters = 0

instance (rec : ExtentRec) : Decidable (isEmptyExtent rec) := inferInstanceAs (Decidable (_ = _))

def add32 (a b : Nat) : Nat := (a + b) % 2 ^ 32

def sub32 (a b : Nat) : Nat := (a + 2 ^ 32 - b % 2 ^ 32) % 2 ^ 32

def getRec (el : ExtentList) (i : Nat) : Option ExtentRec := el.l_recs[i]?

def setRec (el : ExtentList) (i : Nat) (rec : ExtentRec) : Option ExtentList :=
  if i < el.l_recs.length then some { el with l_recs := el.l_recs.set i rec } else none

def recEnd (tree_depth : Nat) (rec : ExtentRec) : Nat := add32 rec.e_cpos (recClusters tree_depth rec)

def covers (tree_depth : Nat) (rec : ExtentRec) (v_cluster : Nat) : Bool :=
  rec.e_cpos ≤ v_cluster && v_cluster < recEnd tree_depth rec

def searchExtentList (el : ExtentList) (v_cluster : Nat) : Option Nat :=
  (el.l_recs.take el.l_next_free_rec).findIdx? fun rec => covers el.l_tree_depth rec v_cluster

def lastRec (el : ExtentList) : Option ExtentRec :=
  if el.l_next_free_rec = 0 then none else getRec el (el.l_next_free_rec - 1)

def sumRightmostRec (el : ExtentList) : Option Nat := (lastRec el).map (recEnd el.l_tree_depth)

def shiftRecordsRight (el : ExtentList) : Option ExtentList :=
  if el.l_next_free_rec = 0 ∨ el.l_count ≤ el.l_next_free_rec then none
  else some { el with
    l_recs := el.l_recs.take 1 ++ el.l_recs.take el.l_next_free_rec ++ el.l_recs.drop (el.l_next_free_rec + 1) }

def insertIndex (recs : List ExtentRec) (insert_cpos : Nat) : Nat :=
  (recs.findIdx? fun rec => insert_cpos < rec.e_cpos).getD recs.length

def rotateLeaf (el : ExtentList) (insert_rec : ExtentRec) : Option ExtentList := do
  let first ← getRec el 0
  if el.l_next_free_rec = 0 then none
  else if el.l_next_free_rec = el.l_count ∧ ¬ isEmptyExtent first then none
  else
    let recs := (el.l_recs.take el.l_next_free_rec).drop (if isEmptyExtent first then 1 else 0)
    let insert_index := insertIndex recs insert_rec.e_cpos
    -- the slot behind the records is dropped where the list grows into it
    let behind := el.l_recs.drop (recs.length + 1)
    if el.l_count < recs.length + 1 then none
    else some { el with
      l_next_free_rec := recs.length + 1
      l_recs := recs.take insert_index ++ insert_rec :: recs.drop insert_index ++ behind }

def removeEmptyExtent (el : ExtentList) : Option ExtentList := do
  let first ← getRec el 0
  if el.l_next_free_rec = 0 then none
  else if isEmptyExtent first then
    some { el with
      l_next_free_rec := el.l_next_free_rec - 1
      l_recs := (el.l_recs.take el.l_next_free_rec).drop 1 ++ zeroRec :: el.l_recs.drop el.l_next_free_rec }
  else some el

def createEmptyExtent (el : ExtentList) : Option ExtentList := do
  if el.l_tree_depth ≠ 0 then none
  else if el.l_next_free_rec = 0 then setRec { el with l_next_free_rec := 1 } 0 zeroRec
  else
    let first ← getRec el 0
    if isEmptyExtent first then some el
    else
      let el ← shiftRecordsRight el
      setRec { el with l_next_free_rec := el.l_next_free_rec + 1 } 0 zeroRec

abbrev Path := List ExtentBlock

def maxPathDepth : Nat := 5

def newPath : Ext Unit := do
  assert ((← get).di.i_list.l_tree_depth < maxPathDepth)
  malloc

def nodeEl (root : ExtentList) (path : Path) : Nat → Option ExtentList
  | 0 => some root
  | i + 1 => (path[i]?).map ExtentBlock.h_list

def setNodeEl (root : ExtentList) (path : Path) (i : Nat) (el : ExtentList) : ExtentList × Path :=
  match i with
  | 0 => (el, path)
  | i + 1 => (root, path.modify i fun eb => { eb with h_list := el })

def leafEl (root : ExtentList) (path : Path) : ExtentList := (path.getLast?.map ExtentBlock.h_list).getD root

def setLeafEl (path : Path) (el : ExtentList) : Path := path.modifyLast fun eb => { eb with h_list := el }

def pathIndex (el : ExtentList) (cpos : Nat) : Nat :=
  ((el.l_recs.take (el.l_next_free_rec - 1)).findIdx? fun rec => covers el.l_tree_depth rec cpos).getD
    (el.l_next_free_rec - 1)

def findPathFrom (cpos : Nat) : Nat → ExtentList → Ext Path
  | 0, el => do
    assert (el.l_tree_depth = 0)
    return []
  | depth + 1, el => do
    assert (el.l_tree_depth ≠ 0)
    check (el.l_next_free_rec ≠ 0) .corruptExtentBlock
    let rec ← require (getRec el (pathIndex el cpos))
    check (rec.e_blkno ≠ 0) .corruptExtentBlock
    malloc
    let eb ← readExtentBlock rec.e_blkno
    check (eb.h_list.l_next_free_rec ≤ eb.h_list.l_count) .corruptExtentBlock
    let path ← findPathFrom cpos depth eb.h_list
    return eb :: path

def findPath (cpos : Nat) : Ext Path := do
  let root := (← get).di.i_list
  findPathFrom cpos root.l_tree_depth root

def findSubtreeRoot : Path → Path → Option Nat
  | l :: left, r :: right => if l.h_blkno = r.h_blkno then (findSubtreeRoot left right).map (· + 1) else some 0
  | _, _ => none

def childIndex (el : ExtentList) (blkno : Nat) : Option Nat :=
  (el.l_recs.take el.l_next_free_rec).findIdx? fun rec => rec.e_blkno = blkno

def cposForLeftLeaf (root : ExtentList) (path : Path) : Nat → Nat → Except Errcode Nat
  | 0, blkno =>
    match childIndex root blkno with
    | none => .error .corruptExtentBlock
    | some 0 => .ok 0
    | some (j + 1) =>
      match getRec root j with
      | none => .error .undefined
      | some rec => .ok (sub32 (recEnd root.l_tree_depth rec) 1)
  | i + 1, blkno =>
    match path[i]? with
    | none => .error .undefined
    | some eb =>
      match childIndex eb.h_list blkno with
      | none => .error .corruptExtentBlock
      | some 0 => cposForLeftLeaf root path i eb.h_blkno
      | some (j + 1) =>
        match getRec eb.h_list j with
        | none => .error .undefined
        | some rec => .ok (sub32 (recEnd eb.h_list.l_tree_depth rec) 1)

def findCposForLeftLeaf (path : Path) : Ext Nat := do
  let leaf ← require path.getLast?
  reraise (cposForLeftLeaf (← get).di.i_list path (path.length - 1) leaf.h_blkno)

def cposForRightLeaf (root : ExtentList) (path : Path) : Nat → Nat → Except Errcode Nat
  | 0, blkno =>
    match childIndex root blkno with
    | none => .error .corruptExtentBlock
    | some j =>
      if j + 1 = root.l_next_free_rec then .ok 0
      else
        match getRec root (j + 1) with
        | none => .error .undefined
        | some rec => .ok rec.e_cpos
  | i + 1, blkno =>
    match path[i]? with
    | none => .error .undefined
    | some eb =>
      match childIndex eb.h_list blkno with
      | none => .error .corruptExtentBlock
      | some j =>
        if j + 1 = eb.h_list.l_next_free_rec then cposForRightLeaf root path i eb.h_blkno
        else
          match getRec eb.h_list (j + 1) with
          | none => .error .undefined
          | some rec => .ok rec.e_cpos

def findCposForRightLeaf (path : Path) : Ext Nat := do
  match path.getLast? with
  | none => return 0
  | some leaf => reraise (cposForRightLeaf (← get).di.i_list path (path.length - 1) leaf.h_blkno)

def writePathEb (path : Path) (sub_index : Nat) : Ext Unit :=
  (path.drop sub_index).reverse.forM fun eb => writeExtentBlock eb.h_blkno eb

def syncPathToDisk (left right : Option Path) (subtree_index : Nat) : Ext Unit := do
  writePathEb (left.getD []) subtree_index
  writePathEb (right.getD []) subtree_index
  match subtree_index with
  | 0 => return ()
  | i + 1 => do
    let path ← require (right.or left)
    let eb ← require path[i]?
    writeExtentBlock eb.h_blkno eb

def adjustAdjacentRecords (left_rec right_rec : ExtentRec) (right_child_el : ExtentList) :
    Option (ExtentRec × ExtentRec) := do
  let first ← getRec right_child_el 0
  let start ←
    if isEmptyExtent first then
      if right_child_el.l_next_free_rec ≤ 1 then none else (getRec right_child_el 1).map ExtentRec.e_cpos
    else some first.e_cpos
  let right_end := add32 right_rec.e_cpos right_rec.e_int_clusters
  let left_clusters := sub32 start left_rec.e_cpos
  let right_cpos := add32 left_rec.e_cpos left_clusters
  return ({ left_rec with e_int_clusters := left_clusters },
    { right_rec with e_cpos := right_cpos, e_int_clusters := sub32 right_end right_cpos })

def adjustRootRecords (root_el left_el right_el : ExtentList) (left_el_blkno : Nat) : Option ExtentList := do
  if root_el.l_tree_depth ≤ left_el.l_tree_depth then none
  else
    let i ← (root_el.l_recs.take (root_el.l_next_free_rec - 1)).findIdx? fun rec => rec.e_blkno = left_el_blkno
    let left_rec ← getRec root_el i
    let right_rec ← getRec root_el (i + 1)
    let (left_rec, right_rec) ← adjustAdjacentRecords left_rec right_rec right_el
    let root_el ← setRec root_el i left_rec
    setRec root_el (i + 1) right_rec

def edgeInsertLoop (root : ExtentList) (subtree_index : Nat) : Nat → Path → Path → Option (Path × Path)
  | 0, left, right => some (left, right)
  | i + 1, left, right => do
    if i + 1 ≤ subtree_index then some (left, right)
    else
      let left_el ← nodeEl root left (i + 2)
      let right_el ← nodeEl root right (i + 2)
      let left_parent ← nodeEl root left (i + 1)
      let right_parent ← nodeEl root right (i + 1)
      if left_el.l_next_free_rec = 0 then none
      else
        let left_rec ← getRec left_parent (left_el.l_next_free_rec - 1)
        let right_rec ← getRec right_parent 0
        let (left_rec, right_rec) ← adjustAdjacentRecords left_rec right_rec right_el
        let left_parent ← setRec left_parent (left_el.l_next_free_rec - 1) left_rec
        let right_parent ← setRec right_parent 0 right_rec
        edgeInsertLoop root subtree_index i (setNodeEl root left (i + 1) left_parent).2
          (setNodeEl root right (i + 1) right_parent).2

def completeEdgeInsert (root : ExtentList) (left right : Path) (subtree_index : Nat) :
    Option (ExtentList × Path × Path) := do
  let (left, right) ← edgeInsertLoop root subtree_index (left.length - 1) left right
  let el ← nodeEl root left subtree_index
  let left_el ← nodeEl root left (subtree_index + 1)
  let right_el ← nodeEl root right (subtree_index + 1)
  let child ← left[subtree_index]?
  let el ← adjustRootRecords el left_el right_el child.h_blkno
  let (root, left) := setNodeEl root left subtree_index el
  -- the common block is one buffer only where it is the inode
  return (root, left, (setNodeEl root right subtree_index el).2)

end Ocfs2.ExtentTree
