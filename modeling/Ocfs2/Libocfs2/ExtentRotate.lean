import Ocfs2.Libocfs2.ExtentGrow

set_option autoImplicit false

namespace Ocfs2.ExtentTree

open Extents (ExtentRec ExtentList recClusters setRecClusters)
open Effect

inductive SplitType
  | none
  | left
  | right
  deriving DecidableEq

def edgeInsert (left right : Path) (subtree_index : Nat) : Ext (Path × Path) := do
  let (root, left, right) ← require (completeEdgeInsert (← get).di.i_list left right subtree_index)
  setList root
  return (left, right)

def moveRecordRight (left_el right_el : ExtentList) : Option (ExtentList × ExtentList) := do
  let right_el ← createEmptyExtent right_el
  let move_rec ← lastRec left_el
  let right_el ← setRec right_el 0 move_rec
  let left_el ← shiftRecordsRight { left_el with l_next_free_rec := left_el.l_next_free_rec - 1 }
  let left_el ← setRec left_el 0 zeroRec
  return ({ left_el with l_next_free_rec := left_el.l_next_free_rec + 1 }, right_el)

def rotateSubtreeRight (left right : Path) (subtree_index : Nat) : Ext (Path × Path) := do
  let root := (← get).di.i_list
  let left_el := leafEl root left
  check (left_el.l_next_free_rec = left_el.l_count) .corruptExtentBlock
  let first ← require (getRec left_el 0)
  if isEmptyExtent first then return (left, right)
  else
    let (left_el, right_el) ← require (moveRecordRight left_el (leafEl root right))
    let (left, right) ← edgeInsert (setLeafEl left left_el) (setLeafEl right right_el) subtree_index
    syncPathToDisk (some left) (some right) subtree_index
    return (left, right)

def rotateRequiresPathAdjustment (left_el : ExtentList) (insert_cpos : Nat) : Option Bool :=
  (lastRec left_el).map fun rec => rec.e_cpos < insert_cpos

def leftmostRecContains (el : ExtentList) (cpos : Nat) : Option Bool :=
  if el.l_next_free_rec = 0 then some false
  else do
    let first ← getRec el 0
    if isEmptyExtent first then
      if el.l_next_free_rec = 1 then some false
      else (getRec el 1).map fun rec => covers el.l_tree_depth rec cpos
    else some (covers el.l_tree_depth first cpos)

def rotateRightLoop (split : SplitType) (insert_cpos : Nat) : Nat → Nat → Path → Ext (Path × Option Path)
  | 0, _, _ => stuck
  | n + 1, cpos, right =>
    if cpos ≠ 0 ∧ insert_cpos ≤ cpos then do
      let left ← findPath cpos
      assert (left.getLast?.map ExtentBlock.h_blkno ≠ right.getLast?.map ExtentBlock.h_blkno)
      let adjust ← require (rotateRequiresPathAdjustment (leafEl (← get).di.i_list left) insert_cpos)
      if split = .none ∧ adjust then return (right, some left)
      else
        let start ← require (findSubtreeRoot left right)
        let (left, right) ← rotateSubtreeRight left right start
        let moved ← require (leftmostRecContains (leafEl (← get).di.i_list right) insert_cpos)
        if split ≠ .none ∧ moved then return (right, some left)
        else
          let cpos ← findCposForLeftLeaf left
          rotateRightLoop split insert_cpos n cpos left
    else return (right, none)

def rotateTreeRight (split : SplitType) (insert_cpos : Nat) (right : Path) : Ext (Path × Option Path) := do
  newPath
  let cpos ← findCposForLeftLeaf right
  rotateRightLoop split insert_cpos (2 ^ 32) cpos right

def updateEdgeLengths (root : ExtentList) (path : Path) : Option (ExtentList × Path) := do
  let leaf ← path.getLast?
  if leaf.h_next_leaf_blk ≠ 0 then none
  else
    let range ← sumRightmostRec leaf.h_list
    let update (el : ExtentList) : Option ExtentList := do
      let rec ← lastRec el
      setRec el (el.l_next_free_rec - 1) { rec with e_int_clusters := sub32 range rec.e_cpos }
    let root ← update root
    let interior ← path.dropLast.mapM fun eb => (update eb.h_list).map fun el => { eb with h_list := el }
    return (root, interior ++ [leaf])

def emptied (eb : ExtentBlock) : ExtentBlock :=
  { eb with h_list := { eb.h_list with l_next_free_rec := 0, l_recs := eb.h_list.l_recs.set 0 zeroRec } }

def unlinkPath : Path → Ext Path
  | [] => return []
  | eb :: path => do
    assert (eb.h_list.l_next_free_rec ≤ 1)
    match ← attempt (deleteExtentBlock eb.h_blkno) with
    | .error _ => return emptied eb :: path
    | .ok () => do
      let path ← unlinkPath path
      return emptied eb :: path

def unlinkRecord (root_el : ExtentList) (blkno : Nat) : Option ExtentList := do
  let i ← ((root_el.l_recs.take root_el.l_next_free_rec).drop 1).findIdx? fun rec => rec.e_blkno = blkno
  setRec { root_el with l_next_free_rec := root_el.l_next_free_rec - 1 } (i + 1) zeroRec

def unlinkSubtree (left right : Path) (subtree_index : Nat) : Ext (Path × Path) := do
  let root := (← get).di.i_list
  let root_el ← require (nodeEl root left subtree_index)
  let child ← require right[subtree_index]?
  let root_el ← require (unlinkRecord root_el child.h_blkno)
  let (root, left) := setNodeEl root left subtree_index root_el
  setList root
  let left := left.modifyLast fun eb => { eb with h_next_leaf_blk := 0 }
  let unlinked ← unlinkPath (right.drop subtree_index)
  let (root, left) ← require (updateEdgeLengths (← get).di.i_list left)
  setList root
  return (left, left.take subtree_index ++ unlinked)

inductive RotateLeft
  | done (left right : Path) (deleted : Bool)
  | again

structure MovedLeft where
  left_el : ExtentList
  right_el : ExtentList
  right_has_empty : Bool
  del_right_subtree : Bool

def moveRecordLeft (left_el : ExtentList) (leaf : ExtentBlock) : Option MovedLeft := do
  let right_first ← getRec leaf.h_list 0
  let right_has_empty : Bool := isEmptyExtent right_first ∧ leaf.h_list.l_next_free_rec ≤ 1
  let right_el ←
    if isEmptyExtent right_first ∧ 1 < leaf.h_list.l_next_free_rec then removeEmptyExtent leaf.h_list
    else some leaf.h_list
  let del_right_subtree : Bool := leaf.h_next_leaf_blk = 0 ∧ right_el.l_next_free_rec = 1
  if right_has_empty then
    if del_right_subtree then
      let right_el ← removeEmptyExtent right_el
      some ⟨left_el, right_el, true, true⟩
    else none
  else
    let move_rec ← getRec right_el 0
    let left_el ← rotateLeaf left_el move_rec
    let right_el ← setRec right_el 0 zeroRec
    let right_el ← if leaf.h_next_leaf_blk = 0 then removeEmptyExtent right_el else some right_el
    some ⟨left_el, right_el, false, del_right_subtree⟩

def rotateSubtreeLeft (left right : Path) (subtree_index : Nat) : Ext RotateLeft := do
  let root := (← get).di.i_list
  let leaf ← require right.getLast?
  let left_first ← require (getRec (leafEl root left) 0)
  let right_first ← require (getRec leaf.h_list 0)
  if ¬ isEmptyExtent left_first then return .done left right false
  else if isEmptyExtent right_first ∧ leaf.h_next_leaf_blk ≠ 0 then return .again
  else
    let moved ← require (moveRecordLeft (leafEl root left) leaf)
    let left := setLeafEl left moved.left_el
    let right := setLeafEl right moved.right_el
    if moved.del_right_subtree then
      let (left, right) ← unlinkSubtree left right subtree_index
      let last ← require left.getLast?
      setLastEb last.h_blkno
      -- the empty record of the left leaf was kept until the right path was gone
      let last_el ← require (if moved.right_has_empty then removeEmptyExtent last.h_list else some last.h_list)
      let left := setLeafEl left last_el
      syncPathToDisk (some left) none subtree_index
      return .done left right true
    else
      let (left, right) ← edgeInsert left right subtree_index
      syncPathToDisk (some left) (some right) subtree_index
      return .done left right false

inductive RotateRet
  | ok
  | again (path : Path)
  | error (e : Errcode)

def rotateLeftLoop : Nat → Nat → Path → Ext RotateRet
  | 0, _, _ => stuck
  | n + 1, right_cpos, left =>
    if right_cpos = 0 then return .ok
    else do
      let right ← findPath right_cpos
      let subtree_root ← require (findSubtreeRoot left right)
      match ← rotateSubtreeLeft left right subtree_root with
      | .again => return .again right
      | .done _ _ true => return .ok
      | .done _ right false => do
        let right_cpos ← findCposForRightLeaf right
        rotateLeftLoop n right_cpos right

def rereadPath : Path → Ext Path
  | [] => return []
  | eb :: path => do
    let eb ← readExtentBlock eb.h_blkno
    let path ← rereadPath path
    return eb :: path

/-- Rotate from a path on. What the rotation returned is lost: the result is that of reading the path again. -/
def rotateTreeLeftOnce (path : Path) : Ext (RotateRet × Path) := do
  let first ← require (getRec (leafEl (← get).di.i_list path) 0)
  assert (isEmptyExtent first)
  let ret ← attempt (do
    let right_cpos ← findCposForRightLeaf path
    newPath
    path.forM fun _ => do
      match ← attempt malloc with
      | .ok () => return ()
      | .error _ => stuck
    newPath
    rotateLeftLoop (2 ^ 32) right_cpos path : Ext RotateRet)
  match path with
  | [] =>
    match ret with
    | .ok ret => return (ret, path)
    | .error e => return (.error e, path)
  | _ => do
    match ← attempt (rereadPath path) with
    | .ok path => return (.ok, path)
    | .error e => return (.error e, path)

def rotateTreeLeftLoop : Nat → Path → Option Path → Ext Path
  | 0, _, _ => stuck
  | n + 1, path, none => do
    match ← rotateTreeLeftOnce path with
    | (.ok, path) => return path
    | (.error e, _) => throw e
    | (.again restart_path, path) => rotateTreeLeftLoop n path (some restart_path)
  | n + 1, path, some tmp_path => do
    match ← rotateTreeLeftOnce tmp_path with
    | (.ok, _) => rotateTreeLeftLoop n path none
    | (.error e, _) => throw e
    | (.again restart_path, _) => rotateTreeLeftLoop n path (some restart_path)

def removeRightmostPath (path : Path) : Ext Path := do
  let cpos ← findCposForLeftLeaf path
  if cpos ≠ 0 then
    newPath
    let left ← findPath cpos
    let subtree_index ← require (findSubtreeRoot left path)
    let (left, path) ← unlinkSubtree left path subtree_index
    syncPathToDisk (some left) none subtree_index
    let last ← require left.getLast?
    setLastEb last.h_blkno
    return path
  else
    let path ← unlinkPath path
    let el := (← get).di.i_list
    let el ← require (setRec { el with l_tree_depth := 0, l_next_free_rec := 0 } 0 zeroRec)
    setList el
    setLastEb 0
    return path

def rotateTreeLeft (path : Path) : Ext Path := do
  let root := (← get).di.i_list
  let first ← require (getRec (leafEl root path) 0)
  if ¬ isEmptyExtent first then return path
  else
    match path.getLast? with
    | none => do
      let el ← require (removeEmptyExtent root)
      setList el
      return path
    | some leaf =>
      if leaf.h_next_leaf_blk = 0 then
        if 1 < leaf.h_list.l_next_free_rec then do
          let el ← require (removeEmptyExtent leaf.h_list)
          let path := setLeafEl path el
          writeExtentBlock leaf.h_blkno { leaf with h_list := el }
          return path
        else if leaf.h_list.l_next_free_rec = 0 then throw .corruptExtentBlock
        else removeRightmostPath path
      else rotateTreeLeftLoop (2 ^ 32) path none

end Ocfs2.ExtentTree
