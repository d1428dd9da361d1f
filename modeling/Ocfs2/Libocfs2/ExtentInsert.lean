import Ocfs2.Libocfs2.ExtentRotate

set_option autoImplicit false

/-!
Both work on a duplicate of the extent blocks. Where it cannot be made they work on the tree itself.
-/

namespace Ocfs2.ExtentTree

open Extents (ExtentRec ExtentList recClusters setRecClusters)
open Effect

variable (fs : Geometry)

def clustersToBlocks (clusters : Nat) : Nat := clusters * fs.blocks_per_cluster

def add64 (a b : Nat) : Nat := (a + b) % 2 ^ 64

def sub64 (a b : Nat) : Nat := (a + 2 ^ 64 - b % 2 ^ 64) % 2 ^ 64

def setLeafClusters (rec : ExtentRec) (clusters : Nat) : ExtentRec := setRecClusters 0 rec clusters

def addLeafClusters (rec : ExtentRec) (clusters : Nat) : ExtentRec := setLeafClusters rec (rec.e_leaf_clusters + clusters)

def subLeafClusters (rec : ExtentRec) (clusters : Nat) : ExtentRec :=
  setLeafClusters rec (rec.e_leaf_clusters + 2 ^ 16 - clusters % 2 ^ 16)

def leafRec (e_cpos e_blkno e_leaf_clusters e_flags : Nat) : ExtentRec :=
  ⟨e_cpos, e_flags * 2 ^ 24 + e_leaf_clusters % 2 ^ 16, e_blkno⟩

inductive ContigType
  | none
  | left
  | right
  | leftright
  deriving DecidableEq

def blockExtentContig (ext : ExtentRec) (blkno : Nat) : Prop :=
  blkno = add64 ext.e_blkno (clustersToBlocks fs ext.e_leaf_clusters)

instance (ext : ExtentRec) (blkno : Nat) : Decidable (blockExtentContig fs ext blkno) :=
  inferInstanceAs (Decidable (_ = _))

def extentsAdjacent (left right : ExtentRec) : Prop := add32 left.e_cpos left.e_leaf_clusters = right.e_cpos

instance (left right : ExtentRec) : Decidable (extentsAdjacent left right) := inferInstanceAs (Decidable (_ = _))

def extentContig (ext insert_rec : ExtentRec) : ContigType :=
  if ext.e_flags ≠ insert_rec.e_flags then .none
  else if extentsAdjacent ext insert_rec ∧ blockExtentContig fs ext insert_rec.e_blkno then .right
  else if extentsAdjacent insert_rec ext ∧ blockExtentContig fs insert_rec ext.e_blkno then .left
  else .none

def cleanupMerge (el : ExtentList) (index : Nat) : Option ExtentList := do
  let rec ← getRec el index
  if rec.e_leaf_clusters ≠ 0 then some el
  else if 0 < index then
    let first ← getRec el 0
    if isEmptyExtent first then none
    else
      some { el with l_recs := zeroRec :: el.l_recs.take index ++ el.l_recs.drop (index + 1) }
  else setRec el 0 zeroRec

def mergeRecRight (split_rec : ExtentRec) (el : ExtentList) (index : Nat) : Option ExtentList := do
  if el.l_next_free_rec ≤ index then none
  else
    let left_rec ← getRec el index
    let right_rec ← getRec el (index + 1)
    let split_clusters := split_rec.e_leaf_clusters
    let right_rec := addLeafClusters
      { right_rec with
        e_cpos := sub32 right_rec.e_cpos split_clusters
        e_blkno := sub64 right_rec.e_blkno (clustersToBlocks fs split_clusters) } split_clusters
    let el ← setRec el index (subLeafClusters left_rec split_clusters)
    let el ← setRec el (index + 1) right_rec
    cleanupMerge el index

def mergeRecLeft (split_rec : ExtentRec) (el : ExtentList) (index : Nat) : Option ExtentList := do
  if index = 0 then none
  else
    let left_rec ← getRec el (index - 1)
    let right_rec ← getRec el index
    let first ← getRec el 0
    let split_clusters := split_rec.e_leaf_clusters
    let left_rec :=
      if isEmptyExtent first ∧ index = 1 then split_rec else addLeafClusters left_rec split_clusters
    let right_rec := subLeafClusters
      { right_rec with
        e_cpos := add32 right_rec.e_cpos split_clusters
        e_blkno := add64 right_rec.e_blkno (clustersToBlocks fs split_clusters) } split_clusters
    let el ← setRec el (index - 1) left_rec
    let el ← setRec el index right_rec
    cleanupMerge el index

structure MergeCtxt where
  c_contig_type : ContigType
  c_has_empty_extent : Bool
  c_split_covers_rec : Bool
  deriving DecidableEq

def setLeaf (path : Path) (el : ExtentList) : Ext Path :=
  match path with
  | [] => do
    setList el
    return []
  | eb :: path => return setLeafEl (eb :: path) el

def currentLeaf (path : Path) : Ext ExtentList := do
  return leafEl (← get).di.i_list path

/-- Rotate the empty record away. An error is passed over, with what the path is then not known. -/
def tryRotateTreeLeft (path : Path) : Ext Unit := do
  let _ ← attempt (rotateTreeLeft path)
  return ()

def writeLeaf (path : Path) : Ext Unit :=
  match path.getLast? with
  | none => return ()
  | some leaf => writeExtentBlock leaf.h_blkno leaf

def mergeLeftRight (path : Path) (split_index : Nat) (split_rec : ExtentRec) (covers : Bool) : Ext Unit := do
  assert (covers = true)
  assert (split_index ≠ 0)
  let el ← require (mergeRecLeft fs split_rec (← currentLeaf path) split_index)
  let path ← setLeaf path el
  let first ← require (getRec el 0)
  assert (isEmptyExtent first)
  let path ← rotateTreeLeft path
  let el ← currentLeaf path
  let rec ← require (getRec el (split_index - 1))
  let el ← require (mergeRecRight fs rec el (split_index - 1))
  let path ← setLeaf path el
  let first ← require (getRec el 0)
  assert (isEmptyExtent first)
  tryRotateTreeLeft path

def mergeOneSide (path : Path) (split_index : Nat) (split_rec : ExtentRec) (ctxt : MergeCtxt) : Ext Unit := do
  let el ← currentLeaf path
  let el ← require
    (if ctxt.c_contig_type = .right then mergeRecLeft fs split_rec el split_index
    else mergeRecRight fs split_rec el split_index)
  let path ← setLeaf path el
  writeLeaf path
  if ctxt.c_split_covers_rec then tryRotateTreeLeft path else return ()

def tryToMergeExtent (path : Path) (split_index : Nat) (split_rec : ExtentRec) (ctxt : MergeCtxt) : Ext Unit := do
  assert (ctxt.c_contig_type ≠ .none)
  if ctxt.c_split_covers_rec ∧ ctxt.c_has_empty_extent then
    let path ← rotateTreeLeft path
    if ctxt.c_contig_type = .leftright then
      mergeLeftRight fs path (split_index - 1) split_rec ctxt.c_split_covers_rec
    else mergeOneSide fs path (split_index - 1) split_rec ctxt
  else if ctxt.c_contig_type = .leftright then mergeLeftRight fs path split_index split_rec ctxt.c_split_covers_rec
  else mergeOneSide fs path split_index split_rec ctxt

def subtractFromRec (split : SplitType) (rec split_rec : ExtentRec) : ExtentRec :=
  if split = .left then
    subLeafClusters
      { rec with
        e_cpos := add32 rec.e_cpos split_rec.e_leaf_clusters
        e_blkno := add64 rec.e_blkno (clustersToBlocks fs split_rec.e_leaf_clusters) } split_rec.e_leaf_clusters
  else subLeafClusters rec split_rec.e_leaf_clusters

def figureMergeContigType (el : ExtentList) (index : Nat) (split_rec : ExtentRec) : Option ContigType := do
  let ret ←
    if index = 0 then some .none
    else do
      let rec ← getRec el (index - 1)
      if index = 1 ∧ isEmptyExtent rec then
        let here ← getRec el index
        some (if split_rec.e_cpos = here.e_cpos then .right else .none)
      else some (extentContig fs rec split_rec)
  if index + 1 < el.l_next_free_rec then
    let rec ← getRec el (index + 1)
    let contig_type := extentContig fs rec split_rec
    some (if contig_type = .left ∧ ret = .right then .leftright else if ret = .none then contig_type else ret)
  else some ret

structure InsertType where
  ins_split : SplitType
  ins_appending : Bool
  ins_contig : ContigType
  ins_contig_index : Nat
  deriving DecidableEq

def figureContigType (el : ExtentList) (insert_rec : ExtentRec) : ContigType × Nat :=
  let recs := el.l_recs.take el.l_next_free_rec
  match recs.findIdx? fun rec => extentContig fs rec insert_rec ≠ .none with
  | none => (.none, 0)
  | some i => ((recs[i]?.map fun rec => extentContig fs rec insert_rec).getD .none, i)

def figureAppendingType (el : ExtentList) (insert_rec : ExtentRec) : Option Bool :=
  if el.l_next_free_rec = 0 then some true
  else do
    let first ← getRec el 0
    if isEmptyExtent first ∧ el.l_next_free_rec = 1 then some true
    else (lastRec el).map fun rec => recEnd 0 rec ≤ insert_rec.e_cpos

def figureInsertType (insert_rec : ExtentRec) : Ext (InsertType × Bool × Option ExtentBlock) := do
  let di := (← get).di
  if di.i_list.l_tree_depth = 0 then
    let (contig, index) := figureContigType fs di.i_list insert_rec
    let appending ← require (figureAppendingType di.i_list insert_rec)
    return (⟨.none, appending, contig, index⟩, di.i_list.l_next_free_rec ≠ di.i_list.l_count, none)
  else
    let last_eb ← readExtentBlock di.i_last_eb_blk
    let free_records : Bool := last_eb.h_list.l_next_free_rec ≠ last_eb.h_list.l_count
    newPath
    let path ← findPath insert_rec.e_cpos
    let leaf ← require path.getLast?
    let (contig, index) := figureContigType fs leaf.h_list insert_rec
    let contig := if contig = .left ∧ index = 0 then .none else contig
    if di.i_last_eb_blk = leaf.h_blkno then
      let appending ← require (figureAppendingType leaf.h_list insert_rec)
      return (⟨.none, appending, contig, index⟩, free_records, some last_eb)
    else return (⟨.none, false, contig, index⟩, free_records, some last_eb)

def insertAtLeaf (insert_rec : ExtentRec) (el : ExtentList) (insert : InsertType) : Option ExtentList := do
  if el.l_tree_depth ≠ 0 then none
  else if insert.ins_split ≠ .none then
    let i ← searchExtentList el insert_rec.e_cpos
    let rec ← getRec el i
    let el ← setRec el i (subtractFromRec fs insert.ins_split rec insert_rec)
    rotateLeaf el insert_rec
  else if insert.ins_contig ≠ .none then
    let rec ← getRec el insert.ins_contig_index
    let start :=
      if insert.ins_contig = .left then { rec with e_blkno := insert_rec.e_blkno, e_cpos := insert_rec.e_cpos }
      else rec
    setRec el insert.ins_contig_index (addLeafClusters start insert_rec.e_leaf_clusters)
  else if el.l_next_free_rec = 0 then setRec { el with l_next_free_rec := 1 } 0 insert_rec
  else
    let first ← getRec el 0
    if el.l_next_free_rec = 1 ∧ isEmptyExtent first then setRec el 0 insert_rec
    else if insert.ins_appending then
      let rec ← lastRec el
      if insert_rec.e_cpos < recEnd 0 rec then none
      else setRec { el with l_next_free_rec := el.l_next_free_rec + 1 } el.l_next_free_rec insert_rec
    else rotateLeaf el insert_rec

def adjustRightmostRecords (root : ExtentList) (path : Path) (insert_rec : ExtentRec) :
    Except Errcode (ExtentList × Path) := do
  let update (el : ExtentList) : Except Errcode ExtentList :=
    match lastRec el with
    | none => .error .corruptExtentBlock
    | some rec =>
      let range := add32 insert_rec.e_cpos insert_rec.e_leaf_clusters
      match setRec el (el.l_next_free_rec - 1) { rec with e_int_clusters := sub32 range rec.e_cpos } with
      | none => .error .undefined
      | some el => .ok el
  let root ← update root
  let interior ← path.dropLast.mapM fun eb => (update eb.h_list).map fun el => { eb with h_list := el }
  return (root, interior ++ path.drop (path.length - 1))

def appendRecToPath (insert_rec : ExtentRec) (right : Path) : Ext (Path × Option Path) := do
  assert (right ≠ [])
  let el ← currentLeaf right
  let first ← require (getRec el 0)
  let left ←
    if el.l_next_free_rec = 0 ∨ (el.l_next_free_rec = 1 ∧ isEmptyExtent first) then do
      let left_cpos ← findCposForLeftLeaf right
      if left_cpos ≠ 0 then do
        newPath
        let left ← findPath left_cpos
        pure (some left)
      else pure none
    else pure none
  let (root, right) ← reraise (adjustRightmostRecords (← get).di.i_list right insert_rec)
  setList root
  return (right, left)

def splitRecord (left_el : Option ExtentList) (right_el : ExtentList) (split_rec : ExtentRec) (split : SplitType) :
    Option (Option ExtentList × ExtentList) := do
  match searchExtentList right_el split_rec.e_cpos with
  | some index =>
    match index, left_el with
    | 0, some left_el => do
      let rec ← getRec right_el 0
      if isEmptyExtent rec then none
      else if split = .left then
        let right_el ← setRec right_el 0 (subtractFromRec fs split rec split_rec)
        let left_el ← rotateLeaf left_el split_rec
        some (some left_el, right_el)
      else
        let left_el ← rotateLeaf left_el rec
        let right_el ← setRec right_el 0 zeroRec
        let i ← searchExtentList left_el split_rec.e_cpos
        let rec ← getRec left_el i
        let left_el ← setRec left_el i (subtractFromRec fs split rec split_rec)
        let right_el ← rotateLeaf right_el split_rec
        some (some left_el, right_el)
    | index, left_el => do
      let rec ← getRec right_el index
      let right_el ← setRec right_el index (subtractFromRec fs split rec split_rec)
      let right_el ← rotateLeaf right_el split_rec
      some (left_el, right_el)
  | none => do
    let left_el ← left_el
    let first ← getRec left_el 0
    if isEmptyExtent first then
      let i ← searchExtentList left_el split_rec.e_cpos
      let rec ← getRec left_el i
      let left_el ← setRec left_el i (subtractFromRec fs split rec split_rec)
      let left_el ← rotateLeaf left_el split_rec
      some (some left_el, right_el)
    else none

def insertPath (left : Option Path) (right : Path) (insert_rec : ExtentRec) (insert : InsertType) : Ext Unit := do
  let root := (← get).di.i_list
  let (left_el, right_el) ← require
    (if insert.ins_split ≠ .none then
      splitRecord fs (left.map (leafEl root)) (leafEl root right) insert_rec insert.ins_split
    else (insertAtLeaf fs insert_rec (leafEl root right) insert).map fun el => (left.map (leafEl root), el))
  let right := setLeafEl right right_el
  match left, left_el with
  | some left, some left_el => do
    let left := setLeafEl left left_el
    let subtree_index ← require (findSubtreeRoot left right)
    let (left, right) ← edgeInsert left right subtree_index
    syncPathToDisk (some left) (some right) subtree_index
  | _, _ => syncPathToDisk none (some right) 0

def uintMax : Nat := 2 ^ 32 - 1

def addClusters (clusters : Nat) : Ext Unit :=
  modify fun v => { v with di := { v.di with i_clusters := add32 v.di.i_clusters clusters } }

def doInsertExtent (insert_rec : ExtentRec) (type : InsertType) : Ext Unit := do
  let root := (← get).di.i_list
  if root.l_tree_depth = 0 then
    let el ← require (insertAtLeaf fs insert_rec root type)
    setList el
    if type.ins_split = .none then addClusters insert_rec.e_leaf_clusters else return ()
  else
    newPath
    let rotate : Bool := ¬ type.ins_appending ∧ type.ins_contig = .none
    let right ← findPath (if rotate then uintMax else insert_rec.e_cpos)
    let (right, left) ←
      if rotate then rotateTreeRight type.ins_split insert_rec.e_cpos right
      else if type.ins_appending ∧ type.ins_contig ≠ .left then appendRecToPath insert_rec right
      else pure (right, none)
    insertPath fs left right insert_rec type
    if type.ins_split = .none then addClusters insert_rec.e_leaf_clusters else return ()

def emptyList (el : ExtentList) : ExtentList :=
  { el with l_next_free_rec := 0, l_recs := List.replicate el.l_recs.length zeroRec }

def deleteChildren (new_el : ExtentList) : Ext Unit :=
  deleteAll ((new_el.l_recs.map ExtentRec.e_blkno).filter (· ≠ 0))

structure DuplicateCtxt where
  next_leaf_blk : Nat

section

variable (below : ExtentList → DuplicateCtxt → Ext (ExtentList × DuplicateCtxt))

def duplicateChild (rec : ExtentRec) (ctxt : DuplicateCtxt) : Ext (Nat × DuplicateCtxt) := do
  let eb ← readExtentBlock rec.e_blkno
  if eb.h_list.l_tree_depth ≠ 0 then
    let (child_el, ctxt) ← below eb.h_list ctxt
    let new_blkno ← newExtentBlock fs
    writeExtentBlock new_blkno { eb with h_blkno := new_blkno, h_list := child_el }
    return (new_blkno, ctxt)
  else
    let new_blkno ← newExtentBlock fs
    writeExtentBlock new_blkno { eb with h_blkno := new_blkno, h_next_leaf_blk := ctxt.next_leaf_blk }
    return (new_blkno, ⟨new_blkno⟩)

def replaceLastEb (blkno new_blkno : Nat) : Ext Unit :=
  modify fun v =>
    if v.di.i_last_eb_blk = blkno then { v with di := { v.di with i_last_eb_blk := new_blkno } } else v

def duplicateChildren (tree_depth : Nat) : List (ExtentRec × Nat) → ExtentList → DuplicateCtxt →
    Ext (ExtentList × DuplicateCtxt)
  | [], new_el, ctxt => return (new_el, ctxt)
  | (rec, i) :: rest, new_el, ctxt => do
    if recClusters tree_depth rec = 0 then duplicateChildren tree_depth rest new_el ctxt
    else
      match ← attempt (duplicateChild fs below rec ctxt) with
      | .error e => do
        deleteChildren new_el
        throw e
      | .ok (new_blkno, ctxt) => do
        let new_el ← require (setRec new_el i { rec with e_blkno := new_blkno })
        replaceLastEb rec.e_blkno new_blkno
        duplicateChildren tree_depth rest new_el ctxt

end

def duplicateExtentBlock : Nat → ExtentList → DuplicateCtxt → Ext (ExtentList × DuplicateCtxt)
  | 0, _, _ => stuck
  | depth + 1, old_el, ctxt => do
    assert (old_el.l_tree_depth ≠ 0)
    check (old_el.l_next_free_rec ≠ 0) .corruptExtentBlock
    malloc
    malloc
    let indexed := (old_el.l_recs.take old_el.l_next_free_rec).zipIdx.reverse
    let (new_el, ctxt) ←
      duplicateChildren fs (duplicateExtentBlock depth) old_el.l_tree_depth indexed (emptyList old_el) ctxt
    return ({ new_el with l_next_free_rec := old_el.l_next_free_rec }, ctxt)

def duplicateDinode : Ext (Option Dinode) := do
  let di := (← get).di
  if di.i_list.l_tree_depth = 0 then return none
  else
    malloc
    match ← attempt (duplicateExtentBlock fs di.i_list.l_tree_depth di.i_list ⟨0⟩) with
    | .ok (el, _) => do
      setList el
      return some di
    | .error _ => do
      modify fun v => { v with di }
      return none

def freeDuplicated : Nat → ExtentList → Ext Unit
  | 0, _ => stuck
  | depth + 1, el => do
    assert (el.l_tree_depth ≠ 0)
    match ← attempt malloc with
    | .error _ => return ()
    | .ok () =>
      (el.l_recs.take el.l_next_free_rec).forM fun rec => do
        if recClusters el.l_tree_depth rec = 0 then return ()
        else
          match ← attempt (readExtentBlock rec.e_blkno) with
          | .error _ => return ()
          | .ok eb => do
            if eb.h_list.l_tree_depth ≠ 0 then freeDuplicated depth eb.h_list else pure ()
            deleteAll [rec.e_blkno]

def finishDuplicate (backup : Option Dinode) (work : Ext Unit) : Ext Unit := do
  let ret ← attempt work
  match backup, ret with
  | none, _ => reraise ret
  | some old, .ok () => freeDuplicated old.i_list.l_tree_depth old.i_list
  | some _, .error e => do
    let el := (← get).di.i_list
    freeDuplicated el.l_tree_depth el
    throw e

def insertExtentWork (insert_rec : ExtentRec) : Ext Unit := do
  let (insert, free_records, last_eb) ← figureInsertType fs insert_rec
  if insert.ins_contig = .none ∧ ¬ free_records then
    -- the leaf of an inode without blocks is not looked at
    let _ ← growTree fs (last_eb.getD ⟨0, 0, (← get).di.i_list⟩)
    doInsertExtent fs insert_rec insert
  else doInsertExtent fs insert_rec insert

def cachedInodeInsertExtent (cpos c_blkno clusters flag : Nat) : Ext Unit := do
  let backup ← duplicateDinode fs
  malloc
  finishDuplicate backup (insertExtentWork fs (leafRec cpos c_blkno clusters flag))

def makeRightSplitRec (cpos : Nat) (rec : ExtentRec) : ExtentRec :=
  leafRec cpos (add64 rec.e_blkno (clustersToBlocks fs (sub32 cpos rec.e_cpos)))
    (sub32 (recEnd 0 rec) cpos) rec.e_flags

def growIfFull (last_eb : Option ExtentBlock) : Ext (Option ExtentBlock) := do
  let el := (last_eb.map ExtentBlock.h_list).getD (← get).di.i_list
  if el.l_next_free_rec = el.l_count then
    let eb ← growTree fs (last_eb.getD ⟨0, 0, el⟩)
    return some eb
  else return last_eb

def splitInsertType (split : SplitType) : InsertType := ⟨split, false, .none, 0⟩

def splitAndInsert (path : Path) (last_eb : Option ExtentBlock) (split_index : Nat) (split_rec : ExtentRec) :
    Ext Unit := do
  let rec ← require (getRec (← currentLeaf path) split_index)
  let last_eb ← growIfFull fs last_eb
  let insert_range := add32 split_rec.e_cpos split_rec.e_leaf_clusters
  if split_rec.e_cpos = rec.e_cpos then doInsertExtent fs split_rec (splitInsertType .left)
  else if insert_range = recEnd 0 rec then doInsertExtent fs split_rec (splitInsertType .right)
  else
    doInsertExtent fs (makeRightSplitRec fs insert_range rec) (splitInsertType .right)
    let path ← findPath split_rec.e_cpos
    let el ← currentLeaf path
    let split_index ← require (searchExtentList el split_rec.e_cpos)
    let rec ← require (getRec el split_index)
    -- the second pass looks at the last leaf as it was before the first insert
    let _ ← growIfFull fs last_eb
    if split_rec.e_cpos = rec.e_cpos then doInsertExtent fs split_rec (splitInsertType .left)
    else
      assert (insert_range = recEnd 0 rec)
      doInsertExtent fs split_rec (splitInsertType .right)

def clearUnwritten (e_flags : Nat) : Nat := e_flags / 2 * 2

/-- The test of the flag is always false, so that a written record is not refused. -/
def markExtentWrittenAt (path : Path) (split_index : Nat) (split_rec : ExtentRec) : Ext Unit := do
  let el ← currentLeaf path
  let rec ← require (getRec el split_index)
  check (rec.e_cpos ≤ split_rec.e_cpos ∧ recEnd 0 split_rec ≤ recEnd 0 rec) .invalidArgument
  let contig ← require (figureMergeContigType fs el split_index split_rec)
  malloc
  let last_eb ←
    if path = [] then pure none
    else do
      let eb ← readExtentBlock (← get).di.i_last_eb_blk
      pure (some eb)
  let split_covers_rec : Bool :=
    rec.e_cpos = split_rec.e_cpos ∧ rec.e_leaf_clusters = split_rec.e_leaf_clusters
  let first ← require (getRec el 0)
  if contig = .none then
    if split_covers_rec then
      -- the block of the leaf is not written
      let el ← require (setRec el split_index split_rec)
      let _ ← setLeaf path el
      return ()
    else splitAndInsert fs path last_eb split_index split_rec
  else tryToMergeExtent fs path split_index split_rec ⟨contig, isEmptyExtent first, split_covers_rec⟩

def writeInode : Ext Unit := do
  fallible .io
  modify fun v => { v with inode := v.di }

def markExtentWork (cpos len p_blkno : Nat) : Ext Unit := do
  newPath
  let path ← findPath cpos
  let el ← currentLeaf path
  match searchExtentList el cpos with
  | none => throw .corruptExtentBlock
  | some index => do
    let rec ← require (getRec el index)
    markExtentWrittenAt fs path index (leafRec cpos p_blkno len (clearUnwritten rec.e_flags))
    writeInode

def markExtentWritten (cpos len p_blkno : Nat) : Ext Unit := do
  let backup ← duplicateDinode fs
  finishDuplicate backup (markExtentWork fs cpos len p_blkno)

end Ocfs2.ExtentTree
