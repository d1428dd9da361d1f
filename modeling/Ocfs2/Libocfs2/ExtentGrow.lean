import Ocfs2.Libocfs2.ExtentTree

set_option autoImplicit false

namespace Ocfs2.ExtentTree

open Extents (ExtentRec ExtentList recClusters setRecClusters)
open Effect

variable (fs : Geometry)

def chainAlloc : Ext Nat := do
  fallible .io
  match (← get).free with
  | [] => throw .bitNotFound
  | blkno :: free => do
    modify fun v => { v with free }
    return blkno

def initEb (blkno : Nat) : ExtentBlock :=
  ⟨blkno, 0, ⟨0, fs.extent_recs_per_eb, 0, List.replicate fs.extent_recs_per_eb zeroRec⟩⟩

def newExtentBlock : Ext Nat := do
  malloc
  let blkno ← chainAlloc
  writeExtentBlock blkno (initEb fs blkno)
  return blkno

def deleteExtentBlock (blkno : Nat) : Ext Unit := do
  malloc
  let eb ← readExtentBlock blkno
  fallible .io
  modify fun v => { v with free := blkno :: v.free }
  writeExtentBlock eb.h_blkno eb

def deleteAll (blknos : List Nat) : Ext Unit :=
  blknos.forM fun blkno => do
    let _ ← attempt (deleteExtentBlock blkno)
    return ()

def orDelete {α : Type} (blknos : List Nat) (step : Ext α) : Ext α := do
  match ← attempt step with
  | .ok a => return a
  | .error e => do
    deleteAll blknos
    throw e

def allocBranch : Nat → List Nat → Ext (List ExtentBlock)
  | 0, _ => return []
  | n + 1, blknos => do
    malloc
    orDelete blknos malloc
    let blkno ← orDelete blknos chainAlloc
    let eb ← orDelete (blknos ++ [blkno]) do
      writeExtentBlock blkno (initEb fs blkno)
      readExtentBlock blkno
    let ebs ← allocBranch n (blknos ++ [blkno])
    return eb :: ebs

def branchBlocks (new_cpos : Nat) : Nat → Nat → List ExtentBlock → List ExtentBlock
  | _, _, [] => []
  | i, next_blkno, eb :: ebs =>
    let l_recs := ⟨new_cpos, 0, next_blkno⟩ :: List.replicate (eb.h_list.l_count - 1) zeroRec
    { eb with
      h_next_leaf_blk := 0
      h_list := ⟨i, eb.h_list.l_count, 1, l_recs⟩ } :: branchBlocks new_cpos (i + 1) eb.h_blkno ebs

def linkBranch (el : ExtentList) (new_cpos next_blkno : Nat) : Option ExtentList :=
  if el.l_count ≤ el.l_next_free_rec then none
  else setRec { el with l_next_free_rec := el.l_next_free_rec + 1 } el.l_next_free_rec ⟨new_cpos, 0, next_blkno⟩

def addBranch (eb_buf : Option ExtentBlock) (last_eb : ExtentBlock) : Ext ExtentBlock := do
  let el := (eb_buf.map ExtentBlock.h_list).getD (← get).di.i_list
  assert (el.l_tree_depth ≠ 0)
  malloc
  malloc
  let ebs ← allocBranch fs el.l_tree_depth []
  let blknos := ebs.map ExtentBlock.h_blkno
  let new_cpos ← require (sumRightmostRec last_eb.h_list)
  let ebs := branchBlocks new_cpos 0 0 ebs
  let leaf ← require ebs.head?
  let top ← require ebs.getLast?
  let el ← require (linkBranch el new_cpos top.h_blkno)
  match eb_buf with
  | none => setList el
  | some _ => pure ()
  setLastEb leaf.h_blkno
  orDelete blknos do
    ebs.forM fun eb => writeExtentBlock eb.h_blkno eb
    writeExtentBlock last_eb.h_blkno { last_eb with h_next_leaf_blk := leaf.h_blkno }
    match eb_buf with
    | none => return ()
    | some eb => writeExtentBlock eb.h_blkno { eb with h_list := el }
  return leaf

inductive BranchTarget
  | block (eb : ExtentBlock)
  | inode
  | shift
  deriving DecidableEq

def findBranchLoop : Nat → ExtentList → Option ExtentBlock → Bool → Ext (Option ExtentBlock × Bool)
  | 0, _, _, _ => stuck
  | depth + 1, el, buf, lowest => do
    if el.l_tree_depth ≤ 1 then return (buf, lowest)
    else
      check (el.l_next_free_rec ≠ 0) .corruptExtentBlock
      let rec ← require (getRec el (el.l_next_free_rec - 1))
      check (rec.e_blkno ≠ 0) .corruptExtentBlock
      let eb ← readExtentBlock rec.e_blkno
      findBranchLoop depth eb.h_list (some eb) (lowest || eb.h_list.l_next_free_rec < eb.h_list.l_count)

def findBranchTarget : Ext BranchTarget := do
  let root := (← get).di.i_list
  malloc
  let (buf, lowest) ← findBranchLoop (root.l_tree_depth + 1) root none false
  match lowest, buf with
  | true, some eb => return .block eb
  | true, none => stuck
  | false, _ => if root.l_next_free_rec = root.l_count then return .shift else return .inode

def shiftTreeDepth : Ext ExtentBlock := do
  let el := (← get).di.i_list
  check (el.l_next_free_rec = el.l_count) .internalFailure
  malloc
  let blkno ← newExtentBlock fs
  let eb ← readExtentBlock blkno
  -- the records of the inode are fewer than those of a block
  let l_recs := el.l_recs ++ eb.h_list.l_recs.drop el.l_recs.length
  let eb := { eb with h_list := ⟨el.l_tree_depth, eb.h_list.l_count, el.l_next_free_rec, l_recs⟩ }
  let new_clusters ← require (sumRightmostRec eb.h_list)
  let l_recs := ⟨0, new_clusters, blkno⟩ :: List.replicate (el.l_recs.length - 1) zeroRec
  setList ⟨el.l_tree_depth + 1, el.l_count, 1, l_recs⟩
  if el.l_tree_depth = 0 then
    setLastEb blkno
    writeExtentBlock blkno eb
    return eb
  else
    writeExtentBlock blkno eb
    return eb

def growTree (last_eb : ExtentBlock) : Ext ExtentBlock := do
  match ← findBranchTarget with
  | .block eb => addBranch fs (some eb) last_eb
  | .inode => addBranch fs none last_eb
  | .shift => do
    let depth := (← get).di.i_list.l_tree_depth
    let eb ← shiftTreeDepth fs
    if depth = 0 then return eb else addBranch fs (some eb) last_eb

end Ocfs2.ExtentTree
