import Ocfs2.Libocfs2.Common

set_option autoImplicit false

/-!
The records of an extent list and the walk over the data extents of a tree. Blocks are decoded; `ebs` gives the
extent blocks of the volume.
-/

namespace Ocfs2.Extents

/-- In a leaf the word of the interior clusters holds the number of clusters and, in its last byte, the flags. -/
structure ExtentRec where
  e_cpos : Nat
  e_int_clusters : Nat
  e_blkno : Nat
  deriving DecidableEq

def ExtentRec.e_leaf_clusters (rec : ExtentRec) : Nat := rec.e_int_clusters % 2 ^ 16

def ExtentRec.e_flags (rec : ExtentRec) : Nat := rec.e_int_clusters / 2 ^ 24 % 2 ^ 8

structure ExtentList where
  l_tree_depth : Nat
  l_count : Nat
  l_next_free_rec : Nat
  l_recs : List ExtentRec
  deriving DecidableEq

structure ExtentBlock where
  h_blkno : Nat
  h_fs_generation : Nat
  h_list : ExtentList
  deriving DecidableEq

def recClusters (tree_depth : Nat) (rec : ExtentRec) : Nat :=
  if tree_depth ≠ 0 then rec.e_int_clusters else rec.e_leaf_clusters

def setRecClusters (tree_depth : Nat) (rec : ExtentRec) (clusters : Nat) : ExtentRec :=
  if tree_depth ≠ 0 then { rec with e_int_clusters := clusters }
  else { rec with e_int_clusters := rec.e_int_clusters / 2 ^ 16 * 2 ^ 16 + clusters % 2 ^ 16 }

structure Geometry where
  fs_blocks : Nat
  fs_clusters : Nat
  fs_blocksize : Nat
  blocks_per_cluster : Nat

namespace Geometry

variable (fs : Geometry)

def blockOutOfRange (block : Nat) : Bool := block < 2 || block > fs.fs_blocks

def blocksToClusters (blocks : Nat) : Nat := min (blocks / fs.blocks_per_cluster) (2 ^ 32 - 1)

def clustersToBlocks (clusters : Nat) : Nat := clusters * fs.blocks_per_cluster

def clustersInBlocks (blocks : Nat) : Nat := fs.blocksToClusters (blocks + (fs.blocks_per_cluster - 1))

def blocksInBytes (bytes : Nat) : Nat := (bytes + fs.fs_blocksize - 1) / fs.fs_blocksize

def fs_clustersize : Nat := fs.fs_blocksize * fs.blocks_per_cluster

end Geometry

section Iterate

variable (fs : Geometry) (ebs : Nat → Option ExtentBlock)

def readExtentBlockNocheck (blkno : Nat) : Except Errcode ExtentBlock :=
  if fs.blockOutOfRange blkno then .error .badBlkno
  else
    match ebs blkno with
    | none => .error .badExtentBlockMagic
    | some eb => .ok eb

def readExtentBlock (blkno : Nat) : Except Errcode ExtentBlock :=
  match readExtentBlockNocheck fs ebs blkno with
  | .error e => .error e
  | .ok eb => if eb.h_list.l_next_free_rec > eb.h_list.l_count then .error .corruptExtentBlock else .ok eb

def usedRecs (el : ExtentList) : Except Errcode (List ExtentRec) :=
  if el.l_next_free_rec ≤ el.l_recs.length then .ok (el.l_recs.take el.l_next_free_rec) else .error .undefined

def extentIterateEl : Nat → ExtentList → Except Errcode (List ExtentRec)
  | 0, el => do
    let recs ← usedRecs el
    -- a sparse file may have an empty record in the first place
    match recs with
    | [] => return []
    | rec :: rest => return if rec.e_leaf_clusters = 0 then rest else rec :: rest
  | depth + 1, el => do
    let recs ← usedRecs el
    let found ← recs.mapM fun rec => do
      if rec.e_blkno = 0 then return []
      let eb ← readExtentBlock fs ebs rec.e_blkno
      if eb.h_list.l_tree_depth ≠ depth ∨ eb.h_blkno ≠ rec.e_blkno then throw .corruptExtentBlock
      extentIterateEl depth eb.h_list
    return found.flatten

def recBlocks (rec : ExtentRec) : List (Nat × Nat) :=
  (List.range (fs.clustersToBlocks rec.e_leaf_clusters)).map fun i =>
    (rec.e_blkno + i, fs.clustersToBlocks rec.e_cpos + i)

end Iterate

end Ocfs2.Extents
