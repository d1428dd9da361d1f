import Ocfs2.Fsck.Pass1Extent

set_option autoImplicit false

/-!
The owners of the clusters that are claimed more than once are found, and their inodes are cloned or deleted. An
inode has the data extents of its tree as a list, in the order of the walk. Extended attributes and the names that
pass 1c finds are left out. The allocators are functions of the environment.
-/

namespace Ocfs2.Pass1b

open Extents Program
open Pass1 (FileType)

structure Extent where
  e_blkno : Nat
  e_clusters : Nat
  deriving DecidableEq

structure Inode where
  i_fs_generation : Nat
  i_valid : Bool
  i_no_list : Bool
  i_chain : Bool
  i_system : Bool
  i_mode : FileType
  i_size : Nat
  i_clusters : Nat
  i_list : List Extent
  i_groups : List Nat
  cl_cpg : Nat
  deriving DecidableEq

inductive Problem where
  | dupClustersSysfileClone
  | dupClustersClone
  | dupClustersDelete
  deriving DecidableEq

structure DupInode where
  di_chain : Bool
  di_system : Bool
  di_cloned : Bool
  di_removed : Bool
  deriving DecidableEq

structure DupCluster where
  dc_cluster : Nat
  dc_owners : List Nat
  deriving DecidableEq

structure DupState where
  inodes : Nat → Option Inode
  bitmap : Nat → Bool
  duplicate_clusters : Nat → Bool
  dup_clusters : List DupCluster
  dup_inodes : Nat → Option DupInode

structure Env where
  fs : Geometry
  fs_generation : Nat
  global_bitmap_blkno : Nat
  unwritten_extents : Bool
  prompt : Problem → Nat → Bool
  new_inode : DupState → Option (Nat × (Nat → Bool))
  new_clusters : (Nat → Bool) → Nat → Option (Nat × Nat)
  insert_extent : (Nat → Bool) → Extent → Bool × (Nat → Bool)
  copy_clone : DupState → Nat → Nat → Bool × (Nat → Bool)

abbrev Dups := Prog DupState

variable (env : Env)

def Extent.clusters (e : Extent) : List Nat := List.range' (env.fs.blocksToClusters e.e_blkno) e.e_clusters

section Pass1b

def insertOwner (cluster ino : Nat) : List DupCluster → List DupCluster
  | [] => [⟨cluster, [ino]⟩]
  | dc :: rest =>
    if cluster < dc.dc_cluster then ⟨cluster, [ino]⟩ :: dc :: rest
    else if cluster > dc.dc_cluster then dc :: insertOwner cluster ino rest
    else { dc with dc_owners := if ino ∈ dc.dc_owners then dc.dc_owners else dc.dc_owners ++ [ino] } :: rest

def dupInsert (cluster ino : Nat) (di : Inode) (s : DupState) : DupState :=
  { s with
    dup_clusters := insertOwner cluster ino s.dup_clusters
    dup_inodes :=
      if (s.dup_inodes ino).isSome then s.dup_inodes
      else Function.update s.dup_inodes ino (some ⟨di.i_chain, di.i_system, false, false⟩) }

def processDupCluster (ino : Nat) (di : Inode) (cluster : Nat) : Dups PUnit :=
  if cluster ≥ env.fs.fs_clusters then failure
  else modify fun s => if s.duplicate_clusters cluster then dupInsert cluster ino di s else s

def claimedClusters (ino : Nat) (di : Inode) : List Nat :=
  if di.i_no_list || (di.i_mode = .lnk ∧ di.i_clusters = 0) then []
  else if di.i_chain then
    di.i_groups.flatMap fun gd_blkno =>
      List.range' (env.fs.blocksToClusters gd_blkno) (if ino = env.global_bitmap_blkno then 1 else di.cl_cpg)
  else di.i_list.flatMap (Extent.clusters env)

def pass1bProcessInode (ino : Nat) (di : Inode) : Dups PUnit :=
  (claimedClusters env ino di).forM (processDupCluster env ino di)

def considered (di : Inode) : Bool := di.i_fs_generation = env.fs_generation ∧ di.i_valid

def o2fsckPass1b (inodes : List Nat) : Dups PUnit :=
  inodes.forM fun ino => do
    let s ← get
    match s.inodes ino with
    | some di => if considered env di then pass1bProcessInode env ino di else pure ()
    | none => pure ()

end Pass1b

section Pass1d

def countUnhandled (s : DupState) : List Nat → Option Nat
  | [] => some 0
  | ino :: rest =>
    match s.dup_inodes ino, countUnhandled s rest with
    | some di, some count => some (if di.di_cloned || di.di_removed then count else count + 1)
    | _, _ => none

/-- The owner that is worked on is not handled yet, so that a count of zero is a failed assertion. -/
def canFree (cluster : Nat) : Dups Bool := do
  let s ← get
  match s.dup_clusters.find? (·.dc_cluster = cluster) with
  | none => failure
  | some dc =>
    match countUnhandled s dc.dc_owners with
    | none => failure
    | some 0 => failure
    | some unhandled => return unhandled = 1

def freeCluster (cluster : Nat) : Dups PUnit :=
  modify fun s => { s with bitmap := Function.update s.bitmap cluster false }

def pass1dFreeCluster (cluster : Nat) : Dups PUnit := do
  let s ← get
  if cluster ≥ env.fs.fs_clusters then failure
  else if s.duplicate_clusters cluster then
    if ← canFree cluster then freeCluster cluster else pure ()
  else freeCluster cluster

def pass1dFreeClusters (e : Extent) : Dups PUnit :=
  if e.e_blkno = 0 then pure () else (e.clusters env).forM (pass1dFreeCluster env)

def setInode (ino : Nat) (di : Inode) : Dups PUnit :=
  modify fun s => { s with inodes := Function.update s.inodes ino (some di) }

def setBitmap (bitmap : Nat → Bool) : Dups PUnit := modify fun s => { s with bitmap }

def deleteOneInode (ino : Nat) : Dups PUnit := do
  let s ← get
  match s.inodes ino with
  | none => failure
  | some di =>
    if di.i_size = 0 then setInode ino { di with i_valid := false }
    else
      di.i_list.forM (pass1dFreeClusters env)
      setInode ino { di with i_list := [], i_size := 0, i_clusters := 0, i_valid := false }

inductive Allocated where
  | complete
  | noClusters
  | noRecord
  deriving DecidableEq

def extendAllocation : Nat → Nat → List Extent → Dups (List Extent × Allocated)
  | 0, _, list => return (list, .noClusters)
  | fuel + 1, wanted, list => do
    if wanted = 0 then return (list, .complete)
    let s ← get
    match env.new_clusters s.bitmap wanted with
    | none => return (list, .noClusters)
    | some (start, found) =>
      let e : Extent := ⟨env.fs.clustersToBlocks start, found⟩
      setBitmap fun c => s.bitmap c || (start ≤ c && c < start + found)
      let taken ← get
      let (ok, bitmap) := env.insert_extent taken.bitmap e
      if ok then
        setBitmap bitmap
        extendAllocation fuel (wanted - found) (list ++ [e])
      else
        setBitmap fun c => bitmap c && !(start ≤ c && c < start + found)
        return (list, .noRecord)

def emptyInode (orig : Inode) (generation : Nat) : Inode where
  i_fs_generation := generation
  i_valid := true
  i_no_list := false
  i_chain := false
  i_system := false
  i_mode := orig.i_mode
  i_size := 0
  i_clusters := 0
  i_list := []
  i_groups := []
  cl_cpg := 0

/-- The clusters that the clone gets, and whether that succeeds. Unwritten extents are for regular files only. That
there are no clusters for them is an error that is lost, and a size of zero wraps. -/
def cloneExtents (orig : Inode) : Dups (List Extent × Bool) := do
  let fs := env.fs
  if env.unwritten_extents && !orig.i_system then
    if orig.i_mode ≠ .reg then return ([], false)
    let blocks := (orig.i_size + 2 ^ 64 - 1) % 2 ^ 64 / fs.fs_blocksize + 1
    let wanted := fs.clustersInBlocks blocks
    let (list, allocated) ← extendAllocation env (wanted + 1) wanted []
    return (list, allocated ≠ .noRecord)
  else
    let wanted := (orig.i_size + fs.fs_clustersize - 1) / fs.fs_clustersize
    let (list, allocated) ← extendAllocation env (wanted + 1) wanted []
    -- the file is extended to the size, which must be a larger one
    return (list, allocated = .complete ∧ orig.i_size ≠ 0)

def newClone (orig : Inode) : Dups (Option Nat) := do
  let s ← get
  match env.new_inode s with
  | none => return none
  | some (clone, bitmap) =>
    setBitmap bitmap
    let di := emptyInode orig env.fs_generation
    setInode clone di
    let (list, ok) ← cloneExtents env orig
    let di := { di with i_list := list, i_clusters := (list.map Extent.e_clusters).sum }
    if ok then
      setInode clone { di with i_size := orig.i_size }
      return some clone
    else
      setInode clone { di with i_valid := false }
      return none

def swapClone (ino clone : Nat) : Dups PUnit :=
  modify fun s =>
    match s.inodes ino, s.inodes clone with
    | some di, some cl =>
      { s with
        inodes := Function.update (Function.update s.inodes clone (some { cl with i_list := di.i_list })) ino
          (some { di with i_list := cl.i_list }) }
    | _, _ => s

def cloneOneInode (ino : Nat) : Dups Bool := do
  let s ← get
  match s.inodes ino with
  | none => return false
  | some orig =>
    match ← newClone env orig with
    | none => return false
    | some clone =>
      let s ← get
      let (ok, bitmap) := env.copy_clone s ino clone
      setBitmap bitmap
      if ok then
        swapClone ino clone
        deleteOneInode env clone
        return true
      else
        deleteOneInode env clone
        return false

def setState (ino : Nat) (f : DupInode → DupInode) : Dups PUnit :=
  modify fun s => { s with dup_inodes := Function.update s.dup_inodes ino ((s.dup_inodes ino).map f) }

def fixDupsFunc (ino : Nat) : Dups Bool := do
  let s ← get
  match s.dup_inodes ino with
  | none => failure
  | some di =>
    if di.di_chain then return true
    else if env.prompt (if di.di_system then .dupClustersSysfileClone else .dupClustersClone) ino then
      if ← cloneOneInode env ino then
        setState ino fun di => { di with di_cloned := true }
        return true
      else return false
    else if !di.di_system && env.prompt .dupClustersDelete ino then
      deleteOneInode env ino
      setState ino fun di => { di with di_removed := true }
      return true
    else return true

def forEachOwner : List Nat → Dups PUnit
  | [] => pure ()
  | ino :: rest => do
    if ← fixDupsFunc env ino then forEachOwner rest else pure ()

def o2fsckPass1d (dup_clusters : List DupCluster) : Dups PUnit :=
  dup_clusters.forM fun dc => do
    let s ← get
    match countUnhandled s dc.dc_owners with
    | none => failure
    | some dups => if dups < 2 then pure () else forEachOwner env dc.dc_owners

end Pass1d

def ocfs2Pass1Dups (inodes : List Nat) : Dups PUnit := do
  o2fsckPass1b env inodes
  let s ← get
  o2fsckPass1d env s.dup_clusters

end Ocfs2.Pass1b
