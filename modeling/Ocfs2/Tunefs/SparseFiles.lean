import Ocfs2.Libocfs2.Sizes

set_option autoImplicit false

namespace Ocfs2.Tunefs.SparseFiles

inductive TunefsError where
  | lib (ret : Errcode)
  | unwrittenPresent
  deriving DecidableEq

structure Run where
  p_cluster : Nat
  num_clusters : Nat
  unwritten : Bool

structure Dinode where
  i_blkno : Nat
  i_size : Nat
  isReg : Bool
  system : Bool
  inlineData : Bool
  read : Except TunefsError Unit
  getClusters : Nat → Except TunefsError Run
  getLastClusterOffset : Except TunefsError Nat

structure Hole where
  start : Nat
  len : Nat
  deriving DecidableEq

structure SparseFile where
  blkno : Nat
  holes : List Hole
  holes_num : Nat
  hole_clusters : Nat
  truncate : Bool
  deriving DecidableEq

structure FillHoleContext where
  more_clusters : Nat
  more_ebs : Nat
  files : List SparseFile
  holecount : Nat
  deriving DecidableEq

def addHole (file : SparseFile) (start len : Nat) : SparseFile :=
  { file with
    holes := file.holes ++ [⟨start, len⟩]
    hole_clusters := (file.hole_clusters + len) % 2 ^ 32
    holes_num := (file.holes_num + 1) % 2 ^ 32 }

def findHoles (di : Dinode) (clusters : Nat) : Nat → Nat → SparseFile → Except TunefsError SparseFile
  | 0, _, _ => .error (.lib .undefined)
  | fuel + 1, v_cluster, file => do
    if clusters ≤ v_cluster then return file
    let run ← di.getClusters v_cluster
    -- a hole behind the last extent goes up to the last offset, and is cut at the size of the file
    let tail := run.p_cluster = 0 ∧ (v_cluster + run.num_clusters) % 2 ^ 32 = uint32Max
    let num_clusters := if tail then clusters - v_cluster else run.num_clusters
    let file := if run.p_cluster = 0 then addHole file v_cluster num_clusters else file
    if run.unwritten then throw .unwrittenPresent
    findHoles di clusters fuel ((v_cluster + num_clusters) % 2 ^ 32) file

variable (fs : Sizes) (fuel : Nat)

def sizeInClusters (di : Dinode) : Nat := (di.i_size + fs.fs_clustersize - 1) % 2 ^ 64 / fs.fs_clustersize % 2 ^ 32

def findHolesInFile (di : Dinode) (file : SparseFile) : Except TunefsError SparseFile := do
  di.read
  let file ← findHoles di (sizeInClusters fs di) fuel 0 file
  let last ← di.getLastClusterOffset
  return { file with truncate := decide (sizeInClusters fs di ≤ last) }

def extentRecsPerEb : Nat := (fs.fs_blocksize - 64) / 16

def ebClusters (file : SparseFile) : Nat :=
  fs.clustersInBlocks ((file.holes_num + extentRecsPerEb fs - 1) % 2 ^ 32 / extentRecsPerEb fs)

def holeIterate (ctxt : FillHoleContext) (di : Dinode) : Except TunefsError FillHoleContext := do
  if !di.isReg || di.system || di.inlineData then return ctxt
  let file ← findHolesInFile fs fuel di ⟨di.i_blkno, [], 0, 0, false⟩
  if file.holes = [] ∧ !file.truncate then return ctxt
  return {
    more_ebs := (ctxt.more_ebs + ebClusters fs file) % 2 ^ 32
    files := ctxt.files ++ [file]
    holecount := ctxt.holecount + file.holes_num
    more_clusters := (ctxt.more_clusters + file.hole_clusters) % 2 ^ 32 }

structure Bitmap1 where
  i_total : Nat
  i_used : Nat
  used_le : i_used ≤ i_total
  total_lt : i_total < 2 ^ 32

def Bitmap1.free (bitmap : Bitmap1) : Nat := bitmap.i_total - bitmap.i_used

def foreachInode (ctxt : FillHoleContext) (scan : List (Except TunefsError Dinode)) :
    Except TunefsError FillHoleContext :=
  scan.foldlM (fun ctxt got => got >>= holeIterate fs fuel ctxt) ctxt

def findSparseFiles (scan : List (Except TunefsError Dinode)) (bitmap : Except TunefsError Bitmap1) :
    Except TunefsError FillHoleContext := do
  let ctxt ← foreachInode fs fuel ⟨0, 0, [], 0⟩ scan
  let bitmap ← bitmap
  if bitmap.free < (ctxt.more_clusters + ctxt.more_ebs) % 2 ^ 32 then throw (.lib .noSpace)
  return ctxt

def SparseFile.clusters (file : SparseFile) : Nat := (file.holes.map Hole.len).sum

def need (ctxt : FillHoleContext) : Nat := (ctxt.files.map fun file => file.clusters + ebClusters fs file).sum

def SparseFile.Counted (file : SparseFile) : Prop := file.hole_clusters = file.clusters % 2 ^ 32

variable {fs fuel}

theorem addHole_counted {file : SparseFile} (counted : file.Counted) (start len : Nat) :
    (addHole file start len).Counted := by
  simp only [SparseFile.Counted, SparseFile.clusters] at counted
  simp [SparseFile.Counted, SparseFile.clusters, addHole, counted]

theorem findHoles_counted {di : Dinode} {clusters v_cluster : Nat} {file file' : SparseFile}
    (run : findHoles di clusters fuel v_cluster file = .ok file') (counted : file.Counted) : file'.Counted := by
  induction fuel generalizing v_cluster file with
  | zero => cases run
  | succ fuel ih =>
    simp only [findHoles, bind, Except.bind] at run
    split at run
    next =>
      cases run
      exact counted
    next =>
      split at run
      next => cases run
      next found =>
        split at run
        next => cases run
        next =>
          refine ih run ?_
          split
          · exact addHole_counted counted _ _
          · exact counted

def FillHoleContext.Counted (ctxt : FillHoleContext) (fs : Sizes) : Prop :=
  (ctxt.more_clusters + ctxt.more_ebs) % 2 ^ 32 = need fs ctxt % 2 ^ 32

theorem findHolesInFile_counted {di : Dinode} {file file' : SparseFile}
    (run : findHolesInFile fs fuel di file = .ok file') (counted : file.Counted) : file'.Counted := by
  simp only [findHolesInFile, bind, Except.bind] at run
  split at run
  next => cases run
  next =>
    split at run
    next => cases run
    next found =>
      have holes := findHoles_counted found counted
      split at run <;> cases run
      exact holes

theorem holeIterate_counted {ctxt ctxt' : FillHoleContext} {di : Dinode} (run : holeIterate fs fuel ctxt di = .ok ctxt')
    (counted : ctxt.Counted fs) : ctxt'.Counted fs := by
  simp only [holeIterate, bind, Except.bind] at run
  split at run
  next =>
    cases run
    exact counted
  next =>
    split at run
    next => cases run
    next file found =>
      have holes : file.Counted := findHolesInFile_counted found rfl
      split at run <;> cases run
      · exact counted
      · simp only [FillHoleContext.Counted, need, SparseFile.Counted] at counted holes
        simp only [FillHoleContext.Counted, need, List.map_append, List.sum_append, List.map_singleton,
          List.sum_singleton]
        omega

theorem foreachInode_counted {ctxt ctxt' : FillHoleContext} {scan : List (Except TunefsError Dinode)}
    (run : foreachInode fs fuel ctxt scan = .ok ctxt') (counted : ctxt.Counted fs) : ctxt'.Counted fs := by
  induction scan generalizing ctxt with
  | nil =>
    cases run
    exact counted
  | cons got rest ih =>
    simp only [foreachInode, List.foldlM_cons, bind, Except.bind] at run
    split at run
    next => cases run
    next later =>
      split at later
      next => cases later
      next => exact ih run (holeIterate_counted later counted)

section Volumes

def emptyFile (blkno size : Nat) : Dinode where
  i_blkno := blkno
  i_size := size
  isReg := true
  system := false
  inlineData := false
  read := .ok ()
  getClusters v := .ok ⟨0, uint32Max - v, false⟩
  getLastClusterOffset := .ok 0

def oneHole (blkno clusters : Nat) : SparseFile := ⟨blkno, [⟨0, clusters⟩], 1, clusters, false⟩

end Volumes

end Ocfs2.Tunefs.SparseFiles
