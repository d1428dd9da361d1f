import Ocfs2.Libocfs2.Extents
import Ocfs2.Shared.ByteBuffer
import Ocfs2.Shared.Program

set_option autoImplicit false

/-!
The state of the check, the prompts, and the check of an extent list, which marks the clusters of data extents.
The `n`-th prompt is answered by `answer n`. Reads and writes of blocks succeed. A program that is aborted, that
reads memory it does not own or that does not end has no result.
-/

namespace Ocfs2.Pass1

open ByteBuffer Extents Program

inductive FileType where
  | dir
  | reg
  | lnk
  | chr
  | blk
  | fifo
  | sock
  | other
  deriving DecidableEq

structure Flags where
  valid : Bool
  super_block : Bool
  local_alloc : Bool
  bitmap : Bool
  chain : Bool
  dealloc : Bool
  deriving DecidableEq

structure LocalAlloc where
  la_bm_off : Nat
  la_size : Nat
  la_bitmap : Buffer
  deriving DecidableEq

structure TruncateRec where
  t_start : Nat
  t_clusters : Nat
  deriving DecidableEq

structure TruncateLog where
  tl_count : Nat
  tl_used : Nat
  tl_recs : List TruncateRec
  deriving DecidableEq

structure Dinode where
  i_blkno : Nat
  i_fs_generation : Nat
  i_flags : Flags
  i_mode : FileType
  i_inline_data : Bool
  i_inline_xattr : Bool
  i_xattr_inline_size : Nat
  i_size : Nat
  i_clusters : Nat
  i_dtime : Nat
  i_links_count : Nat
  i_total : Nat
  i_used : Nat
  i_list : ExtentList
  i_lab : LocalAlloc
  i_dealloc : TruncateLog
  id_count : Nat
  i_symlink : Buffer
  deriving DecidableEq

inductive Block where
  | dinode (di : Dinode)
  | extentBlock (eb : ExtentBlock)
  | data (bytes : Buffer)
  deriving DecidableEq

abbrev Disk := Nat → Block

def extentBlocks (disk : Disk) (blkno : Nat) : Option ExtentBlock :=
  match disk blkno with
  | .extentBlock eb => some eb
  | _ => none

structure Filesys extends Geometry where
  fs_root_blkno : Nat
  sparse_alloc : Bool
  unwritten_extents : Bool
  inline_data : Bool
  extent_recs_per_inode : Nat
  extent_recs_per_eb : Nat
  local_alloc_size : Nat
  truncate_recs_per_inode : Nat
  max_inline_data : Nat
  symlink_max : Nat

structure Setup where
  fs : Filesys
  fs_generation : Nat
  fix_fs_gen : Bool
  now : Nat
  stack_depth : Nat
  answer : Nat → Bool

structure O2fsckState where
  disk : Disk
  allocated_clusters : Nat → Bool
  duplicate_clusters : Nat → Bool
  asked : Nat

abbrev Fsck := Prog O2fsckState

section Basics

variable (env : Setup)

def promptIf (condition : Bool) : Fsck Bool := do
  if condition then
    let ost ← get
    modify fun ost => { ost with asked := ost.asked + 1 }
    return env.answer ost.asked
  else return false

def writeBlock (blkno : Nat) (block : Block) : Fsck PUnit :=
  modify fun ost => { ost with disk := Function.update ost.disk blkno block }

def o2fsckWriteInode (blkno : Nat) (di : Dinode) : Fsck PUnit :=
  if blkno = di.i_blkno then writeBlock blkno (.dinode di) else pure ()

def fixInode (blkno : Nat) (condition : Bool) (fix : Dinode → Dinode) (di : Dinode) : Fsck Dinode := do
  if ← promptIf env condition then
    o2fsckWriteInode blkno (fix di)
    return fix di
  else return di

def o2fsckMarkClusterAllocated (cluster : Nat) : Fsck PUnit :=
  if cluster ≥ env.fs.fs_clusters then failure
  else
    modify fun ost =>
      if ost.allocated_clusters cluster then
        { ost with duplicate_clusters := Function.update ost.duplicate_clusters cluster true }
      else { ost with allocated_clusters := Function.update ost.allocated_clusters cluster true }

def o2fsckMarkClustersAllocated (cluster num : Nat) : Fsck PUnit :=
  (List.range' cluster num).forM (o2fsckMarkClusterAllocated env)

def o2fsckMarkClusterUnallocated (cluster : Nat) : Fsck PUnit :=
  if cluster ≥ env.fs.fs_clusters then failure
  else modify fun ost => { ost with allocated_clusters := Function.update ost.allocated_clusters cluster false }

end Basics

section Check

variable (env : Setup)

/-- `ei_claimed` is no field of the source: it holds the clusters that have been marked, in their order. -/
structure ExtentInfo where
  ei_expect_depth : Bool
  ei_expected_depth : Nat
  ei_claimed : List Nat

structure Checked where
  ei : ExtentInfo
  el : ExtentList
  changed : Bool

def checkEb (checkEl : ExtentInfo → ExtentList → Nat → Bool → Fsck Checked) (ei : ExtentInfo) (blkno : Nat) :
    Fsck (ExtentInfo × Bool) := do
  let ost ← get
  match readExtentBlockNocheck env.fs.toGeometry (extentBlocks ost.disk) blkno with
  | .error .badExtentBlockMagic => return (ei, false)
  | .error _ => return (ei, true)
  | .ok eb =>
    let moved ← promptIf env (eb.h_blkno ≠ blkno)
    let eb := if moved then { eb with h_blkno := blkno } else eb
    let stale := eb.h_fs_generation ≠ env.fs_generation
    if ← promptIf env stale then return (ei, false)
    let fix ← promptIf env stale
    let eb := if fix then { eb with h_fs_generation := env.fs_generation } else eb
    let checked ← checkEl ei eb.h_list env.fs.extent_recs_per_eb (moved || fix)
    if checked.changed then
      writeBlock blkno (.extentBlock { eb with h_list := checked.el })
      return (checked.ei, true)
    else return (checked.ei, true)

def clearUnwritten (er : ExtentRec) : ExtentRec := { er with e_int_clusters := er.e_int_clusters - 2 ^ 24 }

def checkLeafRec (er : ExtentRec) (changed : Bool) : Fsck (ExtentRec × Bool) := do
  let fs := env.fs.toGeometry
  let clusters := recClusters 0 er
  let unwritten ← promptIf env (!env.fs.unwritten_extents && er.e_flags % 2 = 1)
  let er := if unwritten then clearUnwritten er else er
  let first_block := fs.clustersToBlocks (fs.blocksToClusters er.e_blkno)
  let unaligned ← promptIf env (first_block ≠ er.e_blkno)
  let er := if unaligned then { er with e_blkno := first_block } else er
  let last_cluster := (fs.blocksToClusters er.e_blkno + clusters) % 2 ^ 32
  let overrun ← promptIf env (last_cluster > fs.fs_clusters)
  let clusters := (clusters + 2 ^ 32 - (last_cluster - fs.fs_clusters)) % 2 ^ 32
  let er := if overrun then setRecClusters 0 er clusters else er
  return (er, changed || unaligned || overrun)

def checkEr (checkEb : ExtentInfo → Nat → Fsck (ExtentInfo × Bool)) (ei : ExtentInfo) (el : ExtentList)
    (er : ExtentRec) (changed : Bool) : Fsck (ExtentInfo × ExtentRec × Bool) := do
  if env.fs.blockOutOfRange er.e_blkno then return (ei, er, changed)
  if el.l_tree_depth ≠ 0 then
    let (ei, is_valid) ← checkEb { ei with ei_expect_depth := true, ei_expected_depth := el.l_tree_depth - 1 } er.e_blkno
    if ← promptIf env (!is_valid) then return (ei, { er with e_blkno := 0 }, true)
    return (ei, er, changed)
  let (er, changed) ← checkLeafRec env er changed
  return (ei, er, changed)

def removeRec (el : ExtentList) (i left : Nat) : ExtentList :=
  let recs :=
    if left ≠ 0 then
      el.l_recs.take i ++ (el.l_recs.drop (i + 1)).take left ++ [⟨0, 0, 0⟩] ++ el.l_recs.drop (i + 1 + left)
    else el.l_recs
  { el with l_recs := recs, l_next_free_rec := el.l_next_free_rec - 1 }

def checkElLoop (checkEb : ExtentInfo → Nat → Fsck (ExtentInfo × Bool)) (trust_next_free : Bool) :
    Nat → Nat → Checked → Fsck Checked
  | 0, _, c => return c
  | left + 1, i, c =>
    match c.el.l_recs[i]? with
    | none => failure
    | some er => do
      let depth := c.el.l_tree_depth
      let clusters := recClusters depth er
      if env.fs.sparse_alloc ∧ depth ≠ 0 ∧ i = 0 ∧ clusters = 0 then
        checkElLoop checkEb trust_next_free left (i + 1) c
      else
        let (ei, er, changed) ← checkEr env checkEb c.ei c.el er c.changed
        let el := { c.el with l_recs := c.el.l_recs.set i er }
        if ← promptIf env (env.fs.blockOutOfRange er.e_blkno) then
          if !trust_next_free then checkElLoop checkEb trust_next_free left (i + 1) ⟨ei, el, changed⟩
          else
            checkElLoop checkEb trust_next_free left (if left ≠ 0 then i else i + 1) ⟨ei, removeRec el i left, true⟩
        else if depth ≠ 0 then checkElLoop checkEb trust_next_free left (i + 1) ⟨ei, el, changed⟩
        else
          -- the number of clusters is the one from before the check
          let first := env.fs.blocksToClusters er.e_blkno
          o2fsckMarkClustersAllocated env first clusters
          let ei := { ei with ei_claimed := ei.ei_claimed ++ List.range' first clusters }
          checkElLoop checkEb trust_next_free left (i + 1) ⟨ei, el, changed⟩

def checkEl : Nat → ExtentInfo → ExtentList → Nat → Bool → Fsck Checked
  | 0, _, _, _, _ => failure
  | fuel + 1, ei, el, max_recs, changed => do
    let depth ← promptIf env (ei.ei_expect_depth && el.l_tree_depth ≠ ei.ei_expected_depth)
    let el := if depth then { el with l_tree_depth := ei.ei_expected_depth } else el
    let count ← promptIf env (el.l_count > max_recs)
    let el := if count then { el with l_count := max_recs } else el
    let max_recs := min max_recs el.l_count
    let beyond := el.l_next_free_rec > max_recs
    let clamp ← promptIf env beyond
    let el := if clamp then { el with l_next_free_rec := el.l_count } else el
    let trust_next_free := !beyond || clamp
    let max_recs := if trust_next_free then el.l_next_free_rec else max_recs
    checkElLoop env (checkEb env (checkEl fuel)) trust_next_free max_recs 0
      ⟨ei, el, changed || depth || count || clamp⟩

def o2fsckCheckExtents (di : Dinode) : Fsck (Dinode × List Nat) := do
  let checked ← checkEl env env.stack_depth ⟨false, 0, []⟩ di.i_list env.fs.extent_recs_per_inode false
  let di := { di with i_list := checked.el }
  if checked.changed then
    o2fsckWriteInode di.i_blkno di
    return (di, checked.ei.ei_claimed)
  else return (di, checked.ei.ei_claimed)

end Check

end Ocfs2.Pass1
