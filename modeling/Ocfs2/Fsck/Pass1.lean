import Ocfs2.Fsck.Pass1Extent
import Ocfs2.Libocfs2.Bitops

set_option autoImplicit false

/-!
The scan over the inodes, which checks each of them and clears some, and the marks for the local allocators and
the truncate logs at its end. The bookkeeping for later passes and the allocators of the inodes are left out. The
extent lists of the extended attributes of an inode are given by `xattrs`, and the bytes of a block by `bytes`.
-/

namespace Ocfs2.Pass1

open ByteBuffer Bitops Extents Program

section Fields

variable (env : Setup)

def verifyLocalAlloc (di : Dinode) : Fsck Dinode := do
  let max := env.fs.local_alloc_size
  let large := di.i_lab.la_size > max
  let size ← promptIf env large
  let di := if size then { di with i_lab := { di.i_lab with la_size := max } } else di
  if di.i_total = 0 then
    let used ← promptIf env (di.i_used ≠ 0)
    let di := if used then { di with i_used := 0 } else di
    let off ← promptIf env (di.i_lab.la_bm_off ≠ 0)
    let di := if off then { di with i_lab := { di.i_lab with la_bm_off := 0 } } else di
    finish di large false (size || used || off)
  else
    let start := di.i_lab.la_bm_off ≥ env.fs.fs_clusters
    let clear ← promptIf env start
    let many := di.i_total > di.i_lab.la_size * 8
    let clamp ← promptIf env many
    let di := if clamp then { di with i_total := di.i_lab.la_size * 8 } else di
    if (di.i_lab.la_bm_off + di.i_total) % 2 ^ 32 > env.fs.fs_clusters then
      let straddle ← promptIf env true
      finish di true (clear || straddle) (size || clamp)
    else
      let overrun := di.i_used > di.i_total
      let used ← promptIf env overrun
      let di := if used then { di with i_used := di.i_total } else di
      finish di (large || start || many || overrun) clear (size || clamp || used)
where
  finish (di : Dinode) (broken clear changed : Bool) : Fsck Dinode := do
    let asked ← promptIf env (broken && !clear)
    let clear := clear || asked
    let bitmap := List.replicate env.fs.local_alloc_size (0 : BitVec 8)
    let di :=
      if clear then
        { di with
          i_total := 0
          i_used := 0
          i_lab := { di.i_lab with la_bm_off := 0, la_bitmap := bitmap } }
      else di
    if changed || clear then
      o2fsckWriteInode di.i_blkno di
      return di
    else return di

def verifyTruncateRec (tr : TruncateRec) : Fsck (TruncateRec × Bool) := do
  if tr.t_start = 0 then return (tr, false)
  let last := (tr.t_start + tr.t_clusters) % 2 ^ 32
  let start ← promptIf env (tr.t_start ≥ env.fs.fs_clusters)
  let wrap ← promptIf env (last < tr.t_start)
  let range ← promptIf env (last > env.fs.fs_clusters)
  if start || wrap || range then return (⟨0, 0⟩, true) else return (tr, false)

def verifyTruncateLog (di : Dinode) : Fsck Dinode := do
  let max := env.fs.truncate_recs_per_inode
  let count ← promptIf env (di.i_dealloc.tl_count > max)
  let tl := if count then { di.i_dealloc with tl_count := max } else di.i_dealloc
  let used ← promptIf env (tl.tl_used > tl.tl_count)
  let tl := if used then { tl with tl_used := tl.tl_count } else tl
  let n := min max tl.tl_used
  let recs ← (tl.tl_recs.take n).mapM (verifyTruncateRec env)
  let di := { di with i_dealloc := { tl with tl_recs := recs.map Prod.fst ++ tl.tl_recs.drop n } }
  if count || used || recs.any Prod.snd then
    o2fsckWriteInode di.i_blkno di
    return di
  else return di

def o2fsckVerifyInodeFields (blkno : Nat) (di : Dinode) : Fsck Dinode := do
  let stale := di.i_fs_generation ≠ env.fs_generation
  if ← promptIf env stale then return ← clear di
  let di ← fixInode env blkno stale (fun di => { di with i_fs_generation := env.fs_generation }) di
  let di ← fixInode env blkno (di.i_blkno ≠ blkno) (fun di => { di with i_blkno := blkno }) di
  if ← promptIf env (di.i_blkno = env.fs.fs_root_blkno ∧ di.i_mode ≠ .dir) then return ← clear di
  let di ← fixInode env blkno (di.i_dtime ≠ 0) (fun di => { di with i_dtime := 0 }) di
  let unsupported := di.i_inline_data && !env.fs.inline_data
  let di ← fixInode env blkno unsupported (fun di => { di with i_inline_data := false }) di
  if di.i_mode = .other then return ← clear di
  if di.i_flags.local_alloc then verifyLocalAlloc env di
  else if di.i_flags.dealloc then verifyTruncateLog env di
  else return di
where
  clear (di : Dinode) : Fsck Dinode := do
    let di := { di with i_flags := { di.i_flags with valid := false } }
    o2fsckWriteInode blkno di
    return di

def verifyIfValid (blkno : Nat) (di : Dinode) : Fsck Dinode :=
  if di.i_flags.valid then o2fsckVerifyInodeFields env blkno di else pure di

end Fields

section Blocks

variable (env : Setup) (bytes : Block → Buffer)

structure VerifyingBlocks where
  vb_saw_link_null : Bool
  vb_link_len : Nat
  vb_num_blocks : Nat
  vb_last_block : Nat

def processLinkBlock (disk : Disk) (vb : VerifyingBlocks) (blkno : Nat) : VerifyingBlocks :=
  if vb.vb_saw_link_null then vb
  else
    let buf := bytes (disk blkno)
    let null := buf.idxOf 0#8
    if null < buf.length then { vb with vb_link_len := vb.vb_link_len + null, vb_saw_link_null := true }
    else { vb with vb_link_len := vb.vb_link_len + env.fs.fs_blocksize }

def verifyBlock (disk : Disk) (di : Dinode) (vb : VerifyingBlocks) (block : Nat × Nat) : VerifyingBlocks :=
  let vb := if di.i_mode = .lnk then processLinkBlock env bytes disk vb block.1 else vb
  { vb with
    vb_num_blocks := vb.vb_num_blocks + 1
    vb_last_block := max vb.vb_last_block block.2 }

def blockIterateInode (di : Dinode) : Fsck (List (Nat × Nat)) := do
  let fs := env.fs.toGeometry
  let ost ← get
  if !di.i_flags.valid || di.i_flags.super_block || di.i_flags.local_alloc || di.i_flags.chain then failure
  else
    match extentIterateEl fs (extentBlocks ost.disk) di.i_list.l_tree_depth di.i_list with
    | .error _ => failure
    | .ok recs => return recs.flatMap (recBlocks fs)

def checkLinkData (vb : VerifyingBlocks) (di : Dinode) : Fsck (Dinode × Bool) := do
  let fast := di.i_clusters = 0
  if ← promptIf env (fast ∧ vb.vb_num_blocks > 0) then return (di, true)
  let null := (di.i_symlink.take env.fs.symlink_max).idxOf 0#8
  let saw_null := if fast then vb.vb_saw_link_null || null < env.fs.symlink_max else vb.vb_saw_link_null
  let link_len := if fast then min null env.fs.symlink_max else vb.vb_link_len
  let expected := if fast then 0 else env.fs.blocksInBytes (link_len + 1)
  if ← promptIf env (!saw_null) then return (di, true)
  if ← promptIf env (di.i_size ≠ link_len) then
    let di := { di with i_size := link_len }
    o2fsckWriteInode di.i_blkno di
    return (di, false)
  if ← promptIf env (vb.vb_num_blocks < expected) then return (di, true)
  return (di, false)

def checkIfLink (vb : VerifyingBlocks) (di : Dinode) : Fsck (Dinode × Bool) :=
  if di.i_mode = .lnk then checkLinkData env vb di else pure (di, false)

def sizeClusterCheck (blkno : Nat) (vb : VerifyingBlocks) (di : Dinode) : Fsck Dinode := do
  let fs := env.fs.toGeometry
  if di.i_inline_data then
    let max_inline :=
      if di.i_inline_xattr then env.fs.max_inline_data - di.i_xattr_inline_size else env.fs.max_inline_data
    let di ← fixInode env blkno (di.id_count ≠ max_inline) (fun di => { di with id_count := max_inline }) di
    let di ← fixInode env blkno (di.i_size > max_inline) (fun di => { di with i_size := max_inline }) di
    fixInode env blkno (di.i_clusters > 0) (fun di => { di with i_clusters := 0 }) di
  else if env.fs.sparse_alloc then
    let expected := if vb.vb_num_blocks > 0 then fs.blocksToClusters (vb.vb_last_block + 1) * fs.fs_clustersize else 0
    let small := vb.vb_num_blocks > 0 ∧ di.i_mode ≠ .lnk ∧ di.i_mode ≠ .dir ∧
      di.i_size ≤ (expected + 2 ^ 64 - fs.fs_clustersize) % 2 ^ 64
    let di ← fixInode env blkno small (fun di => { di with i_size := expected }) di
    let expected := if vb.vb_num_blocks > 0 then fs.clustersInBlocks vb.vb_num_blocks else 0
    fixInode env blkno (di.i_clusters ≠ expected) (fun di => { di with i_clusters := expected }) di
  else
    let expected := if vb.vb_num_blocks > 0 then (vb.vb_last_block + 1) * fs.fs_blocksize else 0
    let large := di.i_mode ≠ .lnk ∧ di.i_size > expected
    let di ← fixInode env blkno large (fun di => { di with i_size := expected }) di
    let expected := if vb.vb_num_blocks > 0 then fs.clustersInBlocks (vb.vb_last_block + 1) else 0
    fixInode env blkno (di.i_clusters ≠ expected) (fun di => { di with i_clusters := expected }) di

structure Seen where
  di : Dinode
  claimed : List Nat
  clusters : List Nat
  cleared : Bool

def o2fsckCheckBlocks (blkno : Nat) (di : Dinode) : Fsck Seen := do
  let flags := di.i_flags
  if flags.super_block || flags.local_alloc || flags.bitmap || flags.chain || flags.dealloc then
    return ⟨di, [], [], false⟩
  if di.i_mode = .lnk ∧ di.i_clusters = 0 then return ⟨di, [], [], false⟩
  if di.i_inline_data then
    let di ← sizeClusterCheck env blkno ⟨false, 0, 0, 0⟩ di
    return ⟨di, [], [], false⟩
  let (di, claimed) ← o2fsckCheckExtents env di
  let blocks ← blockIterateInode env di
  let clusters := blocks.map fun block => env.fs.blocksToClusters block.1
  let ost ← get
  let vb := blocks.foldl (verifyBlock env bytes ost.disk di) ⟨false, 0, 0, 0⟩
  let (di, link) ← checkIfLink env vb di
  let zero ← promptIf env (di.i_mode = .dir ∧ vb.vb_num_blocks = 0)
  if link || zero then
    let di := { di with i_links_count := 0, i_dtime := env.now }
    let blocks ← blockIterateInode env di
    let clusters := blocks.map fun block => env.fs.blocksToClusters block.1
    clusters.forM (o2fsckMarkClusterUnallocated env)
    -- the flags are masked with the negation of a flag, which is zero
    let di := { di with i_flags := ⟨false, false, false, false, false, false⟩ }
    o2fsckWriteInode di.i_blkno di
    return ⟨di, claimed, clusters, true⟩
  let di ← sizeClusterCheck env blkno vb di
  return ⟨di, claimed, clusters, false⟩

end Blocks

section Pass

variable (env : Setup) (bytes : Block → Buffer) (xattrs : O2fsckState → Dinode → List (ExtentList × Nat))

def o2fsckCheckXattr (di : Dinode) : Fsck (List Nat) := do
  let ost ← get
  let claimed ← (xattrs ost di).mapM fun (el, max_recs) => do
    let checked ← checkEl env env.stack_depth ⟨false, 0, []⟩ el max_recs false
    return checked.ei.ei_claimed
  return claimed.flatten

structure Visit where
  seen : Seen
  xattr : List Nat

def Visit.valid (visit : Visit) : Bool := visit.seen.di.i_flags.valid

def visitInode (blkno : Nat) : Fsck (Option Visit) := do
  let ost ← get
  match ost.disk blkno with
  | .dinode di =>
    if env.fix_fs_gen || di.i_fs_generation = env.fs_generation then
      let di ← verifyIfValid env blkno di
      if di.i_flags.valid then
        let seen ← o2fsckCheckBlocks env bytes blkno di
        let xattr ← o2fsckCheckXattr env xattrs seen.di
        return some ⟨seen, xattr⟩
      else return none
    else return none
  | _ => return none

def scanInodes : List Nat → Fsck (List Visit)
  | [] => return []
  | blkno :: rest => do
    let visit ← visitInode env bytes xattrs blkno
    let visits ← scanInodes rest
    return visit.toList ++ visits

def clearBits (la : LocalAlloc) (total : Nat) : Nat → Nat → List Nat
  | 0, _ => []
  | fuel + 1, bit =>
    if bit < total then
      let bit := findNextBitClear la.la_bitmap total bit
      if bit < total then (bit + la.la_bm_off) :: clearBits la total fuel (bit + 1) else []
    else []

def localAllocClusters (di : Dinode) : List Nat :=
  let la := di.i_lab
  if di.i_total = 0 then []
  else if la.la_size > env.fs.local_alloc_size ∨ di.i_used > di.i_total ∨ di.i_total > la.la_size * 8 then []
  else if la.la_bm_off ≥ env.fs.fs_clusters ∨ la.la_bm_off + di.i_total > env.fs.fs_clusters then []
  else clearBits la di.i_total di.i_total 0

def truncateLogClusters (di : Dinode) : List Nat :=
  (di.i_dealloc.tl_recs.take (min di.i_dealloc.tl_used env.fs.truncate_recs_per_inode)).flatMap fun tr =>
    if tr.t_start = 0 then [] else List.range' tr.t_start tr.t_clusters

def slotClusters (clusters : Dinode → List Nat) (disk : Disk) : List Nat → List Nat
  | [] => []
  | blkno :: rest =>
    match disk blkno with
    | .dinode di => clusters di ++ slotClusters clusters disk rest
    | _ => []

def o2fsckPass1 (inodes local_allocs truncate_logs : List Nat) : Fsck (List Visit × List Nat) := do
  let visits ← scanInodes env bytes xattrs inodes
  let ost ← get
  let reserved := slotClusters (localAllocClusters env) ost.disk local_allocs ++
    slotClusters (truncateLogClusters env) ost.disk truncate_logs
  reserved.forM (o2fsckMarkClusterAllocated env)
  return (visits, reserved)

end Pass

end Ocfs2.Pass1
